import SpirSymbol.Proofs.Padding
import SpirSymbol.Proofs.Sequence
import SpirSymbol.Revision.Reader

/-! The texts that name a revision. Reading accepts these and no others: a blank may stand around a
number or a label and after the word of a label, but neither inside the number nor inside the word,
and the word stands at most once. -/
namespace SpirSymbol.Revision

variable {revision : Revision} {text : String}

/-- The word that a label begins with. -/
def word : String := "SPIR"

/-- A text names a revision by its number, or by the word and the number. Blanks may stand at both
ends and, if there is a word, after it. -/
inductive Names (revision : Revision) : String → Prop where
  | number (lead tail : String) (front : Text.Blank lead.toList) (back : Text.Blank tail.toList) :
      Names revision (lead ++ revision.number ++ tail)
  | label (lead gap tail : String) (front : Text.Blank lead.toList) (between : Text.Blank gap.toList)
      (back : Text.Blank tail.toList) :
      Names revision (lead ++ word ++ gap ++ revision.number ++ tail)

theorem find?_number (revision : Revision) :
    (Named.all : List Revision).find? (fun other => other.number.toList = revision.number.toList) =
      some revision := by
  cases revision <;> decide +kernel

/-- Reading succeeds exactly where the number of the revision is what is left of the text. -/
theorem parse_eq_ok_iff_dropLabel :
    parse text = .ok revision ↔ dropLabel (Text.trim text.toList) = revision.number.toList := by
  simp only [parse]
  constructor
  · intro read
    split at read
    · rename_i found
      obtain rfl := Except.ok.inj read
      have kept := List.find?_some found
      exact (of_decide_eq_true kept).symm
    · cases read
  · intro same
    rw [same, find?_number]

theorem parse_eq_error (unread : ∀ revision, parse text ≠ .ok revision) :
    parse text = .error ⟨text⟩ := by
  simp only [parse] at unread ⊢
  split
  · rename_i revision found
    exact absurd (by rw [found]) (unread revision)
  · rfl

section Number

theorem trimmed_number (revision : Revision) : Text.Trimmed revision.number.toList := by
  cases revision <;> exact ⟨Text.stops_cons rfl, Text.stops_cons rfl⟩

theorem dropLabel_number (revision : Revision) :
    dropLabel revision.number.toList = revision.number.toList := by
  cases revision <;> rfl

theorem dropLabel_word (rest : List Char) : dropLabel (word.toList ++ rest) = Text.trimStart rest :=
  rfl

theorem dropLabel_cases (text : List Char) :
    (∃ rest, text = word.toList ++ rest) ∨ dropLabel text = text := by
  unfold dropLabel
  split
  · exact .inl ⟨_, rfl⟩
  · exact .inr rfl

theorem trimmed_label (revision : Revision) (gap : List Char) :
    Text.Trimmed (word.toList ++ gap ++ revision.number.toList) := by
  refine ⟨Text.stops_cons rfl, ?_⟩
  rw [List.reverse_append]
  cases revision <;> exact Text.stops_cons rfl

end Number

theorem parse_of_names (names : revision.Names text) : parse text = .ok revision := by
  rw [parse_eq_ok_iff_dropLabel]
  cases names with
  | number lead tail front back =>
    have trimmed := trimmed_number revision
    rw [Text.trim_of_padded trimmed ⟨_, _, front, back, by simp⟩, dropLabel_number]
  | label lead gap tail front between back =>
    have trimmed := revision.trimmed_label gap.toList
    have stops := (trimmed_number revision).front
    rw [Text.trim_of_padded trimmed ⟨_, _, front, back, by simp⟩, List.append_assoc, dropLabel_word,
      Text.trimStart_append between, Text.trimStart_of_stops stops]

theorem names_of_parse (read : parse text = .ok revision) : revision.Names text := by
  have left := parse_eq_ok_iff_dropLabel.mp read
  obtain ⟨lead, tail, front, back, split⟩ := Text.padded_trim text.toList
  rcases dropLabel_cases (Text.trim text.toList) with ⟨rest, worded⟩ | kept
  · obtain ⟨gap, between, rest'⟩ := Text.exists_blank_trimStart rest
    rw [worded, dropLabel_word] at left
    have whole : text = String.ofList lead ++ word ++ String.ofList gap ++ revision.number ++
        String.ofList tail := by
      apply String.toList_injective
      rw [split, worded, rest', left]
      simp
    rw [whole]
    exact .label _ _ _ (by simpa using front) (by simpa using between) (by simpa using back)
  · have whole : text = String.ofList lead ++ revision.number ++ String.ofList tail := by
      apply String.toList_injective
      rw [split, ← kept, left]
      simp
    rw [whole]
    exact .number _ _ (by simpa using front) (by simpa using back)

theorem parse_eq_ok_iff : parse text = .ok revision ↔ revision.Names text :=
  ⟨names_of_parse, parse_of_names⟩

/-- Reading gives the revision that a text names, and for any other text an error that holds the
text as it was given. No text names two revisions, and a number or a label names its revision
whatever blanks are put around it. -/
theorem parse_grammar (text : String) :
    (∀ revision, parse text = .ok revision ↔ revision.Names text) ∧
      ((∀ revision : Revision, ¬ revision.Names text) → parse text = .error ⟨text⟩) ∧
      (∀ revision other : Revision, revision.Names text → other.Names text → revision = other) ∧
      ∀ (revision : Revision) (lead tail : String), Text.Blank lead.toList →
        Text.Blank tail.toList → parse (lead ++ revision.number ++ tail) = .ok revision ∧
          parse (lead ++ revision.label ++ tail) = .ok revision := by
  refine ⟨fun _ => parse_eq_ok_iff, ?_, ?_, ?_⟩
  · intro unnamed
    exact parse_eq_error fun revision read => unnamed revision (names_of_parse read)
  · intro revision other first second
    have same := (parse_of_names first).symm.trans (parse_of_names second)
    exact Except.ok.inj same
  · intro revision lead tail front back
    have between : Text.Blank " ".toList := by simp [Text.Blank, Text.isBlank, Text.blankRanges]
    have label : lead ++ revision.label ++ tail =
        lead ++ word ++ " " ++ revision.number ++ tail := by
      apply String.toList_injective
      simp [Revision.label, word]
    refine ⟨parse_of_names (.number lead tail front back), ?_⟩
    rw [label]
    exact parse_of_names (.label lead " " tail front between back)

/-- A label among all blanks that there are, a text with the word of a label twice, and a number
behind a character of no width, which is no blank. -/
theorem parse_grammar_word_twice :
    ∃ blanks : String,
      blanks = "\t\n\u000b\u000c\r \u0085\u00a0\u1680\u2000\u2001\u2002\u2003\u2004\u2005" ++
        "\u2006\u2007\u2008\u2009\u200a\u2028\u2029\u202f\u205f\u3000" ∧
      (∀ revision : Revision, ¬ revision.Names "SPIR SPIR 2.0") ∧
      parse "SPIR SPIR 2.0" = .error ⟨"SPIR SPIR 2.0"⟩ ∧
      parse "\u200b2.0" = .error ⟨"\u200b2.0"⟩ ∧
      Names .v2_0 (blanks ++ "SPIR" ++ blanks ++ "2.0" ++ blanks) ∧
      parse (blanks ++ "SPIR" ++ blanks ++ "2.0" ++ blanks) = .ok .v2_0 ∧
      (∀ other : Revision, other.Names (blanks ++ "SPIR" ++ blanks ++ "2.0" ++ blanks) →
        .v2_0 = other) ∧
      Text.Blank blanks.toList ∧ parse (blanks ++ "1.2" ++ blanks) = .ok .v1_2 ∧
      parse (blanks ++ "SPIR 1.2" ++ blanks) = .ok .v1_2 := by
  let blanks : String :=
    "\t\n\u000b\u000c\r \u0085\u00a0\u1680\u2000\u2001\u2002\u2003\u2004\u2005" ++
      "\u2006\u2007\u2008\u2009\u200a\u2028\u2029\u202f\u205f\u3000"
  have unnamed (revision : Revision) : ¬ revision.Names "SPIR SPIR 2.0" := by
    intro names
    have read := ((parse_grammar _).1 revision).mpr names
    have refused : parse "SPIR SPIR 2.0" = .error ⟨"SPIR SPIR 2.0"⟩ := by decide +kernel
    rw [refused] at read
    cases read
  have blank : Text.Blank blanks.toList := Text.blank_iff.mpr (by decide +kernel)
  have named : Names .v2_0 (blanks ++ "SPIR" ++ blanks ++ "2.0" ++ blanks) :=
    .label blanks blanks blanks blank blank blank
  have padded := (parse_grammar "").2.2.2 .v1_2 blanks blanks blank blank
  exact ⟨blanks, rfl, unnamed, (parse_grammar _).2.1 unnamed, by decide +kernel, named,
    ((parse_grammar _).1 .v2_0).mpr named, fun other => (parse_grammar _).2.2.1 .v2_0 other named,
    blank, padded.1, padded.2⟩

end SpirSymbol.Revision
