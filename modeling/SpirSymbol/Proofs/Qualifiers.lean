import SpirSymbol.Proofs.Padding
import SpirSymbol.Proofs.Sequence
import SpirSymbol.Qualifiers.Text

namespace SpirSymbol

namespace Text

variable {lead tail piece : List Char} {items : List (List Char)}

/-- A piece that has something in it, and neither blanks nor the bar. -/
structure Solid (piece : List Char) : Prop where
  nonempty : piece ≠ []
  bare : ∀ char ∈ piece, char ≠ '|' ∧ isBlank char = false

/-- The characters of a given text can be looked through one by one. -/
theorem bare_of_all (all : piece.all (fun char => char ≠ '|' ∧ isBlank char = false) = true) :
    ∀ char ∈ piece, char ≠ '|' ∧ isBlank char = false := by
  simpa only [List.all_eq_true, decide_eq_true_eq] using all

theorem blank_of_mem_singleton {char : Char} (member : char ∈ [' ']) :
    char ≠ '|' ∧ isBlank char = true := by
  obtain rfl := List.mem_singleton.mp member
  decide

theorem Solid.stops_append (solid : Solid piece) (tail : List Char) :
    Stops isBlank (piece ++ tail) := by
  obtain ⟨char, rest, rfl⟩ := List.exists_cons_of_ne_nil solid.nonempty
  exact stops_cons (solid.bare char List.mem_cons_self).2

theorem Solid.reverse (solid : Solid piece) : Solid piece.reverse :=
  ⟨by simpa using solid.nonempty, fun char member => solid.bare char (List.mem_reverse.mp member)⟩

theorem Solid.trimmed (solid : Solid piece) : Trimmed piece := by
  have front := solid.stops_append []
  have back := solid.reverse.stops_append []
  rw [List.append_nil] at front back
  exact ⟨front, back⟩

theorem Solid.trim_eq (solid : Solid piece) (front : Blank lead) (back : Blank tail) :
    trim (lead ++ piece ++ tail) = piece :=
  trim_of_padded solid.trimmed ⟨lead, tail, front, back, rfl⟩

theorem Solid.not_blank (solid : Solid piece) (separator : List Char) (rest : List (List Char)) :
    (separator.intercalate (piece :: rest)).all isBlank = false := by
  obtain ⟨char, others, rfl⟩ := List.exists_cons_of_ne_nil solid.nonempty
  have first := (solid.bare char List.mem_cons_self).2
  cases rest <;> simp [List.intercalate_cons_cons, first]

/-- Cutting joined pieces at the bars gives the pieces. -/
theorem map_trim_pieces (nonempty : items ≠ []) (solid : ∀ item ∈ items, Solid item)
    (blank : ∀ char ∈ lead, char ≠ '|' ∧ isBlank char = true) :
    (pieces '|' (lead ++ [' ', '|', ' '].intercalate items)).map trim = items := by
  induction items generalizing lead with
  | nil => exact absurd rfl nonempty
  | cons item rest ih =>
    have here := solid item List.mem_cons_self
    have front : ∀ char ∈ lead, isBlank char = true := fun char member => (blank char member).2
    have absent : '|' ∉ lead ++ item := by
      intro member
      rcases List.mem_append.mp member with early | late
      · exact (blank _ early).1 rfl
      · exact (here.bare _ late).1 rfl
    cases rest with
    | nil =>
      have trimmed : trim (lead ++ item ++ []) = item := here.trim_eq front nofun
      rw [List.append_nil] at trimmed
      rw [List.intercalate_singleton, pieces_of_not_mem absent, List.map_singleton, trimmed]
    | cons next others =>
      have padded : '|' ∉ lead ++ item ++ [' '] := by simpa using absent
      have later : (pieces '|' ([' '] ++ [' ', '|', ' '].intercalate (next :: others))).map trim =
          next :: others :=
        ih (by simp) (fun other member => solid other (List.mem_cons_of_mem _ member))
          fun _ => blank_of_mem_singleton
      have trimmed : trim (lead ++ item ++ [' ']) = item :=
        here.trim_eq front fun _ member => (blank_of_mem_singleton member).2
      have split : lead ++ [' ', '|', ' '].intercalate (item :: next :: others) =
          (lead ++ item ++ [' ']) ++ '|' :: ([' '] ++
            [' ', '|', ' '].intercalate (next :: others)) := by
        simp [List.intercalate_cons_cons]
      rw [split, pieces_append, pieces_of_not_mem padded, List.map_append, List.map_singleton,
        trimmed, later, List.singleton_append]

end Text

namespace Numeral

theorem placeOf?_lowerDigit {place : Nat} (small : place < 16) :
    placeOf? (lowerDigit place) = some place := by
  have table : ∀ place : Fin 16, placeOf? (lowerDigit place) = some place.val := by decide
  exact table ⟨place, small⟩

theorem solid_of_mem_lowerHex {number : Nat} {char : Char}
    (member : char ∈ (lowerHex number).toList) :
    char ≠ '+' ∧ char ≠ '|' ∧ Text.isBlank char = false := by
  have table : ∀ place : Fin 16, lowerDigit place ≠ '+' ∧ lowerDigit place ≠ '|' ∧
      Text.isBlank (lowerDigit place) = false := by decide
  rw [lowerHex, String.toList_ofList] at member
  obtain ⟨place, listed, rfl⟩ := List.mem_map.mp member
  exact table ⟨place, lt_of_mem_digits (by decide) listed⟩

theorem readHex?_lowerHex (number : Nat) : readHex? (lowerHex number).toList = some number := by
  have small : ∀ place ∈ digits 16 number, place < 16 := fun _ => lt_of_mem_digits (by decide)
  have places : ((digits 16 number).map lowerDigit).mapM placeOf? = some (digits 16 number) := by
    rw [mapM_map_eq_some fun place member => placeOf?_lowerDigit (small place member),
      List.map_id']
  simpa [readHex?, lowerHex, digits_ne_nil, places, value_digits] using small

end Numeral

namespace Qualifiers

variable {qualifiers : Qualifiers}

/-- What holds of all eight-bit numbers holds of every set. -/
private theorem of_bits (holds : Qualifiers → Prop)
    (table : ∀ bits : Fin 256, holds ⟨UInt8.ofFin bits⟩) (qualifiers : Qualifiers) :
    holds qualifiers := by
  simpa using table qualifiers.bits.toFin

theorem ofList_toList (qualifiers : Qualifiers) :
    ofList qualifiers.toList = qualifiers.truncate := by
  refine of_bits (fun qualifiers => ofList qualifiers.toList = qualifiers.truncate) ?_ _
  decide +kernel

/-- A set is made of its known and its unknown bits. -/
theorem union_unknown (qualifiers : Qualifiers) :
    qualifiers.truncate.union qualifiers.unknown = qualifiers := by
  refine of_bits (fun qualifiers => qualifiers.truncate.union qualifiers.unknown = qualifiers) ?_ _
  decide +kernel

/-- The sets that the written pieces stand for. -/
def writtenSets (qualifiers : Qualifiers) : List Qualifiers :=
  qualifiers.toList.map Qualifier.flag ++
    if qualifiers.unknown.isEmpty then [] else [qualifiers.unknown]

theorem foldl_writtenSets (qualifiers : Qualifiers) :
    qualifiers.writtenSets.foldl union ∅ = qualifiers := by
  have known : (qualifiers.toList.map Qualifier.flag).foldl union ∅ = qualifiers.truncate := by
    rw [List.foldl_map]
    exact qualifiers.ofList_toList
  have whole := qualifiers.union_unknown
  rw [writtenSets, List.foldl_append, known]
  split
  · rename_i empty
    have none : qualifiers.unknown = ∅ := of_decide_eq_true empty
    rw [none] at whole
    simpa [union, EmptyCollection.emptyCollection] using whole
  · exact whole

theorem readPiece?_flagName (member : Qualifier) :
    readPiece? member.flagName.toList = some member.flag := by
  cases member <;> decide +kernel

theorem readBits?_lowerHex (bits : UInt8) :
    readBits? (Numeral.lowerHex bits.toNat).toList = some ⟨bits⟩ := by
  simp only [readBits?]
  split
  · rename_i rest signed
    have member : '+' ∈ (Numeral.lowerHex bits.toNat).toList := by
      rw [signed]
      exact List.mem_cons_self
    exact absurd rfl (Numeral.solid_of_mem_lowerHex member).1
  · simp [Numeral.readHex?_lowerHex, bits.toNat_lt]

theorem mapM_readPiece?_writtenPieces (qualifiers : Qualifiers) :
    (qualifiers.writtenPieces.map String.toList).mapM readPiece? = some qualifiers.writtenSets := by
  have flags (members : List Qualifier) : ((members.map Qualifier.flagName).map String.toList).mapM
      readPiece? = some (members.map Qualifier.flag) := by
    rw [List.map_map]
    exact mapM_map_eq_some fun member _ => readPiece?_flagName member
  rw [writtenPieces, writtenSets, List.map_append, List.mapM_append, flags]
  split
  · rfl
  · simp [readPiece?, readBits?_lowerHex]

theorem solid_of_mem_writtenPieces {piece : String} (member : piece ∈ qualifiers.writtenPieces) :
    Text.Solid piece.toList := by
  rcases List.mem_append.mp member with known | unknown
  · obtain ⟨flag, _, rfl⟩ := List.mem_map.mp known
    cases flag <;> exact ⟨by decide +kernel, Text.bare_of_all (by decide +kernel)⟩
  · split at unknown
    · cases unknown
    · rw [List.mem_singleton.mp unknown, String.toList_append]
      refine ⟨by simp, fun char member => ?_⟩
      rcases List.mem_append.mp member with lead | digit
      · exact Text.bare_of_all (by decide +kernel) char lead
      · exact (Numeral.solid_of_mem_lowerHex digit).2

/-- A set is read back from its text. -/
theorem ofText?_toText (qualifiers : Qualifiers) : ofText? qualifiers.toText = some qualifiers := by
  have solid : ∀ item ∈ qualifiers.writtenPieces.map String.toList, Text.Solid item := by
    intro item member
    obtain ⟨piece, listed, rfl⟩ := List.mem_map.mp member
    exact solid_of_mem_writtenPieces listed
  have read := qualifiers.mapM_readPiece?_writtenPieces
  have whole := qualifiers.foldl_writtenSets
  rw [ofText?, toText, String.toList_intercalate]
  cases shape : qualifiers.writtenPieces.map String.toList with
  | nil =>
    rw [shape] at read
    rw [← Option.some.inj read] at whole
    exact congrArg some whole
  | cons item rest =>
    rw [shape] at solid read
    have split : (Text.pieces '|' ([] ++ [' ', '|', ' '].intercalate (item :: rest))).map
        Text.trim = item :: rest :=
      Text.map_trim_pieces (List.cons_ne_nil item rest) solid (by simp)
    have sets : ((Text.pieces '|' ([] ++ [' ', '|', ' '].intercalate (item :: rest))).map
        Text.trim).mapM readPiece? =
          (Text.pieces '|' ([' ', '|', ' '].intercalate (item :: rest))).mapM
            (readPiece? ∘ Text.trim) := List.mapM_map
    rw [split, read] at sets
    rw [if_neg (by simp [(solid item List.mem_cons_self).not_blank])]
    exact (congrArg (· >>= _) sets.symm).trans (congrArg some whole)

end Qualifiers
end SpirSymbol
