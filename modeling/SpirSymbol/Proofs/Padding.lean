import Mathlib.Data.List.TakeWhile
import SpirSymbol.Proofs.Numeral
import SpirSymbol.Text.Blank

namespace SpirSymbol.Text

variable {lead tail core text : List Char}

/-- A text of blanks, or of nothing. -/
def Blank (text : List Char) : Prop := ∀ char ∈ text, isBlank char = true

/-- The text is the core with blanks at both ends, or at none. -/
def Padded (core text : List Char) : Prop :=
  ∃ lead tail, Blank lead ∧ Blank tail ∧ text = lead ++ core ++ tail

/-- There is no blank at either end. -/
structure Trimmed (core : List Char) : Prop where
  front : Stops isBlank core
  back : Stops isBlank core.reverse

theorem blank_iff : Blank text ↔ text.all isBlank = true := by
  simp [Blank]

theorem Blank.append (front : Blank lead) (back : Blank tail) : Blank (lead ++ tail) := by
  intro char member
  rcases List.mem_append.mp member with early | late
  · exact front char early
  · exact back char late

theorem Blank.trimStart_eq (blank : Blank text) : trimStart text = [] := by
  have dropped := trimStart_append blank []
  rwa [List.append_nil] at dropped

theorem trimStart_of_stops (stops : Stops isBlank text) : trimStart text = text := by
  cases text with
  | nil => rfl
  | cons char rest => simp [trimStart, stops char rfl]

theorem exists_blank_trimStart (text : List Char) :
    ∃ lead, Blank lead ∧ text = lead ++ trimStart text := by
  refine ⟨text.takeWhile isBlank, ?_, List.takeWhile_append_dropWhile.symm⟩
  intro char member
  exact List.mem_takeWhile_imp member

/-- A text without blanks at its ends is what trimming leaves of it. -/
theorem trim_of_padded (trimmed : Trimmed core) (padded : Padded core text) :
    trim text = core := by
  obtain ⟨lead, tail, front, back, rfl⟩ := padded
  have first : trimStart (lead ++ core ++ tail) = trimStart (core ++ tail) := by
    rw [List.append_assoc, trimStart_append front]
  cases core with
  | nil =>
    rw [List.nil_append, back.trimStart_eq] at first
    rw [trim, first]
    rfl
  | cons char rest =>
    have stops : Stops isBlank (char :: rest ++ tail) := stops_cons (trimmed.front char rfl)
    have blanks : Blank tail.reverse := by simpa [Blank] using back
    rw [trim, first, trimStart_of_stops stops, List.reverse_append, trimStart_append blanks,
      trimStart_of_stops trimmed.back, List.reverse_reverse]

theorem padded_trim (text : List Char) : Padded (trim text) text := by
  obtain ⟨lead, front, first⟩ := exists_blank_trimStart text
  obtain ⟨tail, back, last⟩ := exists_blank_trimStart (trimStart text).reverse
  refine ⟨lead, tail.reverse, front, by simpa [Blank] using back, ?_⟩
  have rest : trimStart text = trim text ++ tail.reverse := by
    simpa [trim] using congrArg List.reverse last
  rw [List.append_assoc, ← rest]
  exact first

theorem trim_eq_nil_iff : trim text = [] ↔ Blank text := by
  constructor
  · intro empty
    obtain ⟨lead, tail, front, back, split⟩ := padded_trim text
    rw [empty, List.append_nil] at split
    rw [split]
    exact front.append back
  · intro blank
    exact trim_of_padded ⟨nofun, nofun⟩ ⟨text, [], blank, nofun, by simp⟩

end SpirSymbol.Text
