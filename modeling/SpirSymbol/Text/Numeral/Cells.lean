import SpirSymbol.Text.Numeral

namespace SpirSymbol.Numeral

/-- A row of cells, of which those from the position on are written. -/
structure Cells (width : Nat) where
  chars : Vector Char width
  position : Nat
  position_le : position ≤ width

/-- As many cells as the largest number of 32 bits has digits in base 36. -/
def wordWidth : Nat := 7

private theorem toNat_div_lt {number : UInt32} (more : ¬number / 36 = 0) :
    (number / 36).toNat < number.toNat := by
  rw [← UInt32.toNat_inj, UInt32.toNat_div] at more
  rw [UInt32.toNat_div]
  refine Nat.div_lt_self (Nat.pos_of_ne_zero ?_) (by decide)
  intro zero
  simp [zero] at more

namespace Cells

variable {width : Nat}

/-- A row in which nothing is written. -/
def blank (width : Nat) : Cells width := ⟨Vector.replicate width '\x00', width, Nat.le_refl width⟩

/-- What is written, from the front. -/
def written (cells : Cells width) : List Char := cells.chars.toList.drop cells.position

/-- Writes a character before those written so far. A full row has no cell for it. -/
def push? : Cells width → Char → Option (Cells width)
  | ⟨_, 0, _⟩, _ => none
  | ⟨chars, position + 1, inside⟩, char =>
    some ⟨chars.set position char, position, Nat.le_of_succ_le inside⟩

/-- Writes a number in base 36. A digit is written before it is asked whether more are left, so
that zero has one too. -/
def fill? (cells : Cells width) (number : UInt32) : Option (Cells width) :=
  match cells.push? (upperDigit (number % 36).toNat) with
  | none => none
  | some next => if number / 36 = 0 then some next else next.fill? (number / 36)
termination_by number.toNat
decreasing_by exact toNat_div_lt ‹_›

variable {cells next : Cells width} {char : Char}

theorem written_blank (width : Nat) : (blank width).written = [] := by
  simp [written, blank]

theorem push?_eq_none_iff : cells.push? char = none ↔ cells.position = 0 := by
  obtain ⟨chars, position, inside⟩ := cells
  cases position <;> simp [push?]

theorem position_of_push? (pushed : cells.push? char = some next) :
    next.position + 1 = cells.position := by
  obtain ⟨chars, position, inside⟩ := cells
  cases position with
  | zero => cases pushed
  | succ position =>
    obtain rfl := Option.some.inj pushed
    rfl

theorem written_of_push? (pushed : cells.push? char = some next) :
    next.written = char :: cells.written := by
  obtain ⟨chars, position, inside⟩ := cells
  cases position with
  | zero => cases pushed
  | succ position =>
    obtain rfl := Option.some.inj pushed
    have listed : position < (chars.toList.set position char).length := by
      rwa [List.length_set, Vector.length_toList]
    rw [written, written, Vector.toList_set, List.drop_eq_getElem_cons listed,
      List.getElem_set_self, List.drop_set_of_lt (Nat.lt_succ_self position)]

end Cells

/-- Writes a number of 32 bits after a text. There is no result if the cells run out. -/
def appendBase36? (before : String) (number : UInt32) : Option String :=
  ((Cells.blank wordWidth).fill? number).map fun cells => before ++ String.ofList cells.written

end SpirSymbol.Numeral
