import Mathlib.Data.Nat.Digits.Lemmas
import SpirSymbol.Text.Numeral

namespace SpirSymbol

namespace Text

variable {accepts : Char → Bool} {left right rest others : List Char}

/-- The text does not begin with such a character. -/
def Stops (accepts : Char → Bool) (text : List Char) : Prop :=
  ∀ char ∈ text.head?, accepts char = false

theorem stops_cons {char : Char} (ends : accepts char = false) : Stops accepts (char :: rest) := by
  intro other first
  obtain rfl := Option.some.inj first
  exact ends

theorem stops_dropWhile (accepts : Char → Bool) (text : List Char) :
    Stops accepts (text.dropWhile accepts) := by
  intro char first
  have next := List.head?_dropWhile_not accepts text
  rw [first] at next
  exact next

/-- Two runs of characters of one sort are the same if what follows them does not go on with
that sort. -/
theorem append_inj_of_stops (runLeft : ∀ char ∈ left, accepts char = true)
    (runRight : ∀ char ∈ right, accepts char = true) (ends : Stops accepts rest)
    (ends' : Stops accepts others) (same : left ++ rest = right ++ others) :
    left = right ∧ rest = others := by
  induction left generalizing right with
  | nil =>
    cases right with
    | nil => exact ⟨rfl, same⟩
    | cons char right =>
      rw [List.nil_append] at same
      have goes := runRight char List.mem_cons_self
      rw [ends char (by simp [same])] at goes
      cases goes
  | cons char left ih =>
    cases right with
    | nil =>
      rw [List.nil_append] at same
      have goes := runLeft char List.mem_cons_self
      rw [ends' char (by simp [← same])] at goes
      cases goes
    | cons other right =>
      obtain ⟨rfl, tail⟩ := List.cons.inj same
      obtain ⟨rfl, follows⟩ := ih (fun char member => runLeft char (List.mem_cons_of_mem _ member))
        (fun char member => runRight char (List.mem_cons_of_mem _ member)) tail
      exact ⟨rfl, follows⟩

end Text

namespace Numeral

variable {number other : Nat} {rest others : List Char}

theorem digits_ne_nil (base number : Nat) : digits base number ≠ [] := by
  unfold digits
  split <;> simp

section Places

variable {base : Nat} (two : 1 < base)
include two

theorem digits_eq_reverse (number : Nat) :
    digits base number = if number = 0 then [0] else (Nat.digits base number).reverse := by
  induction number using Nat.strongRecOn with
  | _ number ih =>
    by_cases small : number < base
    · by_cases zero : number = 0
      · rw [digits_of_lt small, if_pos zero, zero]
      · rw [digits_of_lt small, if_neg zero, Nat.digits_of_lt base number zero small,
          List.reverse_singleton]
    · have large := Nat.le_of_not_lt small
      have positive : 0 < number := by omega
      have quotient : number / base ≠ 0 := Nat.div_ne_zero_iff.mpr ⟨by omega, large⟩
      rw [digits_of_le two large, ih _ (Nat.div_lt_self positive two), if_neg quotient,
        if_neg positive.ne', Nat.digits_def' two positive, List.reverse_cons]

omit two in
theorem value_reverse (places : List Nat) :
    value base places.reverse = Nat.ofDigits base places := by
  rw [value, List.foldl_reverse, Nat.ofDigits_eq_foldr]
  congr
  funext place total
  rw [Nat.mul_comm, Nat.add_comm, Nat.cast_id]

theorem value_digits (number : Nat) : value base (digits base number) = number := by
  rw [digits_eq_reverse two]
  split
  · rename_i zero
    simp [value, zero]
  · rw [value_reverse, Nat.ofDigits_digits]

theorem lt_of_mem_digits {number place : Nat} (member : place ∈ digits base number) :
    place < base := by
  rw [digits_eq_reverse two] at member
  split at member
  · rw [List.mem_singleton] at member
    omega
  · exact Nat.digits_lt_base two (List.mem_reverse.mp member)

/-- Only zero is written with a zero in front. -/
theorem head_digits_ne_zero {number : Nat} (positive : number ≠ 0) :
    (digits base number).head? ≠ some 0 := by
  rw [digits_eq_reverse two, if_neg positive, List.head?_reverse,
    List.getLast?_eq_some_getLast (Nat.digits_ne_nil_iff_ne_zero.mpr positive), ne_eq,
    Option.some.injEq]
  exact Nat.getLast_digit_ne_zero base positive

end Places

theorem placeOf?_upperDigit (place : Fin 36) :
    placeOf? (upperDigit place) = some place.val := by
  revert place
  decide

theorem map_upperDigit_inj {base : Nat} (two : 2 ≤ base) (few : base ≤ 36)
    (same : (digits base number).map upperDigit = (digits base other).map upperDigit) :
    number = other := by
  have places (number : Nat) :
      ((digits base number).map upperDigit).map placeOf? = (digits base number).map some := by
    rw [List.map_map]
    apply List.map_congr_left
    intro place member
    have small := Nat.lt_of_lt_of_le (lt_of_mem_digits two member) few
    exact placeOf?_upperDigit ⟨place, small⟩
  have equal : (digits base number).map some = (digits base other).map some := by
    rw [← places, ← places, same]
  have listed : digits base number = digits base other :=
    List.map_inj_right (fun _ _ => Option.some.inj) |>.mp equal
  rw [← value_digits two number, listed, value_digits two]

/-- The digits and capital letters that base 36 is written in. -/
def isUpper (char : Char) : Bool := char.isDigit || char.isUpper

theorem isDigit_upperDigit {place : Nat} (small : place < 10) :
    (upperDigit place).isDigit = true := by
  have table : ∀ place : Fin 10, (upperDigit place).isDigit = true := by decide
  exact table ⟨place, small⟩

theorem isUpper_upperDigit {place : Nat} (small : place < 36) :
    isUpper (upperDigit place) = true := by
  have table : ∀ place : Fin 36, isUpper (upperDigit place) = true := by decide
  exact table ⟨place, small⟩

theorem isDigit_of_mem_decimal {char : Char} (member : char ∈ (decimal number).toList) :
    char.isDigit = true := by
  rw [decimal, String.toList_ofList] at member
  obtain ⟨place, listed, rfl⟩ := List.mem_map.mp member
  exact isDigit_upperDigit (lt_of_mem_digits (by decide) listed)

theorem isUpper_of_mem_base36 {char : Char} (member : char ∈ (base36 number).toList) :
    isUpper char = true := by
  rw [base36, String.toList_ofList] at member
  obtain ⟨place, listed, rfl⟩ := List.mem_map.mp member
  exact isUpper_upperDigit (lt_of_mem_digits (by decide) listed)

theorem decimal_append_inj (ends : Text.Stops Char.isDigit rest)
    (ends' : Text.Stops Char.isDigit others)
    (same : (decimal number).toList ++ rest = (decimal other).toList ++ others) :
    number = other ∧ rest = others := by
  obtain ⟨equal, same⟩ := Text.append_inj_of_stops (fun _ => isDigit_of_mem_decimal)
    (fun _ => isDigit_of_mem_decimal) ends ends' same
  rw [decimal, decimal, String.toList_ofList, String.toList_ofList] at equal
  exact ⟨map_upperDigit_inj (by decide) (by decide) equal, same⟩

theorem decimal_eq_toString (number : Nat) : decimal number = toString number := by
  have digit : ∀ place : Fin 10, upperDigit place = Nat.digitChar place := by decide
  rw [decimal, Nat.toString_eq_ofList_toDigits]
  congr 1
  induction number using Nat.strongRecOn with
  | _ number ih =>
    by_cases small : number < 10
    · rw [digits_of_lt small, Nat.toDigits_of_lt_base small, List.map_singleton]
      exact congrArg (fun char => [char]) (digit ⟨number, small⟩)
    · have last := Nat.mod_lt number (show 10 > 0 by decide)
      rw [digits_of_le (by decide) (Nat.le_of_not_lt small), List.map_append,
        ih (number / 10) (by omega), Nat.toDigits_eq_if (b := 10) (n := number) (by decide),
        if_neg small, List.map_singleton]
      exact congrArg (fun char => _ ++ [char]) (digit ⟨number % 10, last⟩)

theorem base36_append_inj (ends : Text.Stops isUpper rest) (ends' : Text.Stops isUpper others)
    (same : (base36 number).toList ++ rest = (base36 other).toList ++ others) :
    number = other ∧ rest = others := by
  obtain ⟨equal, same⟩ := Text.append_inj_of_stops (fun _ => isUpper_of_mem_base36)
    (fun _ => isUpper_of_mem_base36) ends ends' same
  rw [base36, base36, String.toList_ofList, String.toList_ofList] at equal
  exact ⟨map_upperDigit_inj (by decide) (by decide) equal, same⟩

theorem upperDigit_eq_zero_iff {place : Nat} (small : place < 36) :
    upperDigit place = '0' ↔ place = 0 := by
  have table : ∀ place : Fin 36, upperDigit place = '0' ↔ place.val = 0 := by decide
  exact table ⟨place, small⟩

/-- A decimal number begins with a digit, which is a zero only if the number is. -/
theorem decimal_eq_cons (number : Nat) :
    ∃ char rest, (decimal number).toList = char :: rest ∧ char.isDigit = true ∧
      (char = '0' ↔ number = 0) := by
  obtain ⟨place, others, shape⟩ := List.exists_cons_of_ne_nil (digits_ne_nil 10 number)
  have member : place ∈ digits 10 number := by simp [shape]
  have small := lt_of_mem_digits (by decide) member
  refine ⟨upperDigit place, others.map upperDigit, by simp [decimal, shape],
    isDigit_upperDigit small, (upperDigit_eq_zero_iff (by omega)).trans ?_⟩
  constructor
  · intro same
    subst same
    apply Classical.byContradiction
    intro positive
    have first : (digits 10 number).head? = some 0 := by
      rw [shape]
      rfl
    exact head_digits_ne_zero (by decide) positive first
  · intro same
    subst same
    rw [digits_of_lt (by decide)] at shape
    exact (List.cons.inj shape).1.symm

theorem stops_decimal (number : Nat) (rest : List Char) :
    Text.Stops (fun char => !char.isDigit) ((decimal number).toList ++ rest) := by
  obtain ⟨char, tail, shape, digit, _⟩ := decimal_eq_cons number
  rw [shape]
  exact Text.stops_cons (by simp [digit])

end Numeral
end SpirSymbol
