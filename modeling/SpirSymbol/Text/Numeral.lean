/-! Positional numerals. Lengths are written in decimal, unknown qualifier bits in hexadecimal
and sequence numbers in base 36; all three come from one list of digit values. -/
namespace SpirSymbol.Numeral

/-- The digit values of a number, most significant first, without leading zeros. -/
def digits (base number : Nat) : List Nat :=
  if base < 2 ∨ number < base then [number]
  else digits base (number / base) ++ [number % base]
termination_by number
decreasing_by
  have smaller := Nat.div_lt_self (n := number) (k := base) (by omega) (by omega)
  exact smaller

/-- The number that a list of digit values stands for, most significant first. -/
def value (base : Nat) (places : List Nat) : Nat :=
  places.foldl (fun total place => total * base + place) 0

/-- Digits above nine continue with the capital letters. -/
def upperDigit (place : Nat) : Char :=
  if place < 10 then Char.ofNat (48 + place) else Char.ofNat (55 + place)

/-- Digits above nine continue with the small letters. -/
def lowerDigit (place : Nat) : Char :=
  if place < 10 then Char.ofNat (48 + place) else Char.ofNat (87 + place)

/-- The digit value of a character, letters of either case counting from ten. -/
def placeOf? (digit : Char) : Option Nat :=
  if '0' ≤ digit ∧ digit ≤ '9' then some (digit.toNat - 48)
  else if 'A' ≤ digit ∧ digit ≤ 'Z' then some (digit.toNat - 55)
  else if 'a' ≤ digit ∧ digit ≤ 'z' then some (digit.toNat - 87)
  else none

def decimal (number : Nat) : String := String.ofList ((digits 10 number).map upperDigit)

def base36 (number : Nat) : String := String.ofList ((digits 36 number).map upperDigit)

def lowerHex (number : Nat) : String := String.ofList ((digits 16 number).map lowerDigit)

/-- Reads one or more hexadecimal digits of either case; leading zeros are allowed. -/
def readHex? (text : List Char) : Option Nat :=
  if text.isEmpty then none else do
    let places ← text.mapM placeOf?
    if places.all (· < 16) then some (value 16 places) else none

theorem digits_of_lt {base number : Nat} (small : number < base) :
    digits base number = [number] := by
  rw [digits, if_pos (.inr small)]

theorem digits_of_le {base number : Nat} (two : 2 ≤ base) (large : base ≤ number) :
    digits base number = digits base (number / base) ++ [number % base] := by
  rw [digits, if_neg (by omega)]

end SpirSymbol.Numeral
