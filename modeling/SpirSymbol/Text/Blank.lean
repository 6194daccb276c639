namespace SpirSymbol.Text

/-- The characters of the Unicode property `White_Space`, as inclusive ranges of code points. -/
def blankRanges : List (Nat × Nat) :=
  [(0x9, 0xD), (0x20, 0x20), (0x85, 0x85), (0xA0, 0xA0), (0x1680, 0x1680), (0x2000, 0x200A),
   (0x2028, 0x2029), (0x202F, 0x202F), (0x205F, 0x205F), (0x3000, 0x3000)]

def isBlank (char : Char) : Bool :=
  blankRanges.any fun range => range.1 ≤ char.toNat && char.toNat ≤ range.2

/-- Drops the blank characters at the front. -/
def trimStart (text : List Char) : List Char := text.dropWhile isBlank

/-- Drops the blank characters at both ends. -/
def trim (text : List Char) : List Char := (trimStart (trimStart text).reverse).reverse

theorem isBlank_of_isWhitespace {char : Char} (white : char.isWhitespace = true) :
    isBlank char = true := by
  simp only [Char.isWhitespace, Bool.or_eq_true, decide_eq_true_eq] at white
  rcases white with ((rfl | rfl) | rfl) | rfl <;> decide

theorem trimStart_append {blank : List Char} (blanks : ∀ char ∈ blank, isBlank char = true)
    (text : List Char) : trimStart (blank ++ text) = trimStart text := by
  induction blank with
  | nil => rfl
  | cons char rest ih =>
    have first := blanks char (by simp)
    have others := ih fun other member => blanks other (by simp [member])
    simpa [trimStart, first] using others

end SpirSymbol.Text
