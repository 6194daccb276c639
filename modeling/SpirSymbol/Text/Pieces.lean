namespace SpirSymbol.Text

/-- Cuts a text at every separator; a text without one is a single piece. -/
def pieces (separator : Char) : List Char → List (List Char)
  | [] => [[]]
  | char :: rest =>
    if char = separator then [] :: pieces separator rest
    else match pieces separator rest with
      | [] => [[char]]
      | piece :: others => (char :: piece) :: others

theorem pieces_ne_nil (separator : Char) (text : List Char) : pieces separator text ≠ [] := by
  cases text with
  | nil => simp [pieces]
  | cons char rest =>
    rw [pieces]
    split
    · simp
    · split <;> simp

theorem pieces_of_not_mem {separator : Char} {text : List Char} (absent : separator ∉ text) :
    pieces separator text = [text] := by
  induction text with
  | nil => rfl
  | cons char rest ih =>
    have different : char ≠ separator := fun same => absent (by simp [same])
    have missing : separator ∉ rest := fun member => absent (by simp [member])
    simp [pieces, different, ih missing]

/-- The pieces of a joined text are those of its two halves. -/
theorem pieces_append (separator : Char) (left right : List Char) :
    pieces separator (left ++ separator :: right) =
      pieces separator left ++ pieces separator right := by
  induction left with
  | nil => simp [pieces]
  | cons char rest ih =>
    by_cases same : char = separator
    · simp [pieces, same, ih]
    · obtain ⟨piece, others, shape⟩ := List.exists_cons_of_ne_nil (pieces_ne_nil separator rest)
      simp [pieces, same, ih, shape]

end SpirSymbol.Text
