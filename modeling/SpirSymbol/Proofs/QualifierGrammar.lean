import SpirSymbol.Proofs.Qualifiers

/-! The texts that stand for a set of qualifiers. A text of blanks stands for the empty set; any
other text is cut at its bars, each piece is a flag name or a hexadecimal number among blanks, and
the text stands for the union of what its pieces stand for. The order of the pieces, repetitions
and blanks around them are of no consequence, and one piece that is neither spoils the text. -/
namespace SpirSymbol

namespace Text

theorem intercalate_pieces (separator : Char) (text : List Char) :
    [separator].intercalate (pieces separator text) = text := by
  induction text with
  | nil => rfl
  | cons char rest ih =>
    obtain ⟨piece, others, shape⟩ := List.exists_cons_of_ne_nil (pieces_ne_nil separator rest)
    rw [shape] at ih
    by_cases same : char = separator
    · simp [pieces, same, shape, List.intercalate_cons_cons, ih]
    · cases others with
      | nil => simpa [pieces, same, shape] using ih
      | cons next others =>
        simpa [pieces, same, shape, List.intercalate_cons_cons] using ih

/-- A text of blanks has no bar, so it is one piece. -/
theorem Blank.pieces_eq {text : List Char} (blank : Blank text) : pieces '|' text = [text] := by
  apply pieces_of_not_mem
  intro member
  have bar := blank '|' member
  cases bar

theorem Solid.not_mem_padded {core text : List Char} (solid : Solid core)
    (padded : Padded core text) : '|' ∉ text := by
  obtain ⟨lead, tail, front, back, rfl⟩ := padded
  intro member
  rcases List.mem_append.mp member with early | late
  · rcases List.mem_append.mp early with first | inner
    · cases front _ first
    · exact (solid.bare _ inner).1 rfl
  · cases back _ late

end Text

namespace Numeral

variable {digit : Char} {place number : Nat} {text : List Char}

/-- The character is a hexadecimal digit, of either case, of that value. -/
def IsHexDigit (digit : Char) (place : Nat) : Prop :=
  place < 16 ∧ (digit = lowerDigit place ∨ digit = upperDigit place)

theorem isHexDigit_iff : IsHexDigit digit place ↔ placeOf? digit = some place ∧ place < 16 := by
  constructor
  · rintro ⟨small, rfl | rfl⟩
    · exact ⟨placeOf?_lowerDigit small, small⟩
    · exact ⟨placeOf?_upperDigit ⟨place, by omega⟩, small⟩
  · rintro ⟨read, small⟩
    refine ⟨small, ?_⟩
    have same {base : Nat} (le : base ≤ digit.toNat) (place_eq : digit.toNat - base = place) :
        digit = Char.ofNat (base + place) := by
      rw [← place_eq, Nat.add_sub_cancel' le, Char.ofNat_toNat]
    unfold placeOf? at read
    split at read
    · rename_i inside
      have low : 48 ≤ digit.toNat := inside.1
      have high : digit.toNat ≤ 57 := inside.2
      have place_eq := Option.some.inj read
      rw [lowerDigit, if_pos (by omega)]
      exact .inl (same low place_eq)
    · split at read
      · rename_i inside
        have low : 65 ≤ digit.toNat := inside.1
        have place_eq := Option.some.inj read
        rw [upperDigit, if_neg (by omega)]
        exact .inr (same (by omega) place_eq)
      · split at read
        · rename_i inside
          have low : 97 ≤ digit.toNat := inside.1
          have place_eq := Option.some.inj read
          rw [lowerDigit, if_neg (by omega)]
          exact .inl (same (by omega) place_eq)
        · cases read

theorem forall₂_isHexDigit_iff {places : List Nat} : List.Forall₂ IsHexDigit text places ↔
    List.Forall₂ (fun digit place => placeOf? digit = some place) text places ∧
      ∀ place ∈ places, place < 16 := by
  induction text generalizing places with
  | nil => cases places <;> simp
  | cons digit rest ih =>
    cases places with
    | nil => simp
    | cons place places =>
      simp only [List.forall₂_cons, isHexDigit_iff, ih, List.forall_mem_cons]
      exact and_and_and_comm

/-- Reading accepts one digit or more and gives the number that they are the places of. -/
theorem readHex?_eq_some_iff : readHex? text = some number ↔
    text ≠ [] ∧ ∃ places, List.Forall₂ IsHexDigit text places ∧ value 16 places = number := by
  cases text with
  | nil => simp [readHex?]
  | cons digit rest =>
    simp only [readHex?, forall₂_isHexDigit_iff, ← mapM_eq_some_iff, List.isEmpty_cons]
    simp [Option.bind_eq_some_iff, and_assoc]

theorem readHex?_plus (text : List Char) : readHex? ('+' :: text) = none := by
  rw [Option.eq_none_iff_forall_ne_some]
  intro number read
  obtain ⟨_, places, each, _⟩ := readHex?_eq_some_iff.mp read
  obtain ⟨place, _, digit, _⟩ := List.forall₂_cons_left_iff.mp each
  cases (isHexDigit_iff.mp digit).1

theorem IsHexDigit.bare (hex : IsHexDigit digit place) :
    digit ≠ '|' ∧ Text.isBlank digit = false := by
  have table : ∀ place : Fin 16, (lowerDigit place ≠ '|' ∧ Text.isBlank (lowerDigit place) = false) ∧
      upperDigit place ≠ '|' ∧ Text.isBlank (upperDigit place) = false := by decide
  obtain ⟨small, rfl | rfl⟩ := hex
  · exact (table ⟨place, small⟩).1
  · exact (table ⟨place, small⟩).2

end Numeral

namespace Qualifiers

variable {qualifiers others : Qualifiers} {core : List Char} {text other : String}

/-- What a piece of a text stands for: the flag of its name, or the bits of a hexadecimal number
below 256, which has at most one plus sign and any number of leading zeros. -/
inductive Piece : List Char → Qualifiers → Prop where
  | flag (member : Qualifier) : Piece member.flagName.toList member.flag
  | bits {sign digits : List Char} {places : List Nat} (signed : sign = [] ∨ sign = ['+'])
      (nonempty : digits ≠ []) (hex : List.Forall₂ Numeral.IsHexDigit digits places)
      (small : Numeral.value 16 places ≤ 255) :
      Piece ('0' :: 'x' :: (sign ++ digits)) ⟨UInt8.ofNat (Numeral.value 16 places)⟩

/-- What a text that is not blank stands for: a piece among blanks, or two such texts with a bar
between them. -/
inductive StandsFor : List Char → Qualifiers → Prop where
  | piece {core text : List Char} {qualifiers : Qualifiers} (padded : Text.Padded core text)
      (piece : Piece core qualifiers) : StandsFor text qualifiers
  | join {left right : List Char} {qualifiers others : Qualifiers}
      (first : StandsFor left qualifiers) (second : StandsFor right others) :
      StandsFor (left ++ '|' :: right) (qualifiers.union others)

/-- The pieces of a text between its bars, without the blanks around them. -/
def trimmedPieces (text : String) : List (List Char) := (Text.pieces '|' text.toList).map Text.trim

section Piece

/-- A hexadecimal number is read after one plus sign or after none. -/
theorem readBits?_eq_some_iff {text : List Char} : readBits? text = some qualifiers ↔
    ∃ sign digits number, text = sign ++ digits ∧ (sign = [] ∨ sign = ['+']) ∧
      Numeral.readHex? digits = some number ∧ number ≤ 255 ∧
        ⟨UInt8.ofNat number⟩ = qualifiers := by
  have value (digits : List Char) : (Numeral.readHex? digits >>= fun number =>
      if number < 256 then some (⟨UInt8.ofNat number⟩ : Qualifiers) else none) =
        some qualifiers ↔ ∃ number, Numeral.readHex? digits = some number ∧ number ≤ 255 ∧
          ⟨UInt8.ofNat number⟩ = qualifiers := by
    simp [Option.bind_eq_some_iff, Nat.lt_succ_iff]
  constructor
  · intro read
    simp only [readBits?] at read
    split at read
    · rename_i digits
      obtain ⟨number, found⟩ := (value digits).mp read
      exact ⟨['+'], digits, number, rfl, .inr rfl, found⟩
    · obtain ⟨number, found⟩ := (value text).mp read
      exact ⟨[], text, number, rfl, .inl rfl, found⟩
  · rintro ⟨sign, digits, number, rfl, rfl | rfl, hex, found⟩
    · simp only [readBits?, List.nil_append]
      split
      · rw [Numeral.readHex?_plus] at hex
        cases hex
      · exact (value digits).mpr ⟨number, hex, found⟩
    · exact (value digits).mpr ⟨number, hex, found⟩

theorem readPiece?_eq_some_iff : readPiece? core = some qualifiers ↔ Piece core qualifiers := by
  constructor
  · intro read
    unfold readPiece? at read
    split at read
    · obtain ⟨sign, digits, number, rfl, signed, hex, small, rfl⟩ := readBits?_eq_some_iff.mp read
      obtain ⟨nonempty, places, each, rfl⟩ := Numeral.readHex?_eq_some_iff.mp hex
      exact .bits signed nonempty each small
    · obtain ⟨member, found, rfl⟩ := Option.map_eq_some_iff.mp read
      have name := List.find?_some found
      rw [← of_decide_eq_true name]
      exact .flag member
  · intro piece
    cases piece with
    | flag member => exact readPiece?_flagName member
    | bits signed nonempty hex small =>
      exact readBits?_eq_some_iff.mpr ⟨_, _, _, rfl, signed,
        Numeral.readHex?_eq_some_iff.mpr ⟨nonempty, _, hex, rfl⟩, small, rfl⟩

theorem Piece.solid (piece : Piece core qualifiers) : Text.Solid core := by
  cases piece with
  | flag member =>
    cases member <;> exact ⟨by decide +kernel, Text.bare_of_all (by decide +kernel)⟩
  | @bits sign digits places signed nonempty hex small =>
    have lead : ∀ char ∈ '0' :: 'x' :: sign, char ≠ '|' ∧ Text.isBlank char = false := by
      rcases signed with rfl | rfl <;> exact Text.bare_of_all (by decide +kernel)
    refine ⟨by simp, fun char member => ?_⟩
    rw [← List.cons_append, ← List.cons_append] at member
    rcases List.mem_append.mp member with front | digit
    · exact lead char front
    · obtain ⟨place, _, is⟩ := exists_of_forall₂_left hex digit
      exact is.bare

theorem mapM_readPiece?_eq_some_iff {cores : List (List Char)} {sets : List Qualifiers} :
    cores.mapM readPiece? = some sets ↔ List.Forall₂ Piece cores sets := by
  simp only [mapM_eq_some_iff, readPiece?_eq_some_iff]

theorem Piece.unique (piece : Piece core qualifiers) (piece' : Piece core others) :
    qualifiers = others := by
  have read := readPiece?_eq_some_iff.mpr piece
  rw [readPiece?_eq_some_iff.mpr piece'] at read
  exact (Option.some.inj read).symm

theorem mem_of_pieces {cores cores' : List (List Char)} {sets sets' : List Qualifiers}
    (each : List.Forall₂ Piece cores sets) (each' : List.Forall₂ Piece cores' sets')
    (inside : cores ⊆ cores') : sets ⊆ sets' := by
  intro set member
  obtain ⟨core, listed, piece⟩ := exists_of_forall₂_right each member
  obtain ⟨set', member', piece'⟩ := exists_of_forall₂_left each' (inside listed)
  exact piece.unique piece' ▸ member'

end Piece
section Union

theorem union_empty_left (qualifiers : Qualifiers) : union ∅ qualifiers = qualifiers :=
  congrArg mk UInt8.zero_or

theorem union_assoc (first second third : Qualifiers) :
    (first.union second).union third = first.union (second.union third) :=
  congrArg mk (UInt8.or_assoc ..)

theorem union_comm (left right : Qualifiers) : left.union right = right.union left :=
  congrArg mk (UInt8.or_comm ..)

theorem union_self (qualifiers : Qualifiers) : qualifiers.union qualifiers = qualifiers :=
  congrArg mk UInt8.or_self

theorem foldl_union (start : Qualifiers) (sets : List Qualifiers) :
    sets.foldl union start = start.union (sets.foldl union ∅) := by
  induction sets generalizing start with
  | nil => rw [List.foldl_nil, List.foldl_nil, union_comm, union_empty_left]
  | cons set rest ih =>
    rw [List.foldl_cons, List.foldl_cons, ih, ih (union ∅ set), union_empty_left, union_assoc]

theorem union_foldl_of_mem {sets : List Qualifiers} (member : qualifiers ∈ sets) :
    qualifiers.union (sets.foldl union ∅) = sets.foldl union ∅ := by
  induction sets with
  | nil => cases member
  | cons set rest ih =>
    rw [List.foldl_cons, foldl_union, union_empty_left]
    rcases List.mem_cons.mp member with rfl | later
    · rw [← union_assoc, union_self]
    · rw [← union_assoc, union_comm qualifiers, union_assoc, ih later]

theorem foldl_union_of_forall {sets : List Qualifiers}
    (each : ∀ set ∈ sets, set.union qualifiers = qualifiers) :
    (sets.foldl union ∅).union qualifiers = qualifiers := by
  induction sets with
  | nil => exact union_empty_left qualifiers
  | cons set rest ih =>
    have later := ih fun other member => each other (List.mem_cons_of_mem _ member)
    rw [List.foldl_cons, foldl_union, union_empty_left, union_assoc, later]
    exact each set List.mem_cons_self

/-- The union of some sets does not depend on their order or on repetitions. -/
theorem foldl_union_congr {sets sets' : List Qualifiers} (same : ∀ set, set ∈ sets ↔ set ∈ sets') :
    sets.foldl union ∅ = sets'.foldl union ∅ := by
  have below : (sets.foldl union ∅).union (sets'.foldl union ∅) = sets'.foldl union ∅ :=
    foldl_union_of_forall fun set member => union_foldl_of_mem ((same set).mp member)
  have above : (sets'.foldl union ∅).union (sets.foldl union ∅) = sets.foldl union ∅ :=
    foldl_union_of_forall fun set member => union_foldl_of_mem ((same set).mpr member)
  rw [← above, union_comm, below]

end Union
section Text

theorem ofText?_of_blank (blank : Text.Blank text.toList) : ofText? text = some ∅ := by
  rw [ofText?, if_pos (Text.blank_iff.mp blank)]

theorem ofText?_eq_some_iff_pieces (written : ¬ Text.Blank text.toList) :
    ofText? text = some qualifiers ↔ ∃ sets, sets.foldl union ∅ = qualifiers ∧
      List.Forall₂ Piece (trimmedPieces text) sets := by
  have read (sets : List Qualifiers) : List.Forall₂ Piece (trimmedPieces text) sets ↔
      (Text.pieces '|' text.toList).mapM (fun piece => readPiece? (Text.trim piece)) = some sets := by
    rw [← mapM_readPiece?_eq_some_iff, trimmedPieces, List.mapM_map]
    rfl
  rw [ofText?, if_neg fun all => written (Text.blank_iff.mpr all)]
  simp [read, Option.bind_eq_some_iff, and_comm]

theorem StandsFor.exists_sets {text : List Char} (stands : StandsFor text qualifiers) :
    ∃ sets, sets.foldl union ∅ = qualifiers ∧
      List.Forall₂ Piece ((Text.pieces '|' text).map Text.trim) sets := by
  induction stands with
  | piece padded piece =>
    have solid := piece.solid
    rw [Text.pieces_of_not_mem (solid.not_mem_padded padded), List.map_singleton,
      Text.trim_of_padded solid.trimmed padded]
    exact ⟨[_], union_empty_left _, .cons piece .nil⟩
  | join _ _ first second =>
    obtain ⟨sets, rfl, each⟩ := first
    obtain ⟨sets', rfl, each'⟩ := second
    refine ⟨sets ++ sets', ?_, ?_⟩
    · rw [List.foldl_append, foldl_union]
    · rw [Text.pieces_append, List.map_append]
      exact List.rel_append each each'

theorem standsFor_of_forall₂ {parts : List (List Char)} {sets : List Qualifiers}
    (nonempty : parts ≠ [])
    (each : List.Forall₂ Piece (parts.map Text.trim) sets) :
    StandsFor (['|'].intercalate parts) (sets.foldl union ∅) := by
  induction parts generalizing sets with
  | nil => exact absurd rfl nonempty
  | cons part rest ih =>
    obtain ⟨set, others, head, tail, rfl⟩ := List.forall₂_cons_left_iff.mp each
    have here : StandsFor part set := .piece (Text.padded_trim part) head
    rw [List.foldl_cons, foldl_union, union_empty_left]
    cases rest with
    | nil =>
      cases tail
      rw [List.intercalate_singleton, List.foldl_nil, union_comm, union_empty_left]
      exact here
    | cons next rest =>
      rw [List.intercalate_cons_cons, List.append_assoc]
      exact here.join (ih (by simp) tail)

theorem StandsFor.not_blank {text : List Char} (stands : StandsFor text qualifiers) :
    ¬ Text.Blank text := by
  intro blank
  obtain ⟨sets, _, each⟩ := stands.exists_sets
  rw [blank.pieces_eq, List.map_singleton, Text.trim_eq_nil_iff.mpr blank] at each
  obtain ⟨_, _, head, _⟩ := List.forall₂_cons_left_iff.mp each
  exact head.solid.nonempty rfl

/-- The texts that are read are the blank ones and those that stand for a set. -/
theorem ofText?_eq_some_iff : ofText? text = some qualifiers ↔
    Text.Blank text.toList ∧ qualifiers = ∅ ∨ StandsFor text.toList qualifiers := by
  by_cases blank : Text.Blank text.toList
  · have silent : ¬ StandsFor text.toList qualifiers := fun stands => stands.not_blank blank
    simp [ofText?_of_blank blank, blank, silent, eq_comm]
  · rw [ofText?_eq_some_iff_pieces blank]
    simp only [blank, false_and, false_or]
    constructor
    · rintro ⟨sets, rfl, each⟩
      have stands := standsFor_of_forall₂ (Text.pieces_ne_nil '|' text.toList) each
      rwa [Text.intercalate_pieces] at stands
    · exact StandsFor.exists_sets

theorem blank_iff_trimmedPieces : Text.Blank text.toList ↔ trimmedPieces text = [[]] := by
  constructor
  · intro blank
    rw [trimmedPieces, blank.pieces_eq, List.map_singleton, Text.trim_eq_nil_iff.mpr blank]
  · intro single
    obtain ⟨piece, alone, empty⟩ := List.map_eq_singleton_iff.mp single
    have whole := Text.intercalate_pieces '|' text.toList
    rw [alone, List.intercalate_singleton] at whole
    exact Text.trim_eq_nil_iff.mp (whole ▸ empty)

/-- What a text is read as is told by its trimmed pieces, whatever their order and number. -/
theorem ofText?_of_subset (written : ¬ Text.Blank text.toList)
    (written' : ¬ Text.Blank other.toList) (inside : trimmedPieces text ⊆ trimmedPieces other)
    (inside' : trimmedPieces other ⊆ trimmedPieces text)
    (read : ofText? text = some qualifiers) : ofText? other = some qualifiers := by
  obtain ⟨sets, rfl, each⟩ := (ofText?_eq_some_iff_pieces written).mp read
  obtain ⟨sets', each'⟩ : ∃ sets', List.Forall₂ Piece (trimmedPieces other) sets' := by
    refine exists_forall₂ fun core member => ?_
    obtain ⟨set, _, piece⟩ := exists_of_forall₂_left each (inside' member)
    exact ⟨set, piece⟩
  refine (ofText?_eq_some_iff_pieces written').mpr ⟨sets', foldl_union_congr fun set => ?_, each'⟩
  exact ⟨fun member => mem_of_pieces each' each inside' member,
    fun member => mem_of_pieces each each' inside member⟩

/-- A text with as many pieces as one that is not blank, and no others than its own, is not blank.
-/
theorem not_blank_of_length_le (written : ¬ Text.Blank text.toList)
    (inside : trimmedPieces text ⊆ trimmedPieces other)
    (long : (trimmedPieces text).length ≤ (trimmedPieces other).length) :
    ¬ Text.Blank other.toList := by
  intro blank
  have single := blank_iff_trimmedPieces.mp blank
  rw [single] at inside long
  apply written
  rw [blank_iff_trimmedPieces]
  obtain ⟨piece, others, shape⟩ := List.exists_cons_of_ne_nil (Text.pieces_ne_nil '|' text.toList)
  rw [trimmedPieces, shape, List.map_cons] at inside long ⊢
  obtain rfl : others = [] := by simpa using long
  simpa using inside

end Text

/-- A text is read exactly where it is blank or stands for a set, and then as that set. If it is not
blank, the order of its pieces, repetitions and blanks around them do not matter; a piece that is
blank or stands for nothing spoils it; and joined to another text that is not blank it is read as
the union. -/
theorem ofText?_grammar (text : String) :
    (∀ qualifiers, ofText? text = some qualifiers ↔
        Text.Blank text.toList ∧ qualifiers = ∅ ∨ StandsFor text.toList qualifiers) ∧
      (¬ Text.Blank text.toList →
        (∀ other : String, (∀ core, core ∈ trimmedPieces other ↔ core ∈ trimmedPieces text) →
          (trimmedPieces text).length ≤ (trimmedPieces other).length →
          ofText? other = ofText? text) ∧
        (∀ core ∈ trimmedPieces text, (core = [] ∨ ∀ qualifiers, ¬ Piece core qualifiers) →
          ofText? text = none) ∧
        ∀ (other : String) (qualifiers others : Qualifiers), ¬ Text.Blank other.toList →
          ofText? text = some qualifiers → ofText? other = some others →
          ofText? (text ++ "|" ++ other) = some (qualifiers.union others)) := by
  refine ⟨fun _ => ofText?_eq_some_iff, fun written => ⟨?_, ?_, ?_⟩⟩
  · intro other same long
    have inside : trimmedPieces text ⊆ trimmedPieces other := fun core => (same core).mpr
    have inside' : trimmedPieces other ⊆ trimmedPieces text := fun core => (same core).mp
    have written' := not_blank_of_length_le written inside long
    ext qualifiers
    exact ⟨ofText?_of_subset written' written inside' inside,
      ofText?_of_subset written written' inside inside'⟩
  · intro core member spoilt
    rw [Option.eq_none_iff_forall_ne_some]
    intro qualifiers read
    obtain ⟨sets, _, each⟩ := (ofText?_eq_some_iff_pieces written).mp read
    obtain ⟨set, _, piece⟩ := exists_of_forall₂_left each member
    rcases spoilt with empty | foreign
    · exact piece.solid.nonempty empty
    · exact foreign set piece
  · intro other qualifiers others written' read read'
    have first := (ofText?_eq_some_iff.mp read).resolve_left fun blank => written blank.1
    have second := (ofText?_eq_some_iff.mp read').resolve_left fun blank => written' blank.1
    refine ofText?_eq_some_iff.mpr (.inr ?_)
    simpa using first.join second

/-- A name and a number with a sign, leading zeros and an unknown bit; the same pieces in another
order, one of them twice; a number that is too large, a bar with nothing after it, and the pieces
joined to the two other names. -/
theorem ofText?_grammar_unknown_bit :
    ¬ Text.Blank "CONST|0x+0082".toList ∧ ofText? "CONST|0x+0082" = some ⟨0x86⟩ ∧
      StandsFor "CONST|0x+0082".toList ⟨0x86⟩ ∧
      ofText? " 0x+0082 |CONST|\u3000CONST" = some ⟨0x86⟩ ∧
      ofText? "CONST|0x100" = none ∧ ofText? "CONST|" = none ∧
      ofText? "RESTRICT|VOLATILE" = some ⟨3⟩ ∧
      ofText? "CONST|0x+0082|RESTRICT|VOLATILE" = some ⟨0x87⟩ := by
  have written : ¬ Text.Blank "CONST|0x+0082".toList := by
    rw [Text.blank_iff]
    decide +kernel
  have read : ofText? "CONST|0x+0082" = some ⟨0x86⟩ := by decide +kernel
  obtain ⟨accepts, laws⟩ := ofText?_grammar "CONST|0x+0082"
  obtain ⟨shuffled, _, joined⟩ := laws written
  have stands := ((accepts ⟨0x86⟩).mp read).resolve_left fun blank => written blank.1
  have pieces : trimmedPieces "CONST|0x+0082" = ["CONST".toList, "0x+0082".toList] := by
    decide +kernel
  have pieces' : trimmedPieces " 0x+0082 |CONST|\u3000CONST" =
      ["0x+0082".toList, "CONST".toList, "CONST".toList] := by decide +kernel
  have same : ofText? " 0x+0082 |CONST|\u3000CONST" = ofText? "CONST|0x+0082" := by
    apply shuffled
    · intro core
      rw [pieces, pieces']
      simp [or_comm]
    · rw [pieces, pieces']
      decide
  have large : ofText? "CONST|0x100" = none := by
    refine ((ofText?_grammar "CONST|0x100").2 ?_).2.1 "0x100".toList (by decide +kernel) (.inr ?_)
    · rw [Text.blank_iff]
      decide +kernel
    · intro qualifiers piece
      have none : readPiece? "0x100".toList = none := by decide +kernel
      rw [readPiece?_eq_some_iff.mpr piece] at none
      cases none
  have unfinished : ofText? "CONST|" = none := by
    refine ((ofText?_grammar "CONST|").2 ?_).2.1 [] (by decide +kernel) (.inl rfl)
    rw [Text.blank_iff]
    decide +kernel
  have names : ofText? "RESTRICT|VOLATILE" = some ⟨3⟩ := by decide +kernel
  have union : ofText? "CONST|0x+0082|RESTRICT|VOLATILE" = some ⟨0x87⟩ := by
    refine joined "RESTRICT|VOLATILE" ⟨0x86⟩ ⟨3⟩ ?_ read names
    rw [Text.blank_iff]
    decide +kernel
  exact ⟨written, read, stands, same.trans read, large, unfinished, names, union⟩

end Qualifiers
end SpirSymbol
