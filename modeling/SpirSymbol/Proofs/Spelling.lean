import SpirSymbol.Proofs.Numeral
import SpirSymbol.Symbol.Token

namespace SpirSymbol

section Names

variable {name name' : String} {rest others : List Char}

private theorem eq_nil_of_size {more : List Char} (size : name.utf8ByteSize = name'.utf8ByteSize)
    (longer : name'.toList = name.toList ++ more) : more = [] := by
  have whole : name' = name ++ String.ofList more := by
    apply String.toList_injective
    rw [String.toList_append, String.toList_ofList, longer]
  rw [whole, String.utf8ByteSize_append] at size
  have empty : (String.ofList more).utf8ByteSize = 0 := by omega
  rw [String.utf8ByteSize_eq_zero_iff] at empty
  simpa using congrArg String.toList empty

/-- Names of one size in bytes take up the same part of a text. -/
private theorem name_append_inj (size : name.utf8ByteSize = name'.utf8ByteSize)
    (same : name.toList ++ rest = name'.toList ++ others) : name = name' ∧ rest = others := by
  rcases List.append_eq_append_iff.mp same with ⟨more, longer, follows⟩ | ⟨more, longer, follows⟩
  · obtain rfl := eq_nil_of_size size longer
    rw [List.append_nil] at longer
    exact ⟨(String.toList_injective longer).symm, follows⟩
  · obtain rfl := eq_nil_of_size size.symm longer
    rw [List.append_nil] at longer
    exact ⟨String.toList_injective longer, follows.symm⟩

theorem Token.toList_counted (name : String) :
    (counted name).toList = (Numeral.decimal name.utf8ByteSize).toList ++ name.toList :=
  String.toList_append

private theorem stops_of_ne_empty (stops : Text.Stops Char.isDigit name.toList)
    (written : name ≠ "") : Text.Stops Char.isDigit (name.toList ++ rest) := by
  have inside : name.toList ≠ [] := by simpa using written
  obtain ⟨char, tail, shape⟩ := List.exists_cons_of_ne_nil inside
  simpa [Text.Stops, shape] using stops

/-- Only the empty name has a length that begins with a zero, and after every other length comes
a name that ends the digits. -/
theorem Token.counted_append_inj (stops : Text.Stops Char.isDigit name.toList)
    (stops' : Text.Stops Char.isDigit name'.toList)
    (same : (counted name).toList ++ rest = (counted name').toList ++ others) :
    name = name' ∧ rest = others := by
  rw [toList_counted, toList_counted, List.append_assoc, List.append_assoc] at same
  have empty : name.utf8ByteSize = 0 ↔ name'.utf8ByteSize = 0 := by
    obtain ⟨char, tail, shape, _, zero⟩ := Numeral.decimal_eq_cons name.utf8ByteSize
    obtain ⟨char', tail', shape', _, zero'⟩ := Numeral.decimal_eq_cons name'.utf8ByteSize
    rw [shape, shape', List.cons_append, List.cons_append] at same
    obtain ⟨rfl, _⟩ := List.cons.inj same
    exact zero.symm.trans zero'
  by_cases none : name = ""
  · subst none
    obtain rfl := String.utf8ByteSize_eq_zero_iff.mp (empty.mp rfl)
    exact ⟨rfl, List.append_cancel_left (List.append_cancel_left same)⟩
  · have written : name' ≠ "" := by
      intro same
      subst same
      exact none (String.utf8ByteSize_eq_zero_iff.mp (empty.mpr rfl))
    obtain ⟨size, follows⟩ := Numeral.decimal_append_inj (stops_of_ne_empty stops none)
      (stops_of_ne_empty stops' written) same
    exact name_append_inj size follows

end Names

namespace Primitive

variable {kind other : Primitive} {name : String}

/-- The vendor name in the code of a primitive kind, if the code has a length in front. -/
def vendorName? (kind : Primitive) : Option String :=
  if kind.code.toList.head?.any Char.isDigit then
    some (String.ofList (kind.code.toList.dropWhile Char.isDigit))
  else none

theorem code_eq_counted (vendor : kind.vendorName? = some name) :
    kind.code = Token.counted name := by
  have table : kind.vendorName?.all fun name => kind.code = Token.counted name := by
    cases kind <;> decide +kernel
  simpa [vendor] using table

theorem stops_vendorName? (vendor : kind.vendorName? = some name) :
    Text.Stops Char.isDigit name.toList := by
  unfold vendorName? at vendor
  split at vendor
  · obtain rfl := Option.some.inj vendor
    rw [String.toList_ofList]
    exact Text.stops_dropWhile Char.isDigit kind.code.toList
  · cases vendor

theorem find_code (kind : Primitive) :
    all.find? (fun other => other.code = kind.code) = some kind := by
  cases kind <;> decide +kernel

theorem code_inj (same : kind.code = other.code) : kind = other := by
  have found := find_code kind
  rw [same, find_code other] at found
  exact (Option.some.inj found).symm

end Primitive

/-- A name of a user type that is not taken for a longer length or for a primitive kind. -/
structure ClearName (name : String) : Prop where
  stops : Text.Stops Char.isDigit name.toList
  free : ∀ kind : Primitive, kind.vendorName? ≠ some name

/-- The character of a qualifier. -/
def Qualifier.mark : Qualifier → Char
  | restrict => 'r'
  | volatile => 'V'
  | const => 'K'

def Qualifier.isMark (char : Char) : Bool := char ∈ all.map mark

theorem Qualifier.mark_inj {first second : Qualifier} (same : first.mark = second.mark) :
    first = second := by
  revert same
  cases first <;> cases second <;> decide

namespace Qualifiers

variable {qualifiers others : Qualifiers}

theorem toList_code (qualifiers : Qualifiers) :
    qualifiers.code.toList = qualifiers.toList.map Qualifier.mark := by
  rw [code, String.toList_join, List.flatMap_map, List.map_eq_flatMap]
  congr 1
  funext qualifier
  cases qualifier <;> rfl

theorem isMark_of_mem_code {char : Char} (member : char ∈ qualifiers.code.toList) :
    Qualifier.isMark char = true := by
  rw [toList_code] at member
  obtain ⟨qualifier, _, rfl⟩ := List.mem_map.mp member
  cases qualifier <;> rfl

theorem toList_truncate (qualifiers : Qualifiers) :
    qualifiers.truncate.toList = qualifiers.toList := by
  unfold toList
  congr 1
  funext qualifier
  have same : qualifiers.truncate.inter qualifier.flag = qualifiers.inter qualifier.flag := by
    cases qualifier <;> exact congrArg Qualifiers.mk (UInt8.and_assoc _ _ _)
  simp only [contains, same]

theorem truncate_bits_lt (qualifiers : Qualifiers) : qualifiers.truncate.bits.toNat < 8 := by
  have bound : qualifiers.bits.toNat &&& 7 ≤ 7 := Nat.and_le_right
  simpa [truncate, inter, known] using Nat.lt_succ_of_le bound

theorem truncate_eq_ofList (qualifiers : Qualifiers) :
    qualifiers.truncate = ofList qualifiers.toList := by
  have table : ∀ bits : Fin 8,
      (⟨UInt8.ofNat bits⟩ : Qualifiers) = ofList (toList ⟨UInt8.ofNat bits⟩) := by decide
  have entry := table ⟨qualifiers.truncate.bits.toNat, qualifiers.truncate_bits_lt⟩
  rw [← toList_truncate]
  simpa using entry

/-- The code tells the known bits. -/
theorem truncate_eq_of_code (same : qualifiers.code.toList = others.code.toList) :
    qualifiers.truncate = others.truncate := by
  rw [toList_code, toList_code] at same
  have listed := (List.map_inj_right fun _ _ => Qualifier.mark_inj).mp same
  rw [truncate_eq_ofList, listed, truncate_eq_ofList]

end Qualifiers
end SpirSymbol
