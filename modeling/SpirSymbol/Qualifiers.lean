import SpirSymbol.Named

namespace SpirSymbol

inductive Qualifier where
  | restrict
  | volatile
  | const
deriving DecidableEq

/-- A set of pointer qualifiers, one bit each. Bits without a meaning are kept as they are and are
never written in a symbol or a diagnostic. -/
structure Qualifiers where
  bits : UInt8
deriving DecidableEq

namespace Qualifier

/-- Every qualifier, in the order in which symbols and diagnostics write them. -/
def all : List Qualifier := [restrict, volatile, const]

instance : Named Qualifier where
  all := all
  name
    | restrict => "Restrict"
    | volatile => "Volatile"
    | const => "Const"
  find_name item := by cases item <;> decide +kernel

def code : Qualifier → String
  | restrict => "r"
  | volatile => "V"
  | const => "K"

def readable : Qualifier → String
  | restrict => "restrict"
  | volatile => "volatile"
  | const => "const"

/-- The set that holds this qualifier alone. -/
def flag : Qualifier → Qualifiers
  | restrict => ⟨1⟩
  | volatile => ⟨2⟩
  | const => ⟨4⟩

end Qualifier

namespace Qualifiers

instance : EmptyCollection Qualifiers := ⟨⟨0⟩⟩

instance : Inhabited Qualifiers := ⟨∅⟩

/-- The set of all bits that have a meaning. -/
def known : Qualifiers := ⟨7⟩

def union (left right : Qualifiers) : Qualifiers := ⟨left.bits ||| right.bits⟩

def inter (left right : Qualifiers) : Qualifiers := ⟨left.bits &&& right.bits⟩

def diff (left right : Qualifiers) : Qualifiers := ⟨left.bits &&& ~~~right.bits⟩

/-- Bits in exactly one of the two sets. -/
def toggle (left right : Qualifiers) : Qualifiers := ⟨left.bits ^^^ right.bits⟩

/-- Adds or takes away the bits of the second set. -/
def set (qualifiers other : Qualifiers) (present : Bool) : Qualifiers :=
  if present then qualifiers.union other else qualifiers.diff other

/-- The set without its unknown bits. -/
def truncate (qualifiers : Qualifiers) : Qualifiers := qualifiers.inter known

/-- The known bits that are missing. -/
def complement (qualifiers : Qualifiers) : Qualifiers := known.diff qualifiers

/-- The set without its known bits. -/
def unknown (qualifiers : Qualifiers) : Qualifiers := qualifiers.diff known

def contains (qualifiers other : Qualifiers) : Bool := qualifiers.inter other = other

def intersects (qualifiers other : Qualifiers) : Bool := qualifiers.inter other ≠ ∅

def isEmpty (qualifiers : Qualifiers) : Bool := qualifiers = ∅

/-- All known bits are there; unknown ones do not matter. -/
def isAll (qualifiers : Qualifiers) : Bool := qualifiers.contains known

def ofList (members : List Qualifier) : Qualifiers :=
  members.foldl (fun qualifiers member => qualifiers.union member.flag) ∅

/-- The qualifiers of the set, in writing order. -/
def toList (qualifiers : Qualifiers) : List Qualifier :=
  Qualifier.all.filter fun member => qualifiers.contains member.flag

/-- The codes written in symbols, joined. -/
def code (qualifiers : Qualifiers) : String := String.join (qualifiers.toList.map Qualifier.code)

/-- The words written in diagnostics. -/
def readable (qualifiers : Qualifiers) : List String := qualifiers.toList.map Qualifier.readable

end Qualifiers
end SpirSymbol
