import Std.Data.TreeMap
import SpirSymbol.Fault
import SpirSymbol.TypeId

/-! Substitutions: the numbers of the pointers and user types that a symbol has written so far.
Numbers are handed out from zero without gaps and belong to handles, not to shapes. -/
namespace SpirSymbol

structure Substitutions where
  numbers : Std.TreeMap TypeId Nat

namespace Substitutions

instance : EmptyCollection Substitutions := ⟨⟨∅⟩⟩

def size (table : Substitutions) : Nat := table.numbers.size

/-- The number of a handle that was written before. -/
def find? (table : Substitutions) (id : TypeId) : Option Nat := table.numbers[id]?

/-- The table in which the handle has the next number. -/
def insert (table : Substitutions) (id : TypeId) : Substitutions :=
  ⟨table.numbers.insert id table.size⟩

/-- Gives the next number to a handle, which must have none. -/
def register (table : Substitutions) (id : TypeId) : Except Fault Substitutions :=
  if (table.find? id).isSome then .error .numberedTwice else .ok (table.insert id)

theorem find?_empty (id : TypeId) : (∅ : Substitutions).find? id = none := rfl

theorem size_empty : (∅ : Substitutions).size = 0 := rfl

theorem find?_insert (table : Substitutions) (id other : TypeId) :
    (table.insert id).find? other = if id = other then some table.size else table.find? other := by
  simp [find?, insert, Std.TreeMap.getElem?_insert]

section New

variable {table : Substitutions} {id : TypeId}

theorem size_insert (new : table.find? id = none) : (table.insert id).size = table.size + 1 := by
  have absent : id ∉ table.numbers := by
    simpa [find?] using new
  simp [size, insert, Std.TreeMap.size_insert, absent]

theorem register_eq_ok (new : table.find? id = none) :
    table.register id = .ok (table.insert id) := by
  simp [register, new]

end New

/-- The numbers of the table are the places in the list. -/
structure Lists (table : Substitutions) (ids : List TypeId) : Prop where
  size_eq : table.size = ids.length
  find?_iff : ∀ id number, table.find? id = some number ↔ ids[number]? = some id

namespace Lists

variable {table : Substitutions} {ids : List TypeId} {id : TypeId}

theorem empty : Lists ∅ [] := ⟨size_empty, by simp [find?_empty]⟩

theorem find?_eq_none_iff (lists : table.Lists ids) : table.find? id = none ↔ id ∉ ids := by
  simp only [Option.eq_none_iff_forall_ne_some, ne_eq, lists.find?_iff, List.mem_iff_getElem?,
    not_exists]

theorem nodup (lists : table.Lists ids) : ids.Nodup := by
  rw [List.nodup_iff_pairwise_ne, List.pairwise_iff_getElem]
  intro left right first second smaller same
  have earlier := (lists.find?_iff ids[left] left).mpr (List.getElem?_eq_getElem first)
  have later := (lists.find?_iff ids[left] right).mpr (same ▸ List.getElem?_eq_getElem second)
  have equal := Option.some.inj (earlier.symm.trans later)
  omega

theorem insert (lists : table.Lists ids) (new : table.find? id = none) :
    (table.insert id).Lists (ids ++ [id]) := by
  have absent := lists.find?_eq_none_iff.mp new
  refine ⟨by simp [size_insert new, lists.size_eq], ?_⟩
  intro other number
  rw [find?_insert, List.getElem?_append]
  by_cases same : id = other
  · subst other
    have elsewhere : ids[number]? ≠ some id := fun found => absent (List.mem_of_getElem? found)
    by_cases inside : number < ids.length
    · simp only [↓reduceIte, inside, elsewhere, iff_false, lists.size_eq, Option.some.injEq]
      omega
    · simp [lists.size_eq, List.getElem?_singleton, inside]
      omega
  · by_cases inside : number < ids.length
    · simp [same, inside, lists.find?_iff]
    · simp [same, inside, lists.find?_iff, List.getElem?_singleton]

end Lists
end Substitutions
end SpirSymbol
