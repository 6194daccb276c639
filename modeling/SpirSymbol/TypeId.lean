import SpirSymbol.Primitive
import SpirSymbol.Text.Numeral

namespace SpirSymbol

/-- The index of a node in its pool, and so the identity of the node: two handles are equal only
when they name one node. The first indices belong to the primitive kinds. -/
structure TypeId where
  raw : UInt32
deriving DecidableEq

namespace TypeId

def index (id : TypeId) : Nat := id.raw.toNat

instance : Ord TypeId := ⟨fun left right => compare left.raw right.raw⟩

instance : Std.TransOrd TypeId where
  eq_swap {left right} := Std.OrientedOrd.eq_swap (a := left.raw) (b := right.raw)
  isLE_trans {first _ _} := Std.TransOrd.isLE_trans (a := first.raw)

instance : Std.LawfulEqOrd TypeId where
  eq_of_compare {left right} same := by
    cases left
    cases right
    exact congrArg TypeId.mk (Std.LawfulEqOrd.eq_of_compare same)

/-- The index of the first node that is no primitive. -/
def firstCompound : Nat := Primitive.count

/-- The node set aside for a primitive kind. -/
def ofPrimitive (kind : Primitive) : TypeId := ⟨UInt32.ofNat kind.position⟩

/-- The kind that the handle stands for. This looks at the index alone and at no pool. -/
def asPrimitive? (id : TypeId) : Option Primitive := Primitive.ofPosition? id.index

def isPrimitive (id : TypeId) : Bool := id.index < firstCompound

/-- The handle as diagnostics of the handle itself show it. -/
def describe (id : TypeId) : String :=
  match id.asPrimitive? with
  | some kind => "TypeId::" ++ Named.name kind
  | none => "TypeId(" ++ Numeral.decimal id.index ++ ")"

theorem index_inj {left right : TypeId} : left.index = right.index ↔ left = right := by
  cases left
  cases right
  simp [index, UInt32.toNat_inj]

theorem nodup_map_index {ids : List TypeId} (distinct : ids.Nodup) : (ids.map index).Nodup :=
  List.Pairwise.map _ (fun _ _ different same => different (index_inj.mp same)) distinct

theorem index_ofPrimitive (kind : Primitive) : (ofPrimitive kind).index = kind.position := by
  cases kind <;> rfl

theorem asPrimitive?_ofPrimitive (kind : Primitive) :
    (ofPrimitive kind).asPrimitive? = some kind := by
  rw [asPrimitive?, index_ofPrimitive, Primitive.ofPosition?_position]

theorem eq_ofPrimitive {id : TypeId} {kind : Primitive} (found : id.asPrimitive? = some kind) :
    id = ofPrimitive kind := by
  rw [← index_inj, index_ofPrimitive]
  exact (Primitive.position_ofPosition? found).symm

/-- Only the handles of primitive kinds stand for a kind. -/
theorem asPrimitive?_isSome (id : TypeId) : id.asPrimitive?.isSome = id.isPrimitive := by
  by_cases inside : id.index < Primitive.all.length
  · simp [asPrimitive?, isPrimitive, firstCompound, Primitive.ofPosition?, ← Primitive.length_all,
      inside]
  · simp [asPrimitive?, isPrimitive, firstCompound, Primitive.ofPosition?, ← Primitive.length_all,
      inside]

end TypeId
end SpirSymbol
