import SpirSymbol.Fault
import SpirSymbol.Node

/-! Pools of type nodes. A pool only grows, and every constructor adds a node of its own even if
an equal one is there: sharing a part of a type means using its handle again. -/
namespace SpirSymbol

/-- The nodes of a set of prototypes; a handle is a place in the list. -/
structure Pool where
  nodes : Array Node
deriving DecidableEq

namespace Pool

/-- The vector lengths of the language. -/
def vectorLengths : List UInt8 := [2, 3, 4, 8, 16]

/-- A pool of this size takes no further node. -/
def capacity : Nat := 4294967295

/-- A new pool holds the primitive nodes, each at its fixed place. -/
def new : Pool := ⟨(Primitive.all.map Node.primitive).toArray⟩

instance : Inhabited Pool := ⟨new⟩

def size (pool : Pool) : Nat := pool.nodes.size

def isEmpty (pool : Pool) : Bool := pool.nodes.isEmpty

/-- The node of a handle, if the handle is in range. -/
def node? (pool : Pool) (id : TypeId) : Option Node := pool.nodes[id.index]?

/-- The node of a handle that has to be in range. -/
def node (pool : Pool) (id : TypeId) : Except Fault Node :=
  match pool.node? id with
  | some node => .ok node
  | none => .error (.outOfRange pool.size id.index)

/-- What a constructor gives: the new handle or the contract that was broken, and the pool as it
is afterwards. -/
abbrev Outcome := Except Fault TypeId × Pool

/-- Adds a node at the end and gives its handle. -/
def add (pool : Pool) (node : Node) : Outcome :=
  if pool.size < capacity then (.ok ⟨UInt32.ofNat pool.size⟩, ⟨pool.nodes.push node⟩)
  else (.error .poolFull, pool)

/-- A pointer. The pointee is not looked up and may be added later. -/
def pointer (pool : Pool) (pointee : TypeId) (space : AddressSpace) (qualifiers : Qualifiers) :
    Outcome :=
  pool.add (.pointer pointee space qualifiers)

/-- A pointer into private memory without qualifiers. -/
def plainPointer (pool : Pool) (pointee : TypeId) : Outcome := pool.pointer pointee default ∅

/-- A vector of scalars. The length is checked first; the element is judged by its handle. -/
def vector (pool : Pool) (element : TypeId) (length : UInt8) : Outcome :=
  if length ∉ vectorLengths then (.error (.vectorLength length), pool)
  else if element.asPrimitive?.any Primitive.isScalar then pool.add (.vector element length)
  else (.error .vectorElement, pool)

/-- An atomic primitive or an atomic pointer, judged by the node of the base. -/
def atomic (pool : Pool) (base : TypeId) : Outcome :=
  match (pool.node? base).map Node.kind with
  | some .primitive | some .pointer => pool.add (.atomic base)
  | _ => (.error .atomicBase, pool)

/-- A block with these parameters, none of which is looked up. -/
def block (pool : Pool) (params : List TypeId) : Outcome := pool.add (.block params)

def user (pool : Pool) (name : String) : Outcome := pool.add (.user name)

theorem node_eq_ok_iff {pool : Pool} {id : TypeId} {node : Node} :
    pool.node id = .ok node ↔ pool.node? id = some node := by
  cases found : pool.node? id <;> simp [Pool.node, found]

theorem node_eq_error_iff {pool : Pool} {id : TypeId} {fault : Fault} :
    pool.node id = .error fault ↔
      pool.node? id = none ∧ .outOfRange pool.size id.index = fault := by
  cases found : pool.node? id <;> simp [Pool.node, found]

theorem node?_new (kind : Primitive) :
    new.node? (TypeId.ofPrimitive kind) = some (.primitive kind) := by
  cases kind <;> rfl

theorem size_new : new.size = TypeId.firstCompound := rfl

section Add

variable {pool larger : Pool} {node : Node} {id : TypeId}

private theorem add_eq_ok (added : pool.add node = (.ok id, larger)) :
    id.index = pool.size ∧ larger.nodes = pool.nodes.push node := by
  rw [add] at added
  split at added
  · rename_i room
    obtain ⟨same, rfl⟩ := Prod.mk.inj added
    obtain rfl := Except.ok.inj same
    have small : pool.size < 2 ^ 32 := Nat.lt_trans room (by decide)
    exact ⟨UInt32.toNat_ofNat_of_lt' small, rfl⟩
  · cases added

/-- The new handle is the old size, so it names no node that was there. -/
theorem index_add (added : pool.add node = (.ok id, larger)) : id.index = pool.size :=
  (add_eq_ok added).1

theorem size_add (added : pool.add node = (.ok id, larger)) : larger.size = pool.size + 1 := by
  simp [size, (add_eq_ok added).2]

theorem nodes_add (added : pool.add node = (.ok id, larger)) :
    larger.nodes = pool.nodes.push node := (add_eq_ok added).2

theorem node?_add_self (added : pool.add node = (.ok id, larger)) :
    larger.node? id = some node := by
  obtain ⟨place, nodes⟩ := add_eq_ok added
  simp [node?, nodes, place, size]

theorem node?_add_of_lt {other : TypeId} (added : pool.add node = (.ok id, larger))
    (inside : other.index < pool.size) : larger.node? other = pool.node? other := by
  obtain ⟨_, nodes⟩ := add_eq_ok added
  rw [node?, node?, nodes, Array.getElem?_push_lt inside, Array.getElem?_eq_getElem inside]

theorem index_lt_size (found : pool.node? id = some node) : id.index < pool.size :=
  (Array.getElem?_eq_some_iff.mp found).1

theorem node?_add_of_some {other : TypeId} {entry : Node} (added : pool.add node = (.ok id, larger))
    (found : pool.node? other = some entry) : larger.node? other = some entry :=
  (node?_add_of_lt added (index_lt_size found)).trans found

theorem node?_add_cases {other : TypeId} {entry : Node} (added : pool.add node = (.ok id, larger))
    (found : larger.node? other = some entry) :
    (other = id ∧ entry = node) ∨ pool.node? other = some entry := by
  have place := index_add added
  have inside := index_lt_size found
  rw [size_add added] at inside
  by_cases old : other.index < pool.size
  · exact .inr ((node?_add_of_lt added old).symm.trans found)
  · have same : other = id := TypeId.index_inj.mp (by omega)
    subst same
    exact .inl ⟨rfl, Option.some.inj (found.symm.trans (node?_add_self added))⟩

/-- A node is refused exactly when there is no room for it, and the pool stays as it is. -/
theorem add_eq_error_iff {fault : Fault} :
    pool.add node = (.error fault, larger) ↔
      capacity ≤ pool.size ∧ .poolFull = fault ∧ pool = larger := by
  by_cases room : pool.size < capacity
  · simp [add, room, Nat.not_le_of_lt room]
  · simp [add, room, Nat.le_of_not_lt room]

end Add

theorem node?_eq_none_iff {pool : Pool} {id : TypeId} :
    pool.node? id = none ↔ pool.size ≤ id.index := by
  simp [node?, size]

end Pool
end SpirSymbol
