import SpirSymbol.AddressSpace
import SpirSymbol.Qualifiers
import SpirSymbol.TypeId

/-! Type nodes: the contents of one place in a pool. Other nodes are referred to by handle. -/
namespace SpirSymbol

/-- The constructor of a node, without its contents. -/
inductive Kind where
  | primitive
  | pointer
  | vector
  | atomic
  | block
  | user
deriving DecidableEq

instance : Named Kind where
  all := [.primitive, .pointer, .vector, .atomic, .block, .user]
  name
    | .primitive => "Primitive"
    | .pointer => "Pointer"
    | .vector => "Vector"
    | .atomic => "Atomic"
    | .block => "Block"
    | .user => "UserDefined"
  find_name item := by cases item <;> decide +kernel

instance : Dated Kind where
  since
    | .atomic | .block => .v2_0
    | _ => .v1_2

/-- One type node. A block is a pointer to a closure that returns nothing; without parameters
it is spelled as if it had one of type `void`. A user type is known by its name only. -/
inductive Node where
  | primitive (kind : Primitive)
  | pointer (pointee : TypeId) (space : AddressSpace) (qualifiers : Qualifiers)
  | vector (element : TypeId) (length : UInt8)
  | atomic (base : TypeId)
  | block (params : List TypeId)
  | user (name : String)
deriving DecidableEq

namespace Node

def kind : Node → Kind
  | primitive _ => .primitive
  | pointer _ _ _ => .pointer
  | vector _ _ => .vector
  | atomic _ => .atomic
  | block _ => .block
  | user _ => .user

/-- The nodes that a node refers to, in order. -/
def children : Node → List TypeId
  | primitive _ => []
  | pointer pointee _ _ => [pointee]
  | vector element _ => [element]
  | atomic base => [base]
  | block params => params
  | user _ => []

/-- Pointers and user types get a number in a symbol. -/
def isNumbered : Node → Bool
  | pointer _ _ _ | user _ => true
  | _ => false

/-- A node is as old as the newest part of it: its kind, and a primitive kind or an address
space that it names. -/
instance : Dated Node where
  since
    | primitive kind => Dated.since kind
    | pointer _ space _ => Dated.since space
    | node => Dated.since node.kind

/-- The same node over other children. -/
def mapChildren (rename : TypeId → TypeId) : Node → Node
  | primitive kind => primitive kind
  | pointer pointee space qualifiers => pointer (rename pointee) space qualifiers
  | vector element length => vector (rename element) length
  | atomic base => atomic (rename base)
  | block params => block (params.map rename)
  | user name => user name

/-- A node without its children: two nodes have the same shape when they agree in constructor,
attributes, name and number of children. -/
def shape (node : Node) : Node := node.mapChildren fun _ => ⟨0⟩

theorem supports_iff (revision : Revision) (node : Node) :
    revision.supports node = true ↔
      revision.supports node.kind = true ∧
      (∀ kind, node = primitive kind → revision.supports kind = true) ∧
      ∀ pointee space qualifiers, node = pointer pointee space qualifiers →
        revision.supports space = true := by
  cases node <;> simp [Revision.supports, Dated.since, Node.kind, Revision.v1_2_le]

theorem children_mapChildren (rename : TypeId → TypeId) (node : Node) :
    (node.mapChildren rename).children = node.children.map rename := by
  cases node <;> rfl

theorem eq_of_shape_eq {node other : Node} (same : node.shape = other.shape)
    (children : node.children = other.children) : node = other := by
  cases node <;> cases other <;> simp_all [shape, mapChildren, Node.children]

theorem length_children_of_shape_eq {node other : Node} (same : node.shape = other.shape) :
    node.children.length = other.children.length := by
  have lengths := congrArg (fun node => (Node.children node).length) same
  simpa [shape, children_mapChildren] using lengths

end Node
end SpirSymbol
