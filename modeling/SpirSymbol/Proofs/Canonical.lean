import SpirSymbol.Proofs.Respelling
import SpirSymbol.Proofs.Unfolding

/-! Canonical types, in which every block that takes nothing has the parameter `void` and no pointer
has unknown qualifiers. A pool is made canonical node by node, and the types in it then unfold to
the canonical trees. -/
namespace SpirSymbol

/-- The node with the parameter `void` for a block without parameters, and without qualifiers that
are not known. -/
def Node.canonical : Node → Node
  | block [] => block [.ofPrimitive .void]
  | pointer pointee space qualifiers => pointer pointee space qualifiers.truncate
  | node => node

def Mark.canonical : Mark → Mark
  | node shape => node shape.canonical.shape
  | missing id => missing id

namespace Tree

/-- The tree of a mark with nothing below it. -/
def leaf (mark : Mark) : Tree
  | [] => some mark
  | _ :: _ => none

/-- What stands below a place of the root. -/
def below (tree : Tree) (place : Nat) : Tree := fun way => tree (place :: way)

/-- The tree in which every block without parameters has got the parameter `void`, and every pointer
has lost its unknown qualifiers. -/
def canonical : Tree → Tree
  | tree, [] => (tree []).map Mark.canonical
  | tree, place :: way =>
    if tree [] = some (.node (.block [])) then
      if place = 0 then leaf (.node (.primitive .void)) way else none
    else canonical (tree.below place) way

/-- The tree in which nothing stands. -/
def nothing : Tree := fun _ => none

variable {tree : Tree} {place : Nat} {way : List Nat}

theorem canonical_block (empty : tree [] = some (.node (.block []))) :
    tree.canonical (place :: way) =
      if place = 0 then leaf (.node (.primitive .void)) way else none := by
  rw [canonical, if_pos empty]

theorem canonical_below (other : tree [] ≠ some (.node (.block []))) :
    tree.canonical (place :: way) = (tree.below place).canonical way := by
  rw [canonical, if_neg other]

theorem canonical_nothing : nothing.canonical = nothing := by
  funext way
  induction way with
  | nil => rfl
  | cons place way ih =>
    rw [canonical_below (by simp [nothing])]
    exact ih

end Tree

theorem Qualifiers.truncate_truncate (qualifiers : Qualifiers) :
    qualifiers.truncate.truncate = qualifiers.truncate := by
  rw [truncate_eq_ofList, toList_truncate, ← truncate_eq_ofList]

namespace Node

theorem respells_canonical (node : Node) : node.Respells node.canonical := by
  cases node with
  | block params =>
    cases params with
    | nil => exact .block (.inl rfl) (.inr rfl)
    | cons _ _ => exact .same _
  | pointer _ _ qualifiers => exact .pointer qualifiers.truncate_truncate.symm
  | _ => exact .same _

theorem shape_canonical (node : Node) : node.canonical.shape = node.shape.canonical.shape := by
  cases node with
  | block params => cases params <;> simp [canonical, shape, mapChildren]
  | _ => rfl

theorem shape_block {params params' : List TypeId} (lengths : params.length = params'.length) :
    (block params).shape = (block params').shape := by
  simp [shape, mapChildren, lengths]

theorem shape_ne_block {node : Node} (other : node ≠ .block []) : node.shape ≠ .block [] := by
  cases node with
  | block params => simpa [shape, mapChildren] using other
  | _ => simp [shape, mapChildren]

theorem children_canonical {node : Node} (other : node ≠ .block []) :
    node.canonical.children = node.children := by
  cases node with
  | block params =>
    cases params with
    | nil => exact absurd rfl other
    | cons _ _ => rfl
  | _ => rfl

end Node

namespace Pool

variable {pool : Pool} {id start : TypeId} {node : Node}

/-- The pool with every node canonical. -/
def canonical (pool : Pool) : Pool := ⟨pool.nodes.map Node.canonical⟩

theorem node?_canonical (pool : Pool) (id : TypeId) :
    pool.canonical.node? id = (pool.node? id).map Node.canonical := by
  simp [node?, canonical]

theorem below_unfolding_missing (missing : pool.node? id = none) (place : Nat) :
    (pool.unfolding id).below place = .nothing := by
  funext way
  simp [Tree.below, Tree.nothing, unfolding, below?, missing]

theorem below_unfolding_none {place : Nat} (found : pool.node? id = some node)
    (outside : node.children[place]? = none) : (pool.unfolding id).below place = .nothing := by
  funext way
  simp [Tree.below, Tree.nothing, unfolding_cons found, outside]

theorem below_unfolding {place : Nat} {child : TypeId} (found : pool.node? id = some node)
    (inside : node.children[place]? = some child) :
    (pool.unfolding id).below place = pool.unfolding child := by
  funext way
  simp [Tree.below, unfolding_cons found, inside]

section

variable (void : pool.node? (.ofPrimitive .void) = some (.primitive .void))
include void

theorem respelled_canonical : pool.Respelled pool.canonical := by
  refine ⟨void, ?_⟩
  rw [canonical, Array.toList_map, List.forall₂_map_right_iff, List.forall₂_same]
  exact fun node _ => node.respells_canonical

theorem canonical_void : pool.canonical.node? (.ofPrimitive .void) = some (.primitive .void) := by
  rw [node?_canonical, void]
  rfl

theorem unfolding_void : pool.unfolding (.ofPrimitive .void) = .leaf (.node (.primitive .void)) := by
  funext way
  cases way with
  | nil => rw [unfolding_nil, mark_of_some void]; rfl
  | cons place way =>
    rw [unfolding_cons void]
    rfl

/-- A type of the canonical pool unfolds to the canonical tree. -/
theorem unfolding_canonical (id : TypeId) :
    pool.canonical.unfolding id = (pool.unfolding id).canonical := by
  funext way
  induction way generalizing id with
  | nil =>
    rw [Tree.canonical, unfolding_nil, unfolding_nil, Option.map_some]
    congr 1
    cases found : pool.node? id with
    | none => rw [mark_of_none found, mark_of_none (by rw [node?_canonical, found]; rfl)]; rfl
    | some node =>
      rw [mark_of_some found, mark_of_some (by rw [node?_canonical, found]; rfl),
        node.shape_canonical]
      rfl
  | cons place way ih =>
    cases found : pool.node? id with
    | none =>
      have root : pool.unfolding id [] ≠ some (.node (.block [])) := by
        rw [unfolding_nil, mark_of_none found]
        simp
      rw [Tree.canonical_below root, below_unfolding_missing found, Tree.canonical_nothing]
      simp [unfolding, below?, node?_canonical, found, Tree.nothing]
    | some node =>
      have found' : pool.canonical.node? id = some node.canonical := by
        rw [node?_canonical, found]
        rfl
      rw [unfolding_cons found']
      by_cases empty : node = .block []
      · subst empty
        rw [Tree.canonical_block (by rw [unfolding_nil, mark_of_some found]; rfl)]
        cases place with
        | zero => exact congrFun (unfolding_void (canonical_void void)) way
        | succ place => rfl
      · have root : pool.unfolding id [] ≠ some (.node (.block [])) := by
          rw [unfolding_nil, mark_of_some found]
          simpa using Node.shape_ne_block empty
        rw [Tree.canonical_below root, Node.children_canonical empty]
        cases inside : node.children[place]? with
        | none =>
          rw [below_unfolding_none found inside, Tree.canonical_nothing]
          rfl
        | some child =>
          rw [below_unfolding found inside]
          exact ih child

/-- Nothing but `void` is reached in the canonical pool that was not reached before. -/
theorem reaches_canonical (path : pool.canonical.Reaches start id) :
    pool.Reaches start id ∨ id = .ofPrimitive .void := by
  induction path with
  | refl => exact .inl (.refl start)
  | @tail middle last _ edge ih =>
    obtain ⟨node', found', member⟩ := edge
    rw [node?_canonical, Option.map_eq_some_iff] at found'
    obtain ⟨node, found, rfl⟩ := found'
    by_cases empty : node = .block []
    · subst empty
      exact .inr (List.mem_singleton.mp member)
    · rw [Node.children_canonical empty] at member
      rcases ih with path | rfl
      · exact .inl (path.tail (edge_of_mem found member))
      · obtain rfl := Option.some.inj (void.symm.trans found)
        cases member

end
end Pool
end SpirSymbol
