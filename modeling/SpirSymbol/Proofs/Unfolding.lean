import Mathlib.Data.List.Forall2
import SpirSymbol.Proofs.Likeness

/-! Unfoldings. A type unfolds to a tree in which no node is shared, and which has no end where the
type contains itself. Two types are alike exactly when they unfold to one tree, if one of them has
no cycle; likeness is then an equality that does not see which nodes are shared. -/
namespace SpirSymbol

/-- What stands at one place of an unfolded type: a node without its children, or a handle that the
pool does not have, which stands for itself. -/
inductive Mark where
  | node (shape : Node)
  | missing (id : TypeId)
deriving DecidableEq

/-- A tree, finite or not: what stands at the end of each way down from the root, if there is such
a way. A way is the list of the places that it takes among the children, from the root on. -/
abbrev Tree := List Nat → Option Mark

namespace Pool

open Relation

variable {pool other : Pool} {depth : Nat} {id last left right : TypeId}
  {lefts rights passed : List TypeId} {node node' : Node} {way : List Nat}

def mark (pool : Pool) (id : TypeId) : Mark :=
  match pool.node? id with
  | some node => .node node.shape
  | none => .missing id

/-- The handle at the end of a way down. -/
def below? (pool : Pool) : TypeId → List Nat → Option TypeId
  | id, [] => some id
  | id, place :: way =>
    ((pool.node? id).bind (·.children[place]?)).bind fun child => pool.below? child way

/-- The tree that a type unfolds to. -/
def unfolding (pool : Pool) (id : TypeId) : Tree := fun way => (pool.below? id way).map pool.mark

theorem mark_of_some (found : pool.node? id = some node) : pool.mark id = .node node.shape := by
  rw [mark, found]

theorem mark_of_none (missing : pool.node? id = none) : pool.mark id = .missing id := by
  rw [mark, missing]

theorem below?_cons (found : pool.node? id = some node) (place : Nat) (way : List Nat) :
    pool.below? id (place :: way) =
      node.children[place]?.bind fun child => pool.below? child way := by
  rw [below?, found]
  rfl

theorem below?_append (id : TypeId) (way more : List Nat) :
    pool.below? id (way ++ more) = (pool.below? id way).bind fun next => pool.below? next more := by
  induction way generalizing id with
  | nil => rfl
  | cons place way ih =>
    simp only [List.cons_append, below?, ih, Option.bind_assoc]

theorem unfolding_nil (id : TypeId) : pool.unfolding id [] = some (pool.mark id) := rfl

theorem unfolding_cons (found : pool.node? id = some node) (place : Nat) (way : List Nat) :
    pool.unfolding id (place :: way) =
      node.children[place]?.bind fun child => pool.unfolding child way := by
  simp only [unfolding, below?_cons found, Option.map_bind]
  rfl

theorem unfolding_eq_of_children (found : pool.node? left = some node)
    (found' : other.node? right = some node') (same : node.shape = node'.shape)
    (each : List.Forall₂ (fun child child' => pool.unfolding child = other.unfolding child')
      node.children node'.children) : pool.unfolding left = other.unfolding right := by
  funext way
  cases way with
  | nil => rw [unfolding_nil, unfolding_nil, mark_of_some found, mark_of_some found', same]
  | cons place way =>
    rw [unfolding_cons found, unfolding_cons found']
    have lengths := each.length_eq
    by_cases inside : place < node.children.length
    · have inside' : place < node'.children.length := lengths ▸ inside
      rw [List.getElem?_eq_getElem inside, List.getElem?_eq_getElem inside']
      exact congrFun (each.get inside inside') way
    · have outside := Nat.le_of_not_lt inside
      rw [List.getElem?_eq_none outside, List.getElem?_eq_none (lengths ▸ outside)]
      rfl

/-- Handles that unfold alike are one handle that is missing, or name nodes of one shape whose
children unfold alike. -/
theorem cases_of_unfolding_eq (same : pool.unfolding left = other.unfolding right) :
    (left = right ∧ pool.node? left = none) ∨
      ∃ node node', pool.node? left = some node ∧ other.node? right = some node' ∧
        node.shape = node'.shape ∧
        List.Forall₂ (fun child child' => pool.unfolding child = other.unfolding child')
          node.children node'.children := by
  have root : pool.mark left = other.mark right := Option.some.inj (congrFun same [])
  cases found : pool.node? left with
  | none =>
    cases found' : other.node? right with
    | none =>
      rw [mark_of_none found, mark_of_none found'] at root
      exact .inl ⟨Mark.missing.inj root, rfl⟩
    | some node' =>
      rw [mark_of_none found, mark_of_some found'] at root
      cases root
  | some node =>
    cases found' : other.node? right with
    | none =>
      rw [mark_of_some found, mark_of_none found'] at root
      cases root
    | some node' =>
      rw [mark_of_some found, mark_of_some found'] at root
      have shape := Mark.node.inj root
      refine .inr ⟨node, node', rfl, rfl, shape, ?_⟩
      refine List.forall₂_of_length_eq_of_get (Node.length_children_of_shape_eq shape) ?_
      intro place inside inside'
      funext way
      have step := congrFun same (place :: way)
      rw [unfolding_cons found, unfolding_cons found', List.getElem?_eq_getElem inside,
        List.getElem?_eq_getElem inside'] at step
      exact step

section Finite

theorem exists_way_of_reaches (path : pool.Reaches id last) :
    ∃ way, pool.below? id way = some last := by
  induction path using ReflTransGen.head_induction_on with
  | refl => exact ⟨[], rfl⟩
  | head edge _ ih =>
    obtain ⟨node, found, member⟩ := edge
    obtain ⟨place, here⟩ := List.mem_iff_getElem?.mp member
    obtain ⟨way, there⟩ := ih
    exact ⟨place :: way, by simp [below?_cons found, here, there]⟩

/-- Where a way leads back to where it began, there are ways of any length. -/
theorem exists_way_of_round {place : Nat} (round : pool.below? id (place :: way) = some id)
    (length : Nat) : ∃ longer, length ≤ longer.length ∧ pool.below? id longer = some id := by
  induction length with
  | zero => exact ⟨[], Nat.zero_le _, rfl⟩
  | succ length ih =>
    obtain ⟨longer, long, back⟩ := ih
    refine ⟨place :: way ++ longer, ?_, by rw [below?_append, round]; exact back⟩
    simp only [List.length_append, List.length_cons]
    omega

private theorem length_add_le_size (acyclic : pool.Acyclic id)
    (trail : pool.Trail pool.Edge passed id) (stands : pool.unfolding id way ≠ none) :
    way.length + passed.length ≤ pool.size := by
  induction way generalizing id passed with
  | nil => simpa using trail.length_le
  | cons place way ih =>
    cases found : pool.node? id with
    | none => simp [unfolding, below?, found] at stands
    | some node =>
      rw [unfolding_cons found] at stands
      cases here : node.children[place]? with
      | none => simp [here] at stands
      | some child =>
        simp only [here, Option.bind_some] at stands
        have edge := edge_of_mem found (List.mem_of_getElem? here)
        have longer := trail.step (by simp [found]) acyclic.irrefl edge
        have bound := ih (acyclic.below edge) longer stands
        simp only [List.length_cons] at bound ⊢
        omega

/-- A type has no cycle exactly when the tree that it unfolds to has a greatest depth. -/
theorem acyclic_iff_bounded :
    pool.Acyclic id ↔ ∃ bound, ∀ way, pool.unfolding id way ≠ none → way.length ≤ bound := by
  constructor
  · intro acyclic
    exact ⟨pool.size, fun way => length_add_le_size acyclic (.start id)⟩
  · rintro ⟨bound, bounded⟩ last path cycle
    obtain ⟨next, edge, back⟩ := TransGen.head'_iff.mp cycle
    obtain ⟨way, there⟩ := exists_way_of_reaches path
    obtain ⟨node, found, member⟩ := edge
    obtain ⟨place, here⟩ := List.mem_iff_getElem?.mp member
    obtain ⟨home, round⟩ := exists_way_of_reaches back
    have turn : pool.below? last (place :: home) = some last := by
      simp [below?_cons found, here, round]
    obtain ⟨longer, long, far⟩ := exists_way_of_round turn (bound + 1)
    have deep := bounded (way ++ longer) (by simp [unfolding, below?_append, there, far])
    rw [List.length_append] at deep
    omega

/-- Whether a type has a cycle is told by the tree that it unfolds to. -/
theorem Acyclic.of_unfolding_eq (acyclic : pool.Acyclic left)
    (same : other.unfolding right = pool.unfolding left) : other.Acyclic right := by
  rw [acyclic_iff_bounded, same]
  exact acyclic_iff_bounded.mp acyclic

end Finite
section Alike

theorem alikeEach_eq_true_iff {ε : Type} {alike : TypeId → TypeId → Except ε Bool}
    (lengths : lefts.length = rights.length) :
    alikeEach alike lefts rights = .ok true ↔
      List.Forall₂ (fun left right => alike left right = .ok true) lefts rights := by
  induction lefts generalizing rights with
  | nil =>
    obtain rfl := List.length_eq_zero_iff.mp lengths.symm
    simp [alikeEach]
  | cons left lefts ih =>
    cases rights with
    | nil => cases lengths
    | cons right rights =>
      rw [List.forall₂_cons, ← ih (Nat.succ.inj lengths), alikeEach]
      split
      · rename_i same
        simp [same]
      · rename_i different
        simpa using fun same => absurd same different

/-- Handles are alike when they are equal, or name nodes of one shape with children that are alike
place by place. -/
theorem alikeWithin_succ_eq_true_iff :
    pool.alikeWithin (depth + 1) left right = .ok true ↔
      left = right ∨ ∃ node node', pool.node? left = some node ∧ pool.node? right = some node' ∧
        node.shape = node'.shape ∧
        List.Forall₂ (fun child child' => pool.alikeWithin depth child child' = .ok true)
          node.children node'.children := by
  by_cases same : left = right
  · simp [alikeWithin, same]
  · simp only [alikeWithin, same, ↓reduceIte, false_or]
    cases found : pool.node? left with
    | none => simp [node_eq_error_iff.mpr ⟨found, rfl⟩]
    | some node =>
      cases found' : pool.node? right with
      | none => simp [node_eq_ok_iff.mpr found, node_eq_error_iff.mpr ⟨found', rfl⟩]
      | some node' =>
        simp only [node_eq_ok_iff.mpr found, node_eq_ok_iff.mpr found', Option.some.injEq]
        split
        · rename_i shape
          rw [alikeEach_eq_true_iff (Node.length_children_of_shape_eq shape)]
          simp [shape]
        · rename_i shape
          simp [shape]

theorem unfolding_eq_of_alikeWithin (run : pool.alikeWithin depth left right = .ok true) :
    pool.unfolding left = pool.unfolding right := by
  induction depth generalizing left right with
  | zero => cases run
  | succ depth ih =>
    rcases alikeWithin_succ_eq_true_iff.mp run with rfl | ⟨node, node', found, found', same, each⟩
    · rfl
    · exact unfolding_eq_of_children found found' same (each.imp fun _ _ => ih)

/-- A comparison of lists that does not give up finds them to match if each comparison that does
not give up does. -/
theorem alikeEach_eq_true_of_ne {ε : Type} {alike : TypeId → TypeId → Except ε Bool} {gaveUp : ε}
    (each : List.Forall₂ (fun left right => alike left right ≠ .error gaveUp →
      alike left right = .ok true) lefts rights)
    (ended : alikeEach alike lefts rights ≠ .error gaveUp) :
    alikeEach alike lefts rights = .ok true := by
  induction each with
  | nil => rfl
  | @cons left right lefts rights head _ ih =>
    have here : alike left right = .ok true := by
      refine head fun stopped => ended ?_
      simp only [alikeEach, stopped]
    simp only [alikeEach, here] at ended ⊢
    exact ih ended

theorem alikeWithin_of_unfolding_eq (same : pool.unfolding left = pool.unfolding right)
    (ended : pool.alikeWithin depth left right ≠ .error .endless) :
    pool.alikeWithin depth left right = .ok true := by
  induction depth generalizing left right with
  | zero => exact absurd rfl ended
  | succ depth ih =>
    rcases cases_of_unfolding_eq same with ⟨rfl, _⟩ | ⟨node, node', found, found', shape, each⟩
    · simp [alikeWithin]
    · by_cases equal : left = right
      · simp [alikeWithin, equal]
      · simp only [alikeWithin, equal, ↓reduceIte, node_eq_ok_iff.mpr found,
          node_eq_ok_iff.mpr found', shape] at ended ⊢
        exact alikeEach_eq_true_of_ne (each.imp fun _ _ same ended => ih same ended) ended

theorem alike_eq_true_iff (acyclic : pool.Acyclic left ∨ pool.Acyclic right) :
    pool.alike left right = .ok true ↔ pool.unfolding left = pool.unfolding right :=
  ⟨unfolding_eq_of_alikeWithin,
    fun same => alikeWithin_of_unfolding_eq same (alike_ne_endless acyclic)⟩

theorem alike_of_unfolding_ne (acyclic : pool.Acyclic left ∨ pool.Acyclic right)
    (different : pool.unfolding left ≠ pool.unfolding right) :
    pool.alike left right = .ok false ∨
      ∃ id, (pool.Reaches left id ∨ pool.Reaches right id) ∧ pool.node? id = none ∧
        pool.alike left right = .error (.fault (.outOfRange pool.size id.index)) := by
  cases compared : pool.alike left right with
  | ok answer =>
    cases answer with
    | false => exact .inl rfl
    | true => exact absurd (unfolding_eq_of_alikeWithin compared) different
  | error cause =>
    have ended : cause ≠ .endless := by
      rintro rfl
      exact alike_ne_endless acyclic compared
    obtain ⟨id, path, missing, rfl⟩ := missing_of_alikeWithin compared ended
    exact .inr ⟨id, path, missing, rfl⟩

end Alike

/-- If one of two types has no cycle, they are alike exactly when they unfold to one tree, and a
comparison that does not find so says no or comes to a handle that the pool does not have. Likeness
is then reflexive, symmetric and transitive, and it is the same in all pools and for all handles
whose types unfold to these trees, however nodes are shared there. -/
theorem alike_unfolding (acyclic : pool.Acyclic left ∨ pool.Acyclic right) :
    (pool.alike left right = .ok true ↔ pool.unfolding left = pool.unfolding right) ∧
      (pool.unfolding left ≠ pool.unfolding right → pool.alike left right = .ok false ∨
        ∃ id, (pool.Reaches left id ∨ pool.Reaches right id) ∧ pool.node? id = none ∧
          pool.alike left right = .error (.fault (.outOfRange pool.size id.index))) ∧
      pool.alike left left = .ok true ∧
      (pool.alike left right = .ok true → pool.alike right left = .ok true) ∧
      (∀ third, pool.alike left right = .ok true → pool.alike right third = .ok true →
        pool.alike left third = .ok true) ∧
      ∀ other left' right', unfolding other left' = pool.unfolding left →
        unfolding other right' = pool.unfolding right →
        (other.alike left' right' = .ok true ↔ pool.alike left right = .ok true) := by
  refine ⟨alike_eq_true_iff acyclic, alike_of_unfolding_ne acyclic, ?_, ?_, ?_, ?_⟩
  · simp [alike, alikeWithin]
  · intro same
    exact (alike_eq_true_iff acyclic.symm).mpr (unfolding_eq_of_alikeWithin same).symm
  · intro third first second
    have same := unfolding_eq_of_alikeWithin first
    have here : pool.Acyclic left := acyclic.elim id fun there => there.of_unfolding_eq same
    exact (alike_eq_true_iff (.inl here)).mpr (same.trans (unfolding_eq_of_alikeWithin second))
  · intro other left' right' same same'
    have there := acyclic.imp (·.of_unfolding_eq same) (·.of_unfolding_eq same')
    rw [alike_eq_true_iff acyclic, alike_eq_true_iff there, same, same']

/-- A block that is given a pointer twice is like one that is given two pointers, even where both
are given a handle that the pool does not have, and comes to this handle beside one that is given
another. The pairs differ in one thing each: kind, unknown qualifier, address space, pointee,
length, element, base, name, order, number and type of what a block is given. -/
theorem alike_unfolding_block :
    ∃ (pool : Pool) (pairs : List (TypeId × TypeId)),
      pool = ⟨#[.primitive .int, .primitive .float, .pointer ⟨0⟩ .globalMemory ⟨12⟩,
        .pointer ⟨0⟩ .globalMemory ⟨4⟩, .pointer ⟨0⟩ .localMemory ⟨12⟩,
        .pointer ⟨1⟩ .globalMemory ⟨12⟩, .vector ⟨0⟩ 4, .vector ⟨0⟩ 8, .vector ⟨1⟩ 4, .atomic ⟨0⟩,
        .atomic ⟨1⟩, .user "a", .user "b", .block [⟨0⟩, ⟨1⟩], .block [⟨1⟩, ⟨0⟩], .block [⟨0⟩],
        .block [⟨0⟩, ⟨2⟩], .pointer ⟨0⟩ .globalMemory ⟨12⟩, .block [⟨2⟩, ⟨2⟩, ⟨30⟩],
        .block [⟨2⟩, ⟨17⟩, ⟨30⟩], .block [⟨2⟩, ⟨17⟩, ⟨31⟩]]⟩ ∧
      pairs = [(⟨0⟩, ⟨1⟩), (⟨2⟩, ⟨3⟩), (⟨2⟩, ⟨4⟩), (⟨2⟩, ⟨5⟩), (⟨6⟩, ⟨7⟩), (⟨6⟩, ⟨8⟩), (⟨9⟩, ⟨10⟩),
        (⟨11⟩, ⟨12⟩), (⟨13⟩, ⟨14⟩), (⟨13⟩, ⟨15⟩), (⟨13⟩, ⟨16⟩)] ∧
      (∀ id, pool.Acyclic id) ∧
      (pool.alike ⟨18⟩ ⟨19⟩ = .ok true ∧ pool.unfolding ⟨18⟩ = pool.unfolding ⟨19⟩) ∧
      (pool.alike ⟨18⟩ ⟨20⟩ = .error (.fault (.outOfRange 21 30)) ∧
        pool.unfolding ⟨18⟩ ≠ pool.unfolding ⟨20⟩) ∧
      ∀ pair ∈ pairs, pool.alike pair.1 pair.2 = .ok false ∧
        pool.unfolding pair.1 ≠ pool.unfolding pair.2 := by
  let pool : Pool := ⟨#[.primitive .int, .primitive .float, .pointer ⟨0⟩ .globalMemory ⟨12⟩,
    .pointer ⟨0⟩ .globalMemory ⟨4⟩, .pointer ⟨0⟩ .localMemory ⟨12⟩,
    .pointer ⟨1⟩ .globalMemory ⟨12⟩, .vector ⟨0⟩ 4, .vector ⟨0⟩ 8, .vector ⟨1⟩ 4, .atomic ⟨0⟩,
    .atomic ⟨1⟩, .user "a", .user "b", .block [⟨0⟩, ⟨1⟩], .block [⟨1⟩, ⟨0⟩], .block [⟨0⟩],
    .block [⟨0⟩, ⟨2⟩], .pointer ⟨0⟩ .globalMemory ⟨12⟩, .block [⟨2⟩, ⟨2⟩, ⟨30⟩],
    .block [⟨2⟩, ⟨17⟩, ⟨30⟩], .block [⟨2⟩, ⟨17⟩, ⟨31⟩]]⟩
  let pairs : List (TypeId × TypeId) := [(⟨0⟩, ⟨1⟩), (⟨2⟩, ⟨3⟩), (⟨2⟩, ⟨4⟩), (⟨2⟩, ⟨5⟩),
    (⟨6⟩, ⟨7⟩), (⟨6⟩, ⟨8⟩), (⟨9⟩, ⟨10⟩), (⟨11⟩, ⟨12⟩), (⟨13⟩, ⟨14⟩), (⟨13⟩, ⟨15⟩), (⟨13⟩, ⟨16⟩)]
  have acyclic (id : TypeId) : pool.Acyclic id := acyclic_of_falling (by decide) id
  have same : pool.alike ⟨18⟩ ⟨19⟩ = .ok true := by decide +kernel
  have broken : pool.alike ⟨18⟩ ⟨20⟩ = .error (.fault (.outOfRange 21 30)) := by decide +kernel
  have different : ∀ pair ∈ pairs, pool.alike pair.1 pair.2 = .ok false := by decide +kernel
  have apart {left right : TypeId} (answer : pool.alike left right ≠ .ok true) :
      pool.unfolding left ≠ pool.unfolding right :=
    fun equal => answer ((alike_unfolding (.inl (acyclic left))).1.mpr equal)
  refine ⟨pool, pairs, rfl, rfl, acyclic, ⟨same, ?_⟩, ⟨broken, apart (by simp [broken])⟩, ?_⟩
  · exact (alike_unfolding (.inl (acyclic _))).1.mp same
  · intro pair listed
    exact ⟨different pair listed, apart (by simp [different pair listed])⟩

end Pool
end SpirSymbol
