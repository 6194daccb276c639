import Mathlib.Logic.Relation
import SpirSymbol.Pool

namespace SpirSymbol.Pool

open Relation

/-- One node refers to another. -/
def Edge (pool : Pool) (parent child : TypeId) : Prop :=
  ∃ node, pool.node? parent = some node ∧ child ∈ node.children

/-- A node that is no pointer refers to another. -/
def PlainEdge (pool : Pool) (parent child : TypeId) : Prop :=
  ∃ node, pool.node? parent = some node ∧ node.kind ≠ .pointer ∧ child ∈ node.children

/-- A type is made of the nodes that its handle reaches. -/
def Reaches (pool : Pool) : TypeId → TypeId → Prop := ReflTransGen pool.Edge

/-- No cycle below the handle. -/
def Acyclic (pool : Pool) (id : TypeId) : Prop :=
  ∀ other, pool.Reaches id other → ¬ TransGen pool.Edge other other

/-- Every cycle below the handle passes through a pointer. -/
def Guarded (pool : Pool) (id : TypeId) : Prop :=
  ∀ other, pool.Reaches id other → ¬ TransGen pool.PlainEdge other other

/-- Everything below the handle is in the pool. -/
def Closed (pool : Pool) (id : TypeId) : Prop :=
  ∀ other, pool.Reaches id other → pool.node? other ≠ none

/-- A node that is numbered in symbols. -/
def Numbered (pool : Pool) (id : TypeId) : Prop :=
  ∃ node, pool.node? id = some node ∧ node.isNumbered = true

instance (pool : Pool) (id : TypeId) : Decidable (pool.Numbered id) :=
  decidable_of_iff ((pool.node? id).any Node.isNumbered = true)
    (by simp [Numbered, Option.any_eq_true])

/-- The number of pointer nodes. -/
def pointerCount (pool : Pool) : Nat := pool.nodes.countP (·.kind = .pointer)

section Edges

variable {pool : Pool} {id child : TypeId} {node : Node}

theorem edge_of_mem (found : pool.node? id = some node) (member : child ∈ node.children) :
    pool.Edge id child := ⟨node, found, member⟩

theorem Reaches.refl (id : TypeId) : pool.Reaches id id := ReflTransGen.refl

theorem Reaches.head {last : TypeId} (edge : pool.Edge id child) (path : pool.Reaches child last) :
    pool.Reaches id last := ReflTransGen.head edge path

theorem Edge.node?_ne_none (edge : pool.Edge id child) : pool.node? id ≠ none := by
  obtain ⟨node, found, _⟩ := edge
  simp [found]

theorem edge_of_plainEdge (edge : pool.PlainEdge id child) : pool.Edge id child := by
  obtain ⟨node, found, _, member⟩ := edge
  exact ⟨node, found, member⟩

theorem Acyclic.below (acyclic : pool.Acyclic id) (edge : pool.Edge id child) :
    pool.Acyclic child := fun other path => acyclic other (path.head edge)

theorem Acyclic.irrefl (acyclic : pool.Acyclic id) : ¬ TransGen pool.Edge id id :=
  acyclic id (.refl id)

theorem acyclic_of_children (below : ∀ child, pool.Edge id child → pool.Acyclic child) :
    pool.Acyclic id := by
  intro other path cycle
  rcases ReflTransGen.cases_head path with rfl | ⟨child, edge, rest⟩
  · obtain ⟨next, edge, back⟩ := TransGen.head'_iff.mp cycle
    exact (below next edge).irrefl (.tail' back edge)
  · exact below child edge other rest cycle

theorem Guarded.below (guarded : pool.Guarded id) (edge : pool.Edge id child) :
    pool.Guarded child := fun other path => guarded other (path.head edge)

theorem Guarded.irrefl (guarded : pool.Guarded id) : ¬ TransGen pool.PlainEdge id id :=
  guarded id (.refl id)

theorem Acyclic.guarded (acyclic : pool.Acyclic id) : pool.Guarded id := by
  intro other path cycle
  exact acyclic other path (TransGen.mono (fun _ _ => edge_of_plainEdge) _ _ cycle)

end Edges

theorem closed_of_children {pool : Pool} {id : TypeId} (start : id.index < pool.size)
    (inside : ∀ node ∈ pool.nodes, ∀ child ∈ node.children, child.index < pool.size) :
    pool.Closed id := by
  intro other path missing
  have outside := node?_eq_none_iff.mp missing
  cases path with
  | refl => omega
  | tail _ edge =>
    obtain ⟨node, found, member⟩ := edge
    have lower := inside node (Array.mem_of_getElem? found) other member
    omega

theorem mem_of_reaches {pool : Pool} {ids : List TypeId} {id last : TypeId}
    (closed : ∀ id ∈ ids, ∀ child ∈ (pool.node? id).elim [] Node.children, child ∈ ids)
    (listed : id ∈ ids) (path : pool.Reaches id last) : last ∈ ids := by
  induction path with
  | refl => exact listed
  | tail _ edge ih =>
    obtain ⟨node, found, member⟩ := edge
    exact closed _ ih _ (by simpa [found] using member)

/-- Every node refers only to nodes that come before it. -/
def Descending (pool : Pool) : Prop :=
  ∀ place (inside : place < pool.nodes.size), ∀ child ∈ pool.nodes[place].children,
    child.index < place

instance (pool : Pool) : Decidable pool.Descending :=
  inferInstanceAs (Decidable (∀ place (inside : place < pool.nodes.size),
    ∀ child ∈ pool.nodes[place].children, child.index < place))

section Descending

variable {pool : Pool} {id child : TypeId}

/-- Edges that lead down, or out of the pool, form no circle. -/
theorem not_transGen_of_falling (pool : Pool) {edge : TypeId → TypeId → Prop}
    (falls : ∀ first last, edge first last → first.index < pool.size ∧
      (last.index < first.index ∨ pool.size ≤ last.index)) : ¬ TransGen edge id id := by
  intro cycle
  have lower {last : TypeId} (path : TransGen edge id last) :
      last.index < id.index ∨ pool.size ≤ last.index := by
    induction path with
    | single step => exact (falls _ _ step).2
    | tail _ step ih =>
      obtain ⟨inside, down⟩ := falls _ _ step
      omega
  obtain ⟨next, first, _⟩ := TransGen.head'_iff.mp cycle
  have inside := (falls _ _ first).1
  have round := lower cycle
  omega

theorem acyclic_of_falling (falling : ∀ place (inside : place < pool.nodes.size),
    ∀ child ∈ pool.nodes[place].children, child.index < place ∨ pool.size ≤ child.index)
    (id : TypeId) : pool.Acyclic id := by
  intro other _
  refine not_transGen_of_falling pool fun first last edge => ?_
  obtain ⟨node, found, member⟩ := edge
  obtain ⟨bound, rfl⟩ := Array.getElem?_eq_some_iff.mp found
  exact ⟨bound, falling first.index bound last member⟩

/-- Where only pointers refer to nodes that do not come before them, every cycle passes through a
pointer. -/
theorem guarded_of_falling (falling : ∀ place (inside : place < pool.nodes.size),
    pool.nodes[place].kind ≠ .pointer → ∀ child ∈ pool.nodes[place].children,
      child.index < place ∨ pool.size ≤ child.index)
    (id : TypeId) : pool.Guarded id := by
  intro other _
  refine not_transGen_of_falling pool fun first last edge => ?_
  obtain ⟨node, found, plain, member⟩ := edge
  obtain ⟨bound, rfl⟩ := Array.getElem?_eq_some_iff.mp found
  exact ⟨bound, falling first.index bound plain last member⟩

theorem Descending.acyclic (descending : pool.Descending) (id : TypeId) : pool.Acyclic id :=
  acyclic_of_falling
    (fun place inside child member => .inl (descending place inside child member)) id

theorem Descending.closed (descending : pool.Descending) (inside : id.index < pool.size) :
    pool.Closed id := by
  apply closed_of_children inside
  intro node listed child member
  obtain ⟨place, bound, rfl⟩ := Array.mem_iff_getElem.mp listed
  exact Nat.lt_trans (descending place bound child member) bound

end Descending

theorem length_le_countP {pool : Pool} {sort : Node → Bool} {ids : List TypeId}
    (nodup : ids.Nodup)
    (found : ∀ id ∈ ids, ∃ node, pool.node? id = some node ∧ sort node = true) :
    ids.length ≤ pool.nodes.countP sort := by
  let places := (pool.nodes.toList.zipIdx.filter fun entry => sort entry.1).map Prod.snd
  have inside : ids.map TypeId.index ⊆ places := by
    intro place member
    obtain ⟨id, listed, rfl⟩ := List.mem_map.mp member
    obtain ⟨node, look, fits⟩ := found id listed
    refine List.mem_map.mpr ⟨(node, id.index), List.mem_filter.mpr ⟨?_, fits⟩, rfl⟩
    rw [List.mk_mem_zipIdx_iff_getElem?, Array.getElem?_toList]
    exact look
  have count : places.length = pool.nodes.countP sort := by
    rw [List.length_map, ← List.countP_eq_length_filter, ← Array.countP_toList]
    conv => rhs; rw [← List.zipIdx_map_fst 0 pool.nodes.toList, List.countP_map]
    rfl
  calc ids.length = (ids.map TypeId.index).length := (List.length_map ..).symm
    _ ≤ places.length := (TypeId.nodup_map_index nodup).length_le_of_subset inside
    _ = pool.nodes.countP sort := count

/-- The distinct nodes that a walk down has passed since it last began anew, the latest first;
each of them leads to the handle at which the walk stands. -/
structure Trail (pool : Pool) (edge : TypeId → TypeId → Prop) (passed : List TypeId)
    (id : TypeId) : Prop where
  nodup : passed.Nodup
  found : ∀ other ∈ passed, pool.node? other ≠ none
  leads : ∀ other ∈ passed, TransGen edge other id

namespace Trail

variable {pool : Pool} {edge : TypeId → TypeId → Prop} {passed : List TypeId} {id child : TypeId}

theorem start (id : TypeId) : pool.Trail edge [] id :=
  ⟨List.nodup_nil, by simp, by simp⟩

/-- A walk that does not come round again passes a new node with every step. From then on it may
go by more edges than before. -/
theorem stepInto {wider : TypeId → TypeId → Prop} (trail : pool.Trail edge passed id)
    (widen : ∀ first second, edge first second → wider first second)
    (found : pool.node? id ≠ none) (straight : ¬ TransGen edge id id) (down : wider id child) :
    pool.Trail wider (id :: passed) child := by
  refine ⟨List.nodup_cons.mpr ⟨fun again => straight (trail.leads id again), trail.nodup⟩, ?_, ?_⟩
  · intro other member
    rcases List.mem_cons.mp member with rfl | earlier
    · exact found
    · exact trail.found other earlier
  · intro other member
    rcases List.mem_cons.mp member with rfl | earlier
    · exact .single down
    · exact (TransGen.mono widen _ _ (trail.leads other earlier)).tail down

theorem step (trail : pool.Trail edge passed id) (found : pool.node? id ≠ none)
    (straight : ¬ TransGen edge id id) (down : edge id child) :
    pool.Trail edge (id :: passed) child :=
  trail.stepInto (fun _ _ edge => edge) found straight down

theorem length_le (trail : pool.Trail edge passed id) : passed.length ≤ pool.size := by
  have bound : passed.length ≤ pool.nodes.countP fun _ => true := by
    apply length_le_countP trail.nodup
    intro other member
    obtain ⟨node, found⟩ := Option.ne_none_iff_exists'.mp (trail.found other member)
    exact ⟨node, found, rfl⟩
  simpa [size] using bound

end Trail

/-- A walk over states that stand at handles. If it goes down one edge with every unit of its
depth and never comes round to a handle again, it does not use up more depth than the pool has
nodes, and one unit for the last handle. -/
theorem ne_endless_of_descent {σ ε α : Type} (walk : Nat → σ → Except ε α) (place : σ → TypeId)
    (edge : TypeId → TypeId → Prop) (fine : σ → Prop) {endless : ε} {pool : Pool} {depth : Nat}
    {passed : List TypeId} {state : σ}
    (descent : ∀ depth state, fine state → walk depth state = .error endless → depth = 0 ∨
      ∃ below next, depth = below + 1 ∧ pool.node? (place state) ≠ none ∧
        edge (place state) (place next) ∧ fine next ∧ walk below next = .error endless)
    (straight : ∀ state, fine state → ¬ TransGen edge (place state) (place state))
    (start : fine state) (trail : pool.Trail edge passed (place state))
    (budget : pool.size + 1 - passed.length ≤ depth) : walk depth state ≠ .error endless := by
  induction depth generalizing state passed with
  | zero =>
    have short := trail.length_le
    omega
  | succ depth ih =>
    intro run
    rcases descent _ state start run with empty | ⟨below, next, same, found, down, fine, run⟩
    · cases empty
    · obtain rfl := Nat.succ.inj same
      have longer := trail.step found (straight state start) down
      have short := longer.length_le
      refine ih fine longer ?_ run
      simp only [List.length_cons] at short ⊢
      omega

end SpirSymbol.Pool
