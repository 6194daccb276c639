import SpirSymbol.Proofs.Graph
import SpirSymbol.Proofs.Sequence
import SpirSymbol.Symbol.Encoding

/-! Runs of the encoder: what one step of it can do, what stands in its way, and how deep it
goes. A way down meets a pointer once at most, since a pointer that has a number is not looked
into again, and between two pointers no other node twice. -/
namespace SpirSymbol

namespace Draft

variable {draft middle result : Draft} {node : Node} {id : TypeId}

/-- The draft in which a node is opened on its first visit. -/
def enter (draft : Draft) (node : Node) (id : TypeId) : Draft :=
  ⟨draft.tokens ++ node.opening,
    if node.isNumbered then draft.numbers.insert id else draft.numbers⟩

theorem visit_eq_ok (new : draft.numberOf? node id = none) :
    (draft.write node.opening).visit node id = .ok (draft.enter node id) := by
  by_cases numbered : node.isNumbered = true
  · have absent := draft.find?_eq_none_of_numberOf? numbered new
    simp [visit, write, enter, numbered, Substitutions.register_eq_ok absent, Except.map]
  · simp [visit, write, enter, numbered]

theorem numbers_enter_of_plain (plain : node.isNumbered = false) :
    (draft.enter node id).numbers = draft.numbers := by
  simp [enter, plain]

/-- Every number of the first draft stands in the second. -/
def Keeps (draft result : Draft) : Prop :=
  ∀ id number, draft.numbers.find? id = some number → result.numbers.find? id = some number

theorem Keeps.refl (draft : Draft) : draft.Keeps draft := fun _ _ found => found

theorem Keeps.trans (first : draft.Keeps middle) (second : middle.Keeps result) :
    draft.Keeps result := fun id number found => second id number (first id number found)

theorem keeps_enter (new : draft.numberOf? node id = none) : draft.Keeps (draft.enter node id) := by
  intro other number found
  by_cases numbered : node.isNumbered = true
  · have absent := draft.find?_eq_none_of_numberOf? numbered new
    have different : id ≠ other := by
      intro same
      subst same
      rw [absent] at found
      cases found
    simpa [enter, numbered, Substitutions.find?_insert, different] using found
  · simpa [enter, numbered] using found

theorem Keeps.enter_plain (kept : draft.Keeps result) (plain : node.isNumbered = false) :
    (draft.enter node id).Keeps (result.enter node id) := by
  intro other number found
  rw [numbers_enter_of_plain plain] at found ⊢
  exact kept other number found

theorem Keeps.numberOf?_eq_none (kept : draft.Keeps result)
    (new : result.numberOf? node id = none) : draft.numberOf? node id = none := by
  cases again : draft.numberOf? node id with
  | none => rfl
  | some number =>
    obtain ⟨numbered, given⟩ := draft.numberOf?_eq_some_iff.mp again
    have still := result.numberOf?_eq_some_iff.mpr ⟨numbered, kept id number given⟩
    rw [new] at still
    cases still

end Draft

namespace Pool

open Relation

/-- The encoder goes from the node of a handle to a child of it, past the children before. -/
inductive Descent (pool : Pool) (revision : Revision) (depth : Nat) (draft : Draft) (id : TypeId) :
    Draft → TypeId → Prop where
  | child {node : Node} {before after : List TypeId} {next : Draft} {child : TypeId}
      (found : pool.node? id = some node) (new : draft.numberOf? node id = none)
      (supported : revision.supports node = true)
      (split : node.children = before ++ child :: after)
      (walked : before.foldlM (pool.encodeWithin revision depth) (draft.enter node id) =
        .ok next) :
      Descent pool revision depth draft id next child

section Steps

variable {pool : Pool} {revision : Revision} {depth : Nat} {draft next result : Draft}
  {id child : TypeId} {node : Node} {obstacle : Obstacle}

theorem encodeWithin_missing (missing : pool.node? id = none) :
    pool.encodeWithin revision (depth + 1) draft id =
      .error (.interrupted (.fault (.outOfRange pool.size id.index))) := by
  simp only [encodeWithin, node_eq_error_iff.mpr ⟨missing, rfl⟩]

theorem encodeWithin_again {number : Nat} (found : pool.node? id = some node)
    (again : draft.numberOf? node id = some number) :
    pool.encodeWithin revision (depth + 1) draft id = .ok (draft.write [.again number]) := by
  simp only [encodeWithin, node_eq_ok_iff.mpr found, again]

theorem encodeWithin_enter (found : pool.node? id = some node)
    (new : draft.numberOf? node id = none) (supported : revision.supports node = true) :
    pool.encodeWithin revision (depth + 1) draft id =
      (node.children.foldlM (pool.encodeWithin revision depth) (draft.enter node id)).map
        (·.write node.closing) := by
  simp only [encodeWithin, node_eq_ok_iff.mpr found, new, supported, Draft.visit_eq_ok new,
    ↓reduceIte]

theorem encodeWithin_lacking (found : pool.node? id = some node)
    (new : draft.numberOf? node id = none) (lacking : revision.supports node = false) :
    pool.encodeWithin revision (depth + 1) draft id = .error .unsupported := by
  simp only [encodeWithin, node_eq_ok_iff.mpr found, new, lacking, Bool.false_eq_true, ↓reduceIte]

/-- A step that succeeds writes the number of the node again, or opens the node, goes through its
children and closes it. -/
theorem encodeWithin_ok (run : pool.encodeWithin revision depth draft id = .ok result) :
    ∃ below node, depth = below + 1 ∧ pool.node? id = some node ∧
      ((∃ number, draft.numberOf? node id = some number ∧ draft.write [.again number] = result) ∨
        (draft.numberOf? node id = none ∧ revision.supports node = true ∧
          ∃ inner, node.children.foldlM (pool.encodeWithin revision below) (draft.enter node id) =
            .ok inner ∧ inner.write node.closing = result)) := by
  cases depth with
  | zero => cases run
  | succ below =>
    simp only [encodeWithin] at run
    cases look : pool.node id with
    | error fault =>
      rw [look] at run
      cases run
    | ok node =>
      refine ⟨below, node, rfl, node_eq_ok_iff.mp look, ?_⟩
      rw [look] at run
      cases again : draft.numberOf? node id with
      | some number =>
        simp only [again] at run
        exact .inl ⟨number, rfl, Except.ok.inj run⟩
      | none =>
        refine .inr ⟨rfl, ?_⟩
        simp only [again, Draft.visit_eq_ok again] at run
        split at run
        · rename_i supported
          cases inside : node.children.foldlM (pool.encodeWithin revision below)
            (draft.enter node id) with
          | error cause =>
            rw [inside] at run
            cases run
          | ok inner =>
            rw [inside] at run
            exact ⟨supported, inner, rfl, Except.ok.inj run⟩
        · cases run

/-- A step that fails has no depth left, misses its node, meets a node that the revision lacks,
or fails in a child that it goes down to. -/
theorem encodeWithin_error (run : pool.encodeWithin revision depth draft id = .error obstacle) :
    (depth = 0 ∧ obstacle = .interrupted .endless) ∨
      ∃ below, depth = below + 1 ∧
        ((pool.node? id = none ∧
            obstacle = .interrupted (.fault (.outOfRange pool.size id.index))) ∨
          (∃ node, pool.node? id = some node ∧ draft.numberOf? node id = none ∧
            revision.supports node = false ∧ obstacle = .unsupported) ∨
          ∃ next child, pool.Descent revision below draft id next child ∧
            pool.encodeWithin revision below next child = .error obstacle) := by
  cases depth with
  | zero => exact .inl ⟨rfl, (Except.error.inj run).symm⟩
  | succ below =>
    refine .inr ⟨below, rfl, ?_⟩
    simp only [encodeWithin] at run
    cases look : pool.node id with
    | error fault =>
      rw [look] at run
      obtain ⟨missing, rfl⟩ := node_eq_error_iff.mp look
      exact .inl ⟨missing, (Except.error.inj run).symm⟩
    | ok node =>
      refine .inr ?_
      have found := node_eq_ok_iff.mp look
      rw [look] at run
      cases again : draft.numberOf? node id with
      | some number =>
        simp only [again] at run
        cases run
      | none =>
        simp only [again, Draft.visit_eq_ok again] at run
        split at run
        · rename_i supported
          cases inside : node.children.foldlM (pool.encodeWithin revision below)
            (draft.enter node id) with
          | error cause =>
            rw [inside] at run
            obtain rfl := Except.error.inj run
            obtain ⟨before, child, after, next, split, walked, failed⟩ :=
              exists_of_foldlM_eq_error inside
            exact .inr ⟨next, child, .child found again supported split walked, failed⟩
          | ok inner =>
            rw [inside] at run
            cases run
        · rename_i lacking
          exact .inl ⟨node, found, again, Bool.eq_false_iff.mpr lacking,
            (Except.error.inj run).symm⟩

private theorem keeps_foldlM {step : Draft → TypeId → Except Obstacle Draft} {ids : List TypeId}
    (each : ∀ draft id result, step draft id = .ok result → draft.Keeps result)
    (run : ids.foldlM step draft = .ok result) : draft.Keeps result := by
  induction ids generalizing draft with
  | nil =>
    cases run
    exact .refl _
  | cons id rest ih =>
    obtain ⟨next, first, others⟩ := foldlM_cons_eq_ok.mp run
    exact (each draft id next first).trans (ih others)

theorem encodeWithin_keeps (run : pool.encodeWithin revision depth draft id = .ok result) :
    draft.Keeps result := by
  induction depth generalizing draft id result with
  | zero => cases run
  | succ depth ih =>
    obtain ⟨below, node, same, _, again | new⟩ := encodeWithin_ok run
    · obtain ⟨number, _, rfl⟩ := again
      exact .refl draft
    · obtain rfl := Nat.succ.inj same
      obtain ⟨absent, _, inner, inside, rfl⟩ := new
      have kept : (draft.enter node id).Keeps inner :=
        keeps_foldlM (fun _ _ _ step => ih step) inside
      exact (Draft.keeps_enter absent).trans kept

theorem foldlM_encodeWithin_keeps {ids : List TypeId}
    (run : ids.foldlM (pool.encodeWithin revision depth) draft = .ok result) :
    draft.Keeps result := keeps_foldlM (fun _ _ _ step => encodeWithin_keeps step) run

theorem Descent.keeps (descent : pool.Descent revision depth draft id next child) :
    draft.Keeps next := by
  cases descent with
  | child found new supported split walked =>
    exact (Draft.keeps_enter new).trans (foldlM_encodeWithin_keeps walked)

/-- An edge from a node that the encoder goes into, since the node has no number. -/
def FreshEdge (pool : Pool) (draft : Draft) (parent child : TypeId) : Prop :=
  ∃ node, pool.node? parent = some node ∧ draft.numberOf? node parent = none ∧
    child ∈ node.children

theorem Descent.freshEdge (descent : pool.Descent revision depth draft id next child) :
    pool.FreshEdge draft id child := by
  cases descent with
  | child found new supported split walked => exact ⟨_, found, new, by simp [split]⟩

theorem FreshEdge.edge (fresh : pool.FreshEdge draft id child) : pool.Edge id child := by
  obtain ⟨node, found, _, member⟩ := fresh
  exact ⟨node, found, member⟩

theorem FreshEdge.before (kept : draft.Keeps next) (fresh : pool.FreshEdge next id child) :
    pool.FreshEdge draft id child := by
  obtain ⟨node, found, new, member⟩ := fresh
  exact ⟨node, found, kept.numberOf?_eq_none new, member⟩

theorem reaches_of_fresh {other : TypeId} (path : ReflTransGen (pool.FreshEdge draft) id other) :
    pool.Reaches id other :=
  ReflTransGen.mono (fun _ _ => FreshEdge.edge) _ _ path

end Steps

/-- What stands in the way of a revision below a handle, past nodes that have no number: a handle
that the pool does not have, or a node that the revision lacks. -/
inductive Blocked (pool : Pool) (revision : Revision) (draft : Draft) (id : TypeId) :
    Obstacle → Prop where
  | missing {other : TypeId} (path : ReflTransGen (pool.FreshEdge draft) id other)
      (missing : pool.node? other = none) :
      Blocked pool revision draft id (.interrupted (.fault (.outOfRange pool.size other.index)))
  | lacking {other : TypeId} {node : Node} (path : ReflTransGen (pool.FreshEdge draft) id other)
      (found : pool.node? other = some node) (new : draft.numberOf? node other = none)
      (lacking : revision.supports node = false) : Blocked pool revision draft id .unsupported

section Blocked

variable {pool : Pool} {revision : Revision} {depth : Nat} {draft next : Draft}
  {id child : TypeId} {obstacle : Obstacle}

theorem Blocked.head (kept : draft.Keeps next) (edge : pool.FreshEdge draft id child)
    (blocked : pool.Blocked revision next child obstacle) :
    pool.Blocked revision draft id obstacle := by
  have earlier {other : TypeId} (path : ReflTransGen (pool.FreshEdge next) child other) :
      ReflTransGen (pool.FreshEdge draft) id other :=
    .head edge (ReflTransGen.mono (fun _ _ => FreshEdge.before kept) _ _ path)
  cases blocked with
  | missing path missing => exact .missing (earlier path) missing
  | lacking path found new lacking =>
    exact .lacking (earlier path) found (kept.numberOf?_eq_none new) lacking

/-- The encoder gives up only where something stands in its way. -/
theorem blocked_of_encodeWithin
    (run : pool.encodeWithin revision depth draft id = .error obstacle)
    (ended : obstacle ≠ .interrupted .endless) : pool.Blocked revision draft id obstacle := by
  induction depth generalizing draft id with
  | zero => exact absurd (Except.error.inj run).symm ended
  | succ depth ih =>
    rcases encodeWithin_error run with ⟨empty, _⟩ | ⟨below, same, missing | lacking | down⟩
    · cases empty
    · obtain ⟨missing, rfl⟩ := missing
      exact .missing .refl missing
    · obtain ⟨node, found, new, lacking, rfl⟩ := lacking
      exact .lacking .refl found new lacking
    · obtain rfl := Nat.succ.inj same
      obtain ⟨next, child, descent, failed⟩ := down
      exact (ih failed).head descent.keeps descent.freshEdge

end Blocked

/-- Distinct pointers that have a number in the draft. -/
structure Opened (pool : Pool) (draft : Draft) (pointers : List TypeId) : Prop where
  nodup : pointers.Nodup
  pointer : ∀ id ∈ pointers, ∃ node, pool.node? id = some node ∧ node.kind = .pointer
  numbered : ∀ id ∈ pointers, draft.numbers.find? id ≠ none

section Depth

variable {pool : Pool} {revision : Revision} {depth : Nat} {draft result : Draft}
  {id : TypeId} {node : Node} {pointers passed : List TypeId}

theorem Opened.keeps (opened : pool.Opened draft pointers) (kept : draft.Keeps result) :
    pool.Opened result pointers := by
  refine ⟨opened.nodup, opened.pointer, fun id member => ?_⟩
  obtain ⟨number, given⟩ := Option.ne_none_iff_exists'.mp (opened.numbered id member)
  simp [kept id number given]

theorem Opened.length_le (opened : pool.Opened draft pointers) :
    pointers.length ≤ pool.pointerCount := by
  refine length_le_countP opened.nodup fun id member => ?_
  obtain ⟨node, found, pointer⟩ := opened.pointer id member
  exact ⟨node, found, decide_eq_true pointer⟩

/-- A pointer that is opened had no number before, so it is none of those that were opened. -/
theorem Opened.enter (opened : pool.Opened draft pointers) (found : pool.node? id = some node)
    (pointer : node.kind = .pointer) (new : draft.numberOf? node id = none) :
    pool.Opened (draft.enter node id) (id :: pointers) := by
  have numbered : node.isNumbered = true := by
    cases node <;> first | rfl | cases pointer
  have absent := draft.find?_eq_none_of_numberOf? numbered new
  have kept := opened.keeps (Draft.keeps_enter new)
  refine ⟨List.nodup_cons.mpr ⟨fun member => opened.numbered id member absent, kept.nodup⟩,
    ?_, ?_⟩
  · intro other member
    rcases List.mem_cons.mp member with rfl | earlier
    · exact ⟨node, found, pointer⟩
    · exact kept.pointer other earlier
  · intro other member
    rcases List.mem_cons.mp member with rfl | earlier
    · simp [Draft.enter, numbered, Substitutions.find?_insert]
    · exact kept.numbered other earlier

/-- A family of walks of the encoder that make progress: each keeps to the family on its way down,
and goes by an edge from every node but pointers, and no edges lead round in a circle. Edges stay
while the draft grows. -/
structure Progress (pool : Pool) (revision : Revision) (fine : Draft → TypeId → Prop)
    (edge : Draft → TypeId → TypeId → Prop) : Prop where
  widen : ∀ {draft next : Draft}, draft.Keeps next →
    ∀ first second, edge draft first second → edge next first second
  straight : ∀ {draft : Draft} {id : TypeId}, fine draft id → ¬ TransGen (edge draft) id id
  below : ∀ {depth : Nat} {draft next : Draft} {id child : TypeId}, fine draft id →
    pool.Descent revision depth draft id next child → fine next child
  down : ∀ {depth : Nat} {draft next : Draft} {id child : TypeId} {node : Node}, fine draft id →
    pool.Descent revision depth draft id next child → pool.node? id = some node →
    node.kind ≠ .pointer → edge next id child

variable {fine : Draft → TypeId → Prop} {edge : Draft → TypeId → TypeId → Prop}

/-- Every pointer that is not opened yet allows one more stretch of other nodes, which begins below
it, and a stretch passes each node of the pool at most once. -/
private theorem Progress.ne_endless_of_trail (progress : pool.Progress revision fine edge)
    (start : fine draft id) (opened : pool.Opened draft pointers)
    (trail : pool.Trail (edge draft) passed id)
    (budget : (pool.pointerCount - pointers.length) * (pool.size + 1) +
      (pool.size + 1 - passed.length) ≤ depth) :
    pool.encodeWithin revision depth draft id ≠ .error (.interrupted .endless) := by
  induction depth generalizing draft id pointers passed with
  | zero =>
    have short := trail.length_le
    omega
  | succ depth ih =>
    intro run
    rcases encodeWithin_error run with ⟨empty, _⟩ | ⟨below, same, missing | lacking | down⟩
    · cases empty
    · cases missing.2
    · obtain ⟨_, _, _, _, other⟩ := lacking
      cases other
    · obtain rfl := Nat.succ.inj same
      obtain ⟨next, child, descent, failed⟩ := down
      have lower := progress.below start descent
      have kept := descent.keeps
      cases descent with
      | @child node before after _ _ found new supported split walked =>
        have descent : pool.Descent revision depth draft id next child :=
          .child found new supported split walked
        by_cases pointer : node.kind = .pointer
        · have longer := (opened.enter found pointer new).keeps
            (foldlM_encodeWithin_keeps walked)
          have bound := longer.length_le
          refine ih lower longer (.start child) ?_ failed
          simp only [List.length_cons, List.length_nil] at bound ⊢
          obtain ⟨left, split⟩ := Nat.exists_eq_add_of_le bound
          have short := trail.length_le
          have before : pool.pointerCount - pointers.length = left + 1 := by omega
          have after : pool.pointerCount - (pointers.length + 1) = left := by omega
          rw [before, Nat.add_mul] at budget
          rw [after]
          omega
        · have here : pool.node? id ≠ none := by simp [found]
          have stretch := trail.stepInto (progress.widen kept) here (progress.straight start)
            (progress.down start descent found pointer)
          have short := stretch.length_le
          refine ih lower (opened.keeps kept) stretch ?_ failed
          simp only [List.length_cons] at short ⊢
          omega

theorem Progress.ne_endless (progress : pool.Progress revision fine edge) (start : fine draft id)
    (budget : (pool.pointerCount + 1) * (pool.size + 1) ≤ depth) :
    pool.encodeWithin revision depth draft id ≠ .error (.interrupted .endless) := by
  have none : pool.Opened draft [] := ⟨List.nodup_nil, by simp, by simp⟩
  apply progress.ne_endless_of_trail start none (.start id)
  simpa only [List.length_nil, Nat.sub_zero, Nat.succ_mul] using budget

theorem le_encodingDepth (pool : Pool) :
    (pool.pointerCount + 1) * (pool.size + 1) ≤ pool.encodingDepth :=
  Nat.mul_le_mul_right _ (Nat.succ_le_succ Array.countP_le_size)

/-- Where every cycle passes through a pointer, the edges from other nodes lead to no circle. -/
theorem progress_of_guarded (pool : Pool) (revision : Revision) :
    pool.Progress revision (fun _ => pool.Guarded) fun _ => pool.PlainEdge where
  widen _ _ _ edge := edge
  straight guarded := guarded.irrefl
  below guarded descent := guarded.below descent.freshEdge.edge
  down _ descent found plain := by
    obtain ⟨node, found', _, member⟩ := descent.freshEdge
    obtain rfl := Option.some.inj (found.symm.trans found')
    exact ⟨_, found, plain, member⟩

/-- The encoder ends wherever every cycle passes through a pointer. -/
theorem encode_ne_endless (guarded : pool.Guarded id) :
    pool.encode revision draft id ≠ .error (.interrupted .endless) :=
  (pool.progress_of_guarded revision).ne_endless guarded pool.le_encodingDepth

end Depth
end Pool
end SpirSymbol
