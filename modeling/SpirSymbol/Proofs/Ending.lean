import SpirSymbol.Proofs.Readable
import SpirSymbol.Proofs.Simulation
import SpirSymbol.Proofs.Walk

/-! Endings. What the encoder and the spelling give at some depth they give at every greater one,
and where they end at any depth at all, they end within the depth that a pool allows them: a walk
that comes round to a handle again where nothing new can stop it comes round for ever. -/
namespace SpirSymbol

/-- What the spelling of a type takes from a node: its children, and what is written around them. -/
def Node.reading (node : Node) : List TypeId × (String → String) :=
  (node.children, fun children => node.spell children)

namespace Pool

open Relation

variable {pool : Pool} {revision : Revision} {depth deeper : Nat} {draft next later result : Draft}
  {id child : TypeId} {node : Node} {before after ids seen : List TypeId} {obstacle : Obstacle}

/-- A handle that is held up after another one, and so on in a circle, is held up at every depth. -/
theorem stuck_of_circle {stuck : Nat → TypeId → Prop} (start : ∀ id, stuck 0 id)
    (circle : TransGen
      (fun first second => ∀ depth, stuck depth second → stuck (depth + 1) first) id id)
    (depth : Nat) : stuck depth id := by
  induction depth generalizing id with
  | zero => exact start id
  | succ depth ih =>
    obtain ⟨next, forces, path⟩ := TransGen.head'_iff.mp circle
    exact forces depth (ih (TransGen.tail' path forces))

section Encoding

theorem encodeWithin_settling (pool : Pool) (revision : Revision) (draft : Draft) (id : TypeId) :
    Settling (.interrupted .endless) fun depth => pool.encodeWithin revision depth draft id := by
  intro depth deeper order ended
  refine (encodeWithin_agrees_of_ended 0 ?_ rfl rfl order ended).eq.symm
  rintro draft _ id _ rfl rfl
  exact .inl (.refl pool revision draft id)

theorem encodeWithin_endless_of_split (found : pool.node? id = some node)
    (new : draft.numberOf? node id = none) (supported : revision.supports node = true)
    (split : node.children = before ++ child :: after)
    (stopped : before.foldlM (pool.encodeWithin revision depth) (draft.enter node id) =
        .error (.interrupted .endless) ∨
      ∃ next, before.foldlM (pool.encodeWithin revision depth) (draft.enter node id) = .ok next ∧
        pool.encodeWithin revision depth next child = .error (.interrupted .endless)) :
    pool.encodeWithin revision (depth + 1) draft id = .error (.interrupted .endless) := by
  rw [encodeWithin_enter found new supported, split, foldlM_eq_error_of_split stopped]
  rfl

theorem Descent.endless (descent : pool.Descent revision deeper draft id next child)
    (stuck : pool.encodeWithin revision depth next child = .error (.interrupted .endless)) :
    pool.encodeWithin revision (depth + 1) draft id = .error (.interrupted .endless) := by
  cases descent with
  | @child node before after _ _ found new supported split walked =>
    apply encodeWithin_endless_of_split found new supported split
    by_cases unended : before.foldlM (pool.encodeWithin revision depth) (draft.enter node id) =
      .error (.interrupted .endless)
    · exact .inl unended
    · have unended' : before.foldlM (pool.encodeWithin revision deeper) (draft.enter node id) ≠
          .error (.interrupted .endless) := by simp [walked]
      have same := (Settling.foldlM (pool.encodeWithin_settling revision) before _).unique unended
        unended'
      exact .inr ⟨next, same.trans walked, stuck⟩

theorem Descent.ended {enough : Nat} (descent : pool.Descent revision depth draft id next child)
    (ended : pool.encodeWithin revision enough draft id ≠ .error (.interrupted .endless)) :
    ∃ enough, pool.encodeWithin revision enough next child ≠ .error (.interrupted .endless) := by
  cases enough with
  | zero => exact absurd rfl ended
  | succ enough => exact ⟨enough, fun stuck => ended (descent.endless stuck)⟩

theorem Descent.lists (descent : pool.Descent revision depth draft id next child)
    (lists : draft.numbers.Lists seen) : ∃ seen, next.numbers.Lists seen := by
  cases descent with
  | child found new supported split walked =>
    have tours := tours_of_foldlM (fun _ _ _ => tours_of_encodeWithin) walked
    obtain ⟨_, last, _, lists', _⟩ := tours _ (Draft.lists_enter lists new)
    exact ⟨last, lists'⟩

/-- Whatever handles past fresh nodes lead to, a walk through them goes into or had met. -/
theorem Walk.enters_of_fresh {stops : List Stop} {last : List TypeId} {start : TypeId}
    (walk : pool.Walk seen ids stops last) (lists : draft.numbers.Lists seen)
    (listed : start ∈ ids) (path : ReflTransGen (pool.FreshEdge draft) start id) :
    pool.Numbered id ∧ id ∈ seen ∨ Stop.Enters stops id := by
  obtain ⟨starts, children⟩ := walk.covers
  induction path with
  | refl => exact starts start listed
  | tail _ edge ih =>
    obtain ⟨node, found, new, member⟩ := edge
    rcases ih with ⟨⟨node', found', numbered⟩, met⟩ | ⟨node', entered⟩
    · obtain rfl := Option.some.inj (found.symm.trans found')
      have absent := draft.find?_eq_none_of_numberOf? numbered new
      exact absurd met (lists.find?_eq_none_iff.mp absent)
    · obtain rfl := Option.some.inj (found.symm.trans (walk.reaches entered).1)
      exact children _ node entered _ member

/-- Where a run over handles has succeeded, nothing stands in the way of a later one. -/
theorem not_blocked (lists : draft.numbers.Lists seen)
    (run : ids.foldlM (pool.encodeWithin revision depth) draft = .ok result)
    (kept : draft.Keeps later) (listed : id ∈ ids) : ¬ pool.Blocked revision later id obstacle := by
  intro blocked
  have tours := tours_of_foldlM (fun _ _ _ => tours_of_encodeWithin) run
  obtain ⟨stops, last, walk, _, _, supports⟩ := tours seen lists
  have covers {other : TypeId} (path : ReflTransGen (pool.FreshEdge later) id other) :=
    walk.enters_of_fresh lists listed
      (ReflTransGen.mono (fun _ _ => FreshEdge.before kept) _ _ path)
  cases blocked with
  | missing path missing =>
    rcases covers path with ⟨⟨node, found, _⟩, _⟩ | ⟨node, entered⟩
    · rw [missing] at found
      cases found
    · have found := (walk.reaches entered).1
      rw [missing] at found
      cases found
  | lacking path found new lacking =>
    rcases covers path with ⟨⟨node, found', numbered⟩, met⟩ | ⟨node, entered⟩
    · obtain rfl := Option.some.inj (found.symm.trans found')
      have absent := draft.find?_eq_none_of_numberOf? numbered (kept.numberOf?_eq_none new)
      exact lists.find?_eq_none_iff.mp absent met
    · obtain rfl := Option.some.inj (found.symm.trans (walk.reaches entered).1)
      rw [supports _ _ entered] at lacking
      cases lacking

/-- However the draft has grown, a walk from the handle is endless. -/
def Stuck (pool : Pool) (revision : Revision) (draft : Draft) (depth : Nat) (id : TypeId) : Prop :=
  ∀ later, draft.Keeps later →
    pool.encodeWithin revision depth later id = .error (.interrupted .endless)

/-- Whenever walks from the second handle are endless, so are walks from the first that go one
step deeper, however the draft has grown. -/
def Forces (pool : Pool) (revision : Revision) (draft : Draft) (first second : TypeId) : Prop :=
  ∀ later, draft.Keeps later → ∀ depth, pool.Stuck revision later depth second →
    pool.Stuck revision later (depth + 1) first

theorem endless_of_forces (forced : TransGen (pool.Forces revision draft) id id) :
    pool.encodeWithin revision depth draft id = .error (.interrupted .endless) := by
  have stuck : pool.Stuck revision draft depth id := by
    refine stuck_of_circle (fun _ _ _ => rfl) ?_ depth
    exact TransGen.mono (fun _ _ forces => forces draft (.refl draft)) _ _ forced
  exact stuck draft (.refl draft)

/-- A node that gets no number is gone into again wherever it is met, and the way down from it is
open as long as it was. -/
theorem Descent.forces (descent : pool.Descent revision depth draft id next child)
    (lists : draft.numbers.Lists seen) (found : pool.node? id = some node)
    (plain : node.kind ≠ .pointer) : pool.Forces revision next id child := by
  have grown := descent.keeps
  cases descent with
  | @child node' before after _ _ found' new supported split walked =>
    obtain rfl := Option.some.inj (found.symm.trans found')
    have unnumbered : node.isNumbered = false := by
      cases node <;> simp_all [Node.isNumbered, Node.kind, Node.children]
    intro later kept depth stuck further kept'
    have again : further.numberOf? node id = none := by simp [Draft.numberOf?, unnumbered]
    apply encodeWithin_endless_of_split found again supported split
    cases reached : before.foldlM (pool.encodeWithin revision depth) (further.enter node id) with
    | ok last =>
      have longer := (Draft.keeps_enter again).trans (foldlM_encodeWithin_keeps reached)
      exact .inr ⟨last, rfl, stuck last (kept'.trans longer)⟩
    | error obstacle =>
      refine .inl (congrArg _ ?_)
      by_cases ended : obstacle = .interrupted .endless
      · exact ended
      · obtain ⟨earlier, sibling, _, reached', split', walked', failed⟩ :=
          exists_of_foldlM_eq_error reached
        have wider : (draft.enter node id).Keeps (further.enter node id) :=
          (grown.trans (kept.trans kept')).enter_plain unnumbered
        exact absurd (blocked_of_encodeWithin failed ended)
          (not_blocked (Draft.lists_enter lists new) walked
            (wider.trans (foldlM_encodeWithin_keeps walked')) (by simp [split']))

theorem progress_of_ended (pool : Pool) (revision : Revision) :
    pool.Progress revision (fun draft id => (∃ seen, draft.numbers.Lists seen) ∧
      ∃ enough, pool.encodeWithin revision enough draft id ≠ .error (.interrupted .endless))
      (pool.Forces revision) where
  widen kept _ _ forces later kept' := forces later (kept.trans kept')
  straight := by
    rintro draft id ⟨_, enough, ended⟩ circle
    exact ended (endless_of_forces circle)
  below := by
    rintro depth draft next id child ⟨⟨_, lists⟩, _, ended⟩ descent
    exact ⟨descent.lists lists, descent.ended ended⟩
  down := by
    rintro depth draft next id child node ⟨⟨_, lists⟩, _⟩ descent found plain
    exact descent.forces lists found plain

/-- A type that is encoded at any depth is encoded at the depth that the pool allows. -/
theorem encode_eq_of_ended (lists : draft.numbers.Lists seen)
    (ended : pool.encodeWithin revision depth draft id ≠ .error (.interrupted .endless)) :
    pool.encode revision draft id = pool.encodeWithin revision depth draft id := by
  have enough : pool.encode revision draft id ≠ .error (.interrupted .endless) :=
    (pool.progress_of_ended revision).ne_endless ⟨⟨_, lists⟩, _, ended⟩ pool.le_encodingDepth
  exact (pool.encodeWithin_settling revision draft id).unique enough ended

end Encoding

section Spelling

/-- A second pool of one size that has nodes with the same children and spelling under each handle,
or spells the handle alike if it is given `slack` more depth, copies every spelling that ends. -/
theorem readableWithin_copies {other : Pool} (slack : Nat) (size : pool.size = other.size)
    (copies : ∀ id, (pool.node? id).map Node.reading = (other.node? id).map Node.reading ∨
      ∀ depth deeper, depth + slack ≤ deeper →
        pool.readableWithin (depth + 1) id ≠ .error .endless →
        other.readableWithin (deeper + 1) id = pool.readableWithin (depth + 1) id)
    (order : depth + slack ≤ deeper) (ended : pool.readableWithin depth id ≠ .error .endless) :
    other.readableWithin deeper id = pool.readableWithin depth id := by
  induction depth generalizing deeper id with
  | zero => exact absurd rfl ended
  | succ depth ih =>
    obtain ⟨deeper, rfl⟩ : ∃ below, deeper = below + 1 := ⟨deeper - 1, by omega⟩
    have order : depth + slack ≤ deeper := by omega
    rcases copies id with same | copied
    · cases found : pool.node? id with
      | none =>
        rw [found, Option.map_none, eq_comm, Option.map_eq_none_iff] at same
        rw [readableWithin_missing found, readableWithin_missing same, size]
      | some node =>
        rw [found, Option.map_some, eq_comm, Option.map_eq_some_iff] at same
        obtain ⟨node', found', same⟩ := same
        obtain ⟨children, spelled⟩ := Prod.mk.inj same
        have inside : node.children.mapM (pool.readableWithin depth) ≠ .error .endless :=
          fun stopped => ended (readableWithin_stopped found stopped)
        have copied := mapM_eq_of_ne (fun _ => ih order) inside
        cases taken : node.children.mapM (pool.readableWithin depth) with
        | error cause =>
          rw [readableWithin_stopped found taken,
            readableWithin_stopped found' (children ▸ copied.trans taken)]
        | ok texts =>
          rw [readableWithin_spelled found taken,
            readableWithin_spelled found' (children ▸ copied.trans taken), congrFun spelled]
    · exact copied depth deeper order ended

theorem readableWithin_settling (pool : Pool) (id : TypeId) :
    Settling .endless fun depth => pool.readableWithin depth id :=
  fun _ _ order => readableWithin_copies 0 rfl (fun _ => .inl rfl) order

theorem readableWithin_endless_of_split {texts : List String} (found : pool.node? id = some node)
    (split : node.children = before ++ child :: after)
    (taken : before.mapM (pool.readableWithin deeper) = .ok texts)
    (stuck : pool.readableWithin depth child = .error .endless) :
    pool.readableWithin (depth + 1) id = .error .endless := by
  have stopped : node.children.mapM (pool.readableWithin depth) = .error .endless := by
    rw [split]
    by_cases unended : before.mapM (pool.readableWithin depth) = .error .endless
    · rw [List.mapM_append, unended]
      rfl
    · have unended' : before.mapM (pool.readableWithin deeper) ≠ .error .endless := by
        simp [taken]
      have same := (Settling.mapM pool.readableWithin_settling before).unique unended unended'
      exact mapM_eq_error_of_split (same.trans taken) stuck
  exact readableWithin_stopped found stopped

theorem readable_eq_of_ended (ended : pool.readableWithin depth id ≠ .error .endless) :
    pool.readable id = pool.readableWithin depth id := by
  have enough : pool.readable id ≠ .error .endless := by
    refine ne_endless_of_descent pool.readableWithin (fun id => id)
      (fun first second => ∀ depth, pool.readableWithin depth second = .error .endless →
        pool.readableWithin (depth + 1) first = .error .endless)
      (fun id => ∃ enough, pool.readableWithin enough id ≠ .error .endless)
      ?_ ?_ ⟨depth, ended⟩ (.start id) (Nat.le_refl _)
    · rintro depth id ⟨enough, ended⟩ run
      rcases readableWithin_error run with ⟨empty, _⟩ | ⟨below, same, ⟨_, other⟩ | down⟩
      · exact .inl empty
      · cases other
      · obtain ⟨node, before, child, after, texts, found, split, taken, failed⟩ := down
        have forces (depth : Nat) (stuck : pool.readableWithin depth child = .error .endless) :
            pool.readableWithin (depth + 1) id = .error .endless :=
          readableWithin_endless_of_split found split taken stuck
        refine .inr ⟨below, child, same, by simp [found], forces, ?_, failed⟩
        cases enough with
        | zero => exact absurd rfl ended
        | succ enough => exact ⟨enough, fun stuck => ended (forces enough stuck)⟩
    · rintro id ⟨enough, ended⟩ circle
      exact ended (stuck_of_circle (fun _ => rfl) circle enough)
  exact (pool.readableWithin_settling id).unique enough ended

end Spelling
end Pool
end SpirSymbol
