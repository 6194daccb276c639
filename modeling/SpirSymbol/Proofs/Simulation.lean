import SpirSymbol.Proofs.Encoding

/-! Simulation of two runs of the encoder, each in its own pool. Where the runs stand at linked
handles and in related drafts, each does at its node what the other does at its own, and they stand
so again at the children; then they fail alike, or end in related drafts. -/
namespace SpirSymbol.Pool

variable {pool other : Pool} {revision : Revision} {linked : TypeId → TypeId → Prop}
  {related : Draft → Draft → Prop} {draft draft' : Draft} {id id' : TypeId}

/-- Both handles are missing alike, both nodes have numbers, or both nodes are gone into. -/
inductive Meets (pool other : Pool) (revision : Revision) (linked : TypeId → TypeId → Prop)
    (related : Draft → Draft → Prop) (draft draft' : Draft) (id id' : TypeId) : Prop where
  | missing (gone : pool.node? id = none) (gone' : other.node? id' = none)
      (size : pool.size = other.size) (index : id.index = id'.index) :
      Meets pool other revision linked related draft draft' id id'
  | again {node node' : Node} {number number' : Nat} (found : pool.node? id = some node)
      (found' : other.node? id' = some node') (place : draft.numberOf? node id = some number)
      (place' : draft'.numberOf? node' id' = some number')
      (written : related (draft.write [.again number]) (draft'.write [.again number'])) :
      Meets pool other revision linked related draft draft' id id'
  | enter {node node' : Node} (found : pool.node? id = some node)
      (found' : other.node? id' = some node') (new : draft.numberOf? node id = none)
      (new' : draft'.numberOf? node' id' = none)
      (judged : revision.supports node = revision.supports node')
      (children : List.Forall₂ linked node.children node'.children)
      (entered : related (draft.enter node id) (draft'.enter node' id'))
      (closed : ∀ inner inner', related inner inner' →
        related (inner.write node.closing) (inner'.write node'.closing)) :
      Meets pool other revision linked related draft draft' id id'

/-- What a step does where the handles are met alike: the runs agree, or each goes through the
children of its node and closes it. -/
theorem Meets.step (meets : Meets pool other revision linked related draft draft' id id') :
    (∀ depth deeper, Agrees related (pool.encodeWithin revision (depth + 1) draft id)
      (other.encodeWithin revision (deeper + 1) draft' id')) ∨
    ∃ node node' : Node, List.Forall₂ linked node.children node'.children ∧
      related (draft.enter node id) (draft'.enter node' id') ∧
      (∀ inner inner', related inner inner' →
        related (inner.write node.closing) (inner'.write node'.closing)) ∧
      (∀ depth, pool.encodeWithin revision (depth + 1) draft id =
        (node.children.foldlM (pool.encodeWithin revision depth) (draft.enter node id)).map
          (·.write node.closing)) ∧
      ∀ depth, other.encodeWithin revision (depth + 1) draft' id' =
        (node'.children.foldlM (other.encodeWithin revision depth) (draft'.enter node' id')).map
          (·.write node'.closing) := by
  cases meets with
  | missing gone gone' size index =>
    refine .inl fun _ _ => ?_
    rw [encodeWithin_missing gone, encodeWithin_missing gone', size, index]
    exact .error _
  | again found found' place place' written =>
    refine .inl fun _ _ => ?_
    rw [encodeWithin_again found place, encodeWithin_again found' place']
    exact .ok written
  | @enter node node' found found' new new' judged children entered closed =>
    cases supported : revision.supports node with
    | false =>
      refine .inl fun _ _ => ?_
      rw [encodeWithin_lacking found new supported,
        encodeWithin_lacking found' new' (judged ▸ supported)]
      exact .error _
    | true =>
      exact .inr ⟨node, node', children, entered, closed,
        fun _ => encodeWithin_enter found new supported,
        fun _ => encodeWithin_enter found' new' (judged ▸ supported)⟩

theorem encodeWithin_agrees (depth : Nat)
    (meets : ∀ draft draft' id id', related draft draft' → linked id id' →
      Meets pool other revision linked related draft draft' id id')
    (here : related draft draft') (link : linked id id') :
    Agrees related (pool.encodeWithin revision depth draft id)
      (other.encodeWithin revision depth draft' id') := by
  induction depth generalizing draft draft' id id' with
  | zero => exact .error _
  | succ depth ih =>
    rcases (meets draft draft' id id' here link).step with
      agrees | ⟨_, _, children, entered, closed, first, second⟩
    · exact agrees depth depth
    · rw [first, second]
      exact (Agrees.foldlM children (fun _ _ _ _ => ih) entered).map closed

/-- A first run that ends agrees with a second one that may go `slack` nodes deeper, where some
nodes are not met alike but are written alike if the second run has this much more depth. -/
theorem encodeWithin_agrees_of_ended (slack : Nat)
    (meets : ∀ draft draft' id id', related draft draft' → linked id id' →
      Meets pool other revision linked related draft draft' id id' ∨
      ∀ depth deeper, depth + slack ≤ deeper →
        pool.encodeWithin revision (depth + 1) draft id ≠ .error (.interrupted .endless) →
        Agrees related (pool.encodeWithin revision (depth + 1) draft id)
          (other.encodeWithin revision (deeper + 1) draft' id'))
    (here : related draft draft') (link : linked id id') {depth deeper : Nat}
    (order : depth + slack ≤ deeper)
    (ended : pool.encodeWithin revision depth draft id ≠ .error (.interrupted .endless)) :
    Agrees related (pool.encodeWithin revision depth draft id)
      (other.encodeWithin revision deeper draft' id') := by
  induction depth generalizing deeper draft draft' id id' with
  | zero => exact absurd rfl ended
  | succ depth ih =>
    obtain ⟨deeper, rfl⟩ : ∃ below, deeper = below + 1 := ⟨deeper - 1, by omega⟩
    have order : depth + slack ≤ deeper := by omega
    rcases meets draft draft' id id' here link with met | alike
    · rcases met.step with agrees | ⟨node, _, children, entered, closed, first, second⟩
      · exact agrees depth deeper
      · have inside : node.children.foldlM (pool.encodeWithin revision depth)
            (draft.enter node id) ≠ .error (.interrupted .endless) := by
          intro stopped
          rw [first, stopped] at ended
          exact ended rfl
        rw [first, second]
        refine Agrees.map (Agrees.foldlM_of_ne children ?_ entered inside) closed
        exact fun _ _ _ _ here link => ih here link order
    · exact alike depth deeper order ended

theorem Meets.refl (pool : Pool) (revision : Revision) (draft : Draft) (id : TypeId) :
    Meets pool pool revision Eq Eq draft draft id id := by
  cases found : pool.node? id with
  | none => exact .missing found found rfl rfl
  | some node =>
    cases number : draft.numberOf? node id with
    | some _ => exact .again found found number number rfl
    | none =>
      exact .enter found found number number rfl (List.forall₂_refl _) rfl
        fun _ _ same => congrArg (Draft.write · node.closing) same

end SpirSymbol.Pool
