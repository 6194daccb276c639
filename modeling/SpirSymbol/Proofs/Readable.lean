import SpirSymbol.Pool.Readable
import SpirSymbol.Proofs.Graph
import SpirSymbol.Proofs.Sequence

namespace SpirSymbol.Pool

variable {pool : Pool} {depth : Nat} {id : TypeId} {cause : Interruption}

theorem readableWithin_missing (missing : pool.node? id = none) :
    pool.readableWithin (depth + 1) id = .error (.fault (.outOfRange pool.size id.index)) := by
  simp only [readableWithin, node_eq_error_iff.mpr ⟨missing, rfl⟩]

theorem readableWithin_spelled {node : Node} {texts : List String}
    (found : pool.node? id = some node)
    (spelled : node.children.mapM (pool.readableWithin depth) = .ok texts) :
    pool.readableWithin (depth + 1) id = .ok (node.spell (", ".intercalate texts)) := by
  simp only [readableWithin, node_eq_ok_iff.mpr found, spelled]
  rfl

theorem readableWithin_stopped {node : Node} (found : pool.node? id = some node)
    (stopped : node.children.mapM (pool.readableWithin depth) = .error cause) :
    pool.readableWithin (depth + 1) id = .error cause := by
  simp only [readableWithin, node_eq_ok_iff.mpr found, stopped]
  rfl

/-- Spelling that succeeds finds the node and has spelled its children. -/
theorem readableWithin_ok {text : String} (run : pool.readableWithin depth id = .ok text) :
    ∃ below node texts, depth = below + 1 ∧ pool.node? id = some node ∧
      node.children.mapM (pool.readableWithin below) = .ok texts ∧
      node.spell (", ".intercalate texts) = text := by
  cases depth with
  | zero => cases run
  | succ below =>
    simp only [readableWithin] at run
    cases look : pool.node id with
    | error fault =>
      rw [look] at run
      cases run
    | ok node =>
      simp only [look] at run
      cases inside : node.children.mapM (pool.readableWithin below) with
      | error cause =>
        rw [inside] at run
        cases run
      | ok texts =>
        rw [inside] at run
        exact ⟨below, node, texts, rfl, node_eq_ok_iff.mp look, inside, Except.ok.inj run⟩

/-- Spelling that fails has no depth left, misses the node, or fails in a child after it has spelled
the children before. -/
theorem readableWithin_error (run : pool.readableWithin depth id = .error cause) :
    (depth = 0 ∧ cause = .endless) ∨
      ∃ below, depth = below + 1 ∧
        ((pool.node? id = none ∧ cause = .fault (.outOfRange pool.size id.index)) ∨
          ∃ node before child after texts, pool.node? id = some node ∧
            node.children = before ++ child :: after ∧
            before.mapM (pool.readableWithin below) = .ok texts ∧
            pool.readableWithin below child = .error cause) := by
  cases depth with
  | zero => exact .inl ⟨rfl, (Except.error.inj run).symm⟩
  | succ below =>
    refine .inr ⟨below, rfl, ?_⟩
    simp only [readableWithin] at run
    cases look : pool.node id with
    | error fault =>
      rw [look] at run
      obtain ⟨missing, rfl⟩ := node_eq_error_iff.mp look
      exact .inl ⟨missing, (Except.error.inj run).symm⟩
    | ok node =>
      simp only [look] at run
      cases inside : node.children.mapM (pool.readableWithin below) with
      | ok children =>
        rw [inside] at run
        cases run
      | error other =>
        rw [inside] at run
        obtain rfl := Except.error.inj run
        obtain ⟨before, child, after, texts, split, taken, failed⟩ := exists_of_mapM_eq_error inside
        exact .inr ⟨node, before, child, after, texts, node_eq_ok_iff.mp look, split, taken, failed⟩

theorem readable_ne_endless (acyclic : pool.Acyclic id) : pool.readable id ≠ .error .endless := by
  refine ne_endless_of_descent pool.readableWithin (fun id => id) pool.Edge pool.Acyclic ?_
    (fun _ acyclic => acyclic.irrefl) acyclic (.start id) (Nat.le_refl _)
  intro depth id acyclic run
  rcases readableWithin_error run with ⟨empty, _⟩ | ⟨below, same, ⟨_, other⟩ | down⟩
  · exact .inl empty
  · cases other
  · obtain ⟨node, before, child, after, _, found, split, _, failed⟩ := down
    have edge : pool.Edge id child := edge_of_mem found (by simp [split])
    exact .inr ⟨below, child, same, edge.node?_ne_none, edge, acyclic.below edge, failed⟩

theorem missing_of_readableWithin (run : pool.readableWithin depth id = .error cause)
    (ended : cause ≠ .endless) :
    ∃ other, pool.Reaches id other ∧ pool.node? other = none ∧
      cause = .fault (.outOfRange pool.size other.index) := by
  induction depth generalizing id with
  | zero => exact absurd (Except.error.inj run).symm ended
  | succ depth ih =>
    rcases readableWithin_error run with ⟨empty, _⟩ | ⟨below, same, missing | down⟩
    · cases empty
    · exact ⟨id, .refl id, missing⟩
    · obtain rfl := Nat.succ.inj same
      obtain ⟨node, before, child, after, _, found, split, _, failed⟩ := down
      obtain ⟨other, path, missing⟩ := ih failed
      exact ⟨other, path.head (edge_of_mem found (by simp [split])), missing⟩

theorem closed_of_readableWithin {text : String} (run : pool.readableWithin depth id = .ok text) :
    pool.Closed id := by
  induction depth generalizing id text with
  | zero => cases run
  | succ depth ih =>
    obtain ⟨below, node, texts, same, found, taken, _⟩ := readableWithin_ok run
    obtain rfl := Nat.succ.inj same
    intro other path
    rcases Relation.ReflTransGen.cases_head path with rfl | ⟨child, ⟨node', found', member⟩, rest⟩
    · simp [found]
    · obtain rfl := Option.some.inj (found.symm.trans found')
      obtain ⟨_, spelled⟩ := exists_of_mapM_eq_ok taken child member
      exact ih spelled other rest

/-- A type without cycles whose handles are all in the pool has a spelling. -/
theorem exists_readable (acyclic : pool.Acyclic id) (closed : pool.Closed id) :
    ∃ text, pool.readable id = .ok text := by
  cases spelled : pool.readable id with
  | ok text => exact ⟨text, rfl⟩
  | error cause =>
    have ended : cause ≠ .endless := by
      intro same
      subst same
      exact readable_ne_endless acyclic spelled
    obtain ⟨other, path, missing, _⟩ := missing_of_readableWithin spelled ended
    exact absurd missing (closed other path)

end SpirSymbol.Pool
