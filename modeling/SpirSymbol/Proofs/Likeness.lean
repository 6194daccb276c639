import SpirSymbol.Pool.Likeness
import SpirSymbol.Proofs.Graph

namespace SpirSymbol.Pool

variable {pool : Pool} {depth : Nat} {left right : TypeId} {lefts rights : List TypeId}
  {cause : Interruption}

theorem exists_of_alikeEach_eq_error {ε : Type} {alike : TypeId → TypeId → Except ε Bool}
    {cause : ε} (failed : alikeEach alike lefts rights = .error cause) :
    ∃ left ∈ lefts, ∃ right ∈ rights, alike left right = .error cause := by
  fun_induction alikeEach alike lefts rights with
  | case1 left lefts right rights same ih =>
    obtain ⟨first, listed, second, listed', failed⟩ := ih failed
    exact ⟨first, List.mem_cons_of_mem _ listed, second, List.mem_cons_of_mem _ listed', failed⟩
  | case2 left lefts right rights =>
    exact ⟨left, List.mem_cons_self, right, List.mem_cons_self, failed⟩
  | case3 => cases failed

theorem alikeWithin_error (run : pool.alikeWithin depth left right = .error cause) :
    (depth = 0 ∧ cause = .endless) ∨
      ∃ below, depth = below + 1 ∧
        ((∃ id, (id = left ∨ id = right) ∧ pool.node? id = none ∧
            cause = .fault (.outOfRange pool.size id.index)) ∨
          ∃ child child', pool.Edge left child ∧ pool.Edge right child' ∧
            pool.alikeWithin below child child' = .error cause) := by
  cases depth with
  | zero => exact .inl ⟨rfl, (Except.error.inj run).symm⟩
  | succ below =>
    refine .inr ⟨below, rfl, ?_⟩
    simp only [alikeWithin] at run
    split at run
    · cases run
    cases look : pool.node left with
    | error fault =>
      rw [look] at run
      obtain ⟨missing, rfl⟩ := node_eq_error_iff.mp look
      exact .inl ⟨left, .inl rfl, missing, (Except.error.inj run).symm⟩
    | ok node =>
      cases look' : pool.node right with
      | error fault =>
        simp only [look, look'] at run
        obtain ⟨missing, rfl⟩ := node_eq_error_iff.mp look'
        exact .inl ⟨right, .inr rfl, missing, (Except.error.inj run).symm⟩
      | ok other =>
        simp only [look, look'] at run
        split at run
        · obtain ⟨child, listed, child', listed', failed⟩ := exists_of_alikeEach_eq_error run
          exact .inr ⟨child, child', edge_of_mem (node_eq_ok_iff.mp look) listed,
            edge_of_mem (node_eq_ok_iff.mp look') listed', failed⟩
        · cases run

private theorem alike_ne_endless_of_place (place : TypeId × TypeId → TypeId)
    (down : ∀ pair next, pool.Edge pair.1 next.1 → pool.Edge pair.2 next.2 →
      pool.Edge (place pair) (place next))
    (acyclic : pool.Acyclic (place (left, right))) :
    pool.alike left right ≠ .error .endless := by
  have enough : pool.size + 1 ≤ pool.size * pool.size + 1 :=
    Nat.succ_le_succ (Nat.le_mul_self _)
  refine ne_endless_of_descent (fun depth pair => pool.alikeWithin depth pair.1 pair.2) place
    pool.Edge (fun pair => pool.Acyclic (place pair)) ?_ (fun _ acyclic => acyclic.irrefl) acyclic
    (.start _) enough
  intro depth pair acyclic run
  rcases alikeWithin_error run with ⟨empty, _⟩ | ⟨below, same, missing | below'⟩
  · exact .inl empty
  · obtain ⟨_, _, _, other⟩ := missing
    cases other
  · obtain ⟨child, child', edge, edge', failed⟩ := below'
    have step := down pair (child, child') edge edge'
    exact .inr ⟨below, (child, child'), same, step.node?_ne_none, step, acyclic.below step, failed⟩

theorem alike_ne_endless (acyclic : pool.Acyclic left ∨ pool.Acyclic right) :
    pool.alike left right ≠ .error .endless := by
  rcases acyclic with here | here
  · exact alike_ne_endless_of_place Prod.fst (fun _ _ edge _ => edge) here
  · exact alike_ne_endless_of_place Prod.snd (fun _ _ _ edge => edge) here

theorem missing_of_alikeWithin (run : pool.alikeWithin depth left right = .error cause)
    (ended : cause ≠ .endless) :
    ∃ other, (pool.Reaches left other ∨ pool.Reaches right other) ∧ pool.node? other = none ∧
      cause = .fault (.outOfRange pool.size other.index) := by
  induction depth generalizing left right with
  | zero => exact absurd (Except.error.inj run).symm ended
  | succ depth ih =>
    rcases alikeWithin_error run with ⟨empty, _⟩ | ⟨below, same, missing | down⟩
    · cases empty
    · obtain ⟨id, rfl | rfl, missing⟩ := missing
      · exact ⟨id, .inl (.refl id), missing⟩
      · exact ⟨id, .inr (.refl id), missing⟩
    · obtain rfl := Nat.succ.inj same
      obtain ⟨child, child', edge, edge', failed⟩ := down
      obtain ⟨other, path, missing⟩ := ih failed
      exact ⟨other, path.imp (·.head edge) (·.head edge'), missing⟩

/-- Two types whose handles are all in the pool are alike or not, if one of them has no cycle. -/
theorem exists_alike (acyclic : pool.Acyclic left ∨ pool.Acyclic right)
    (closed : pool.Closed left) (closed' : pool.Closed right) :
    ∃ answer, pool.alike left right = .ok answer := by
  cases compared : pool.alike left right with
  | ok answer => exact ⟨answer, rfl⟩
  | error cause =>
    have ended : cause ≠ .endless := by
      intro same
      subst same
      exact alike_ne_endless acyclic compared
    obtain ⟨other, path, missing, _⟩ := missing_of_alikeWithin compared ended
    rcases path with path | path
    · exact absurd missing (closed other path)
    · exact absurd missing (closed' other path)

end SpirSymbol.Pool
