import SpirSymbol.Proofs.Graph
import SpirSymbol.Proofs.Sequence
import SpirSymbol.Symbol

namespace SpirSymbol

/-- The tokens of a type with every node in full, going down at most `depth` nodes. -/
def Pool.plainWithin (pool : Pool) (revision : Revision) :
    Nat → TypeId → Except Obstacle (List Token)
  | 0, _ => .error (.interrupted .endless)
  | depth + 1, id =>
    match pool.node id with
    | .error fault => .error (.interrupted (.fault fault))
    | .ok node =>
      if revision.supports node then
        (node.children.mapM (pool.plainWithin revision depth)).map fun parts =>
          node.opening ++ parts.flatten ++ node.closing
      else .error .unsupported

/-- The tokens of a type with every node in full. -/
def Pool.plain (pool : Pool) (revision : Revision) (id : TypeId) : Except Obstacle (List Token) :=
  pool.plainWithin revision pool.encodingDepth id

def Pool.plainParam (pool : Pool) (revision : Revision) (param : TypeId) :
    Except Failure (List Token) :=
  (pool.plain revision param).mapError (pool.failure revision param)

/-- The symbol of a prototype with every node in full. -/
def Prototype.plainSymbol (prototype : Prototype) (pool : Pool) (revision : Revision) :
    Except Failure Symbol :=
  if prototype.isNull then .error (.rejected .nullPrototype)
  else (prototype.params.mapM (pool.plainParam revision)).map fun parts =>
    ⟨prototype.name, parts.flatten⟩

def Prototype.plainMangle (prototype : Prototype) (pool : Pool) (revision : Revision) :
    Except Failure String :=
  (prototype.plainSymbol pool revision).map Symbol.text

namespace Pool

variable {pool : Pool} {revision : Revision} {id : TypeId} {node : Node} {depth more : Nat}
  {passed : List TypeId}

/-- What is written in full has its node in the pool, and its children are written in full. -/
theorem plainWithin_ok {tokens : List Token}
    (run : pool.plainWithin revision depth id = .ok tokens) :
    ∃ below node parts, depth = below + 1 ∧ pool.node? id = some node ∧
      node.children.mapM (pool.plainWithin revision below) = .ok parts := by
  cases depth with
  | zero => cases run
  | succ below =>
    simp only [plainWithin] at run
    cases look : pool.node id with
    | error fault =>
      rw [look] at run
      cases run
    | ok node =>
      simp only [look] at run
      split at run
      · cases inside : node.children.mapM (pool.plainWithin revision below) with
        | error obstacle =>
          rw [inside] at run
          cases run
        | ok parts => exact ⟨below, node, parts, rfl, node_eq_ok_iff.mp look, inside⟩
      · cases run

theorem plainWithin_interrupted {cause : Interruption}
    (run : pool.plainWithin revision depth id = .error (.interrupted cause)) :
    (depth = 0 ∧ cause = .endless) ∨
      ∃ below, depth = below + 1 ∧
        ((pool.node? id = none ∧ cause = .fault (.outOfRange pool.size id.index)) ∨
          ∃ node before child after parts, pool.node? id = some node ∧
            node.children = before ++ child :: after ∧
            before.mapM (pool.plainWithin revision below) = .ok parts ∧
            pool.plainWithin revision below child = .error (.interrupted cause)) := by
  cases depth with
  | zero =>
    cases run
    exact .inl ⟨rfl, rfl⟩
  | succ below =>
    refine .inr ⟨below, rfl, ?_⟩
    simp only [plainWithin] at run
    cases look : pool.node id with
    | error fault =>
      rw [look] at run
      cases run
      obtain ⟨missing, rfl⟩ := node_eq_error_iff.mp look
      exact .inl ⟨missing, rfl⟩
    | ok node =>
      simp only [look] at run
      split at run
      · cases inside : node.children.mapM (pool.plainWithin revision below) with
        | error obstacle =>
          rw [inside] at run
          cases run
          obtain ⟨before, child, after, parts, split, written, stopped⟩ :=
            exists_of_mapM_eq_error inside
          exact .inr ⟨node, before, child, after, parts, node_eq_ok_iff.mp look, split, written,
            stopped⟩
        | ok parts =>
          rw [inside] at run
          cases run
      · cases run

/-- Where there is no cycle, depth beyond what a way down can take changes nothing. -/
theorem plainWithin_congr (acyclic : pool.Acyclic id) (trail : pool.Trail pool.Edge passed id)
    (enough : pool.size + 1 - passed.length ≤ depth)
    (ample : pool.size + 1 - passed.length ≤ more) :
    pool.plainWithin revision depth id = pool.plainWithin revision more id := by
  induction depth generalizing more id passed with
  | zero =>
    have short := trail.length_le
    omega
  | succ depth ih =>
    cases more with
    | zero =>
      have short := trail.length_le
      omega
    | succ more =>
      cases look : pool.node id with
      | error fault => simp only [plainWithin, look]
      | ok node =>
        have found := node_eq_ok_iff.mp look
        have children : node.children.mapM (pool.plainWithin revision depth) =
            node.children.mapM (pool.plainWithin revision more) := by
          apply mapM_congr_left
          intro child member
          have edge := edge_of_mem found member
          have here : pool.node? id ≠ none := by simp [found]
          have longer := trail.step here acyclic.irrefl edge
          apply ih (acyclic.below edge) longer
          · simp only [List.length_cons]
            omega
          · simp only [List.length_cons]
            omega
        simp only [plainWithin, look, children]

private theorem exists_encodingDepth (pool : Pool) :
    ∃ depth, pool.encodingDepth = depth + 1 ∧ pool.size ≤ depth := by
  refine ⟨pool.size * (pool.size + 1) + pool.size, ?_, Nat.le_add_left _ _⟩
  rw [encodingDepth, Nat.succ_mul, Nat.add_assoc]

theorem plain_of_missing (missing : pool.node? id = none) :
    pool.plain revision id =
      .error (.interrupted (.fault (.outOfRange pool.size id.index))) := by
  obtain ⟨depth, deep, _⟩ := exists_encodingDepth pool
  have look := node_eq_error_iff.mpr ⟨missing, rfl⟩
  simp only [plain, deep, plainWithin, look]

theorem plain_of_lacking (found : pool.node? id = some node)
    (lacking : revision.supports node = false) : pool.plain revision id = .error .unsupported := by
  obtain ⟨depth, deep, _⟩ := exists_encodingDepth pool
  have look := node_eq_ok_iff.mpr found
  simp only [plain, deep, plainWithin, look, lacking, Bool.false_eq_true, ↓reduceIte]

theorem plain_of_supported (acyclic : pool.Acyclic id) (found : pool.node? id = some node)
    (supported : revision.supports node = true) :
    pool.plain revision id = (node.children.mapM (pool.plain revision)).map fun parts =>
      node.opening ++ parts.flatten ++ node.closing := by
  obtain ⟨depth, deep, wide⟩ := exists_encodingDepth pool
  have look := node_eq_ok_iff.mpr found
  have children : node.children.mapM (pool.plainWithin revision depth) =
      node.children.mapM (pool.plain revision) := by
    apply mapM_congr_left
    intro child member
    have edge := edge_of_mem found member
    have here : pool.node? id ≠ none := by simp [found]
    have trail := (Trail.start id).step here acyclic.irrefl edge
    apply plainWithin_congr (acyclic.below edge) trail
    · simpa using wide
    · rw [deep]
      exact Nat.le_succ_of_le (by simpa using wide)
  rw [← children]
  simp only [plain, deep, plainWithin, look, supported, ↓reduceIte]

end Pool

theorem Prototype.plainMangle_eq_map {prototype : Prototype} {pool : Pool} {revision : Revision}
    (named : prototype.isNull = false) :
    prototype.plainMangle pool revision =
      (prototype.params.mapM (pool.plainParam revision)).map fun parts =>
        Symbol.text ⟨prototype.name, parts.flatten⟩ := by
  cases run : prototype.params.mapM (pool.plainParam revision) <;>
    simp [plainMangle, plainSymbol, named, run, Except.map]

end SpirSymbol
