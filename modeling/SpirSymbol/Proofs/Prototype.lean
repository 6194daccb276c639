import SpirSymbol.Proofs.Readable
import SpirSymbol.Proofs.Walk

namespace SpirSymbol

variable {pool : Pool} {revision : Revision} {draft result : Draft} {params : List TypeId}
  {param : TypeId} {prototype : Prototype} {failure : Failure}

theorem Pool.tours_of_params (run : params.foldlM (pool.encodeParam revision) draft = .ok result) :
    pool.Tours revision draft params result := by
  induction params generalizing draft with
  | nil =>
    cases run
    exact .nil
  | cons param rest ih =>
    obtain ⟨next, first, others⟩ := foldlM_cons_eq_ok.mp run
    exact (tours_of_encodeWithin (encodeParam_eq_ok_iff.mp first)).cons (ih others)

/-- A run over parameters that begins without numbers is one walk through all of them. -/
theorem Pool.walk_of_params (run : params.foldlM (pool.encodeParam revision) ∅ = .ok result) :
    ∃ stops last, pool.Walk [] params stops last ∧ result.numbers.Lists last ∧
      result.tokens.toList = stops.flatMap Stop.tokens ∧
      ∀ id node, .enter id node ∈ stops → revision.supports node = true := by
  obtain ⟨stops, last, walk, lists, tokens, supported⟩ := tours_of_params run [] .empty
  exact ⟨stops, last, walk, lists, by simpa using tokens, supported⟩

theorem Prototype.named_of_failure (failed : prototype.mangle pool revision = .error failure)
    (other : failure ≠ .rejected .nullPrototype) : prototype.isNull = false := by
  cases null : prototype.isNull with
  | false => rfl
  | true =>
    simp only [mangle, symbol, null, ↓reduceIte] at failed
    exact absurd (Except.error.inj failed).symm other

/-- The parameters before the one that a prototype fails in have been walked. -/
theorem Prototype.exists_of_mangle_eq_error (named : prototype.isNull = false)
    (failed : prototype.mangle pool revision = .error failure) :
    ∃ before param after draft obstacle, prototype.params = before ++ param :: after ∧
      before.foldlM (pool.encodeParam revision) ∅ = .ok draft ∧
      pool.encode revision draft param = .error obstacle ∧
      pool.failure revision param obstacle = failure := by
  obtain ⟨before, param, after, draft, split, walked, stopped⟩ :=
    exists_of_foldlM_eq_error ((mangle_eq_error_iff named).mp failed)
  obtain ⟨obstacle, run, same⟩ := Pool.encodeParam_eq_error_iff.mp stopped
  exact ⟨before, param, after, draft, obstacle, split, walked, run, same⟩

/-- A prototype is interrupted by an obstacle that is an interruption, or because a parameter that
is rejected cannot be spelled. -/
theorem Pool.failure_eq_interrupted_iff {obstacle : Obstacle} {cause : Interruption} :
    pool.failure revision param obstacle = .interrupted cause ↔
      obstacle = .interrupted cause ∨
        obstacle = .unsupported ∧ pool.readable param = .error cause := by
  cases obstacle with
  | interrupted other => simp [failure]
  | unsupported => cases spelled : pool.readable param <;> simp [failure, spelled]

/-- An obstacle in a parameter makes a broken contract only where the parameter reaches a handle
that the pool does not have. -/
theorem Pool.missing_of_failure {obstacle : Obstacle} {fault : Fault}
    (run : pool.encode revision draft param = .error obstacle)
    (broken : pool.failure revision param obstacle = .interrupted (.fault fault)) :
    ∃ id, pool.Reaches param id ∧ pool.node? id = none ∧
      fault = .outOfRange pool.size id.index := by
  rcases failure_eq_interrupted_iff.mp broken with rfl | ⟨_, spelled⟩
  · cases blocked_of_encodeWithin run (by simp) with
    | missing path missing => exact ⟨_, reaches_of_fresh path, missing, rfl⟩
  · obtain ⟨id, path, missing, same⟩ := missing_of_readableWithin spelled (by simp)
    exact ⟨id, path, missing, Interruption.fault.inj same⟩

theorem Pool.failure_of_acyclic (acyclic : pool.Acyclic param)
    (run : pool.encode revision draft param = .error obstacle) :
    (∃ type, pool.failure revision param obstacle = .rejected (.unsupported type revision)) ∨
      ∃ index, pool.failure revision param obstacle =
        .interrupted (.fault (.outOfRange pool.size index)) := by
  cases obstacle with
  | unsupported =>
    cases spelled : pool.readable param with
    | ok type => exact .inl ⟨type, by simp [failure, spelled]⟩
    | error cause =>
      have ended : cause ≠ .endless := by
        intro same
        subst same
        exact readable_ne_endless acyclic spelled
      obtain ⟨id, _, _, rfl⟩ := missing_of_readableWithin spelled ended
      exact .inr ⟨id.index, by simp [failure, spelled]⟩
  | interrupted cause =>
    have ended : Obstacle.interrupted cause ≠ .interrupted .endless := by
      intro same
      exact encode_ne_endless acyclic.guarded (same ▸ run)
    cases blocked_of_encodeWithin run ended with
    | missing path missing => exact .inr ⟨_, rfl⟩

theorem Prototype.missing_of_mangle {fault : Fault}
    (broken : prototype.mangle pool revision = .error (.interrupted (.fault fault))) :
    ∃ param ∈ prototype.params, ∃ id, pool.Reaches param id ∧ pool.node? id = none ∧
      fault = .outOfRange pool.size id.index := by
  obtain ⟨before, param, after, draft, obstacle, split, _, run, same⟩ :=
    exists_of_mangle_eq_error (named_of_failure broken (by simp)) broken
  exact ⟨param, by simp [split], Pool.missing_of_failure run same⟩

section Agrees

variable {other : Pool} {draft' : Draft} {param' : TypeId} {prototype' : Prototype}
  {linked : TypeId → TypeId → Prop} {related : Draft → Draft → Prop}

theorem Pool.encodeParam_agrees
    (encoded : Agrees related (pool.encode revision draft param)
      (other.encode revision draft' param'))
    (spelled : pool.readable param = other.readable param') :
    Agrees related (pool.encodeParam revision draft param)
      (other.encodeParam revision draft' param') := by
  have same : pool.failure revision param = other.failure revision param' := by
    funext obstacle
    cases obstacle with
    | unsupported => simp only [failure, spelled]
    | interrupted cause => rfl
  simp only [encodeParam, same]
  exact encoded.mapError _

/-- Prototypes of one name have one symbol, or fail alike, if their parameters are encoded one by
one into drafts whose tokens have the same texts. -/
theorem Prototype.mangle_eq_of_agrees (name : prototype.name = prototype'.name)
    (each : List.Forall₂ linked prototype.params prototype'.params)
    (steps : ∀ draft draft' param param', related draft draft' → linked param param' →
      Agrees related (pool.encodeParam revision draft param)
        (other.encodeParam revision draft' param'))
    (start : related ∅ ∅)
    (texts : ∀ draft draft', related draft draft' →
      draft.tokens.toList.map Token.text = draft'.tokens.toList.map Token.text) :
    prototype.mangle pool revision = prototype'.mangle other revision := by
  have null : prototype.isNull = prototype'.isNull := congrArg String.isEmpty name
  cases named : prototype.isNull with
  | true =>
    rw [named] at null
    simp [mangle, symbol, named, ← null]
  | false =>
    rw [mangle_eq_map named, mangle_eq_map (null ▸ named)]
    refine ((Agrees.foldlM each steps start).map fun draft draft' alike => ?_).eq
    rw [Symbol.text, Symbol.text, name, texts draft draft' alike]

theorem Prototype.display_eq_of_readable (name : prototype.name = prototype'.name)
    (each : List.Forall₂ linked prototype.params prototype'.params)
    (spelled : ∀ param param', linked param param' → pool.readable param = other.readable param') :
    prototype.display pool = prototype'.display other := by
  have null : prototype.isNull = prototype'.isNull := congrArg String.isEmpty name
  simp only [display, null, mapM_eq_of_forall₂ each spelled, name]

end Agrees

section Ended

variable (acyclic : ∀ param ∈ prototype.params, pool.Acyclic param)
  (closed : ∀ param ∈ prototype.params, pool.Closed param)
include acyclic closed

theorem Prototype.mangle_ended :
    (∃ text, prototype.mangle pool revision = .ok text) ∨
      ∃ rejection, prototype.mangle pool revision = .error (.rejected rejection) := by
  cases mangled : prototype.mangle pool revision with
  | ok text => exact .inl ⟨text, rfl⟩
  | error failure =>
    cases failure with
    | rejected rejection => exact .inr ⟨rejection, rfl⟩
    | interrupted cause =>
      cases cause with
      | fault fault =>
        obtain ⟨param, listed, id, path, missing, _⟩ := missing_of_mangle mangled
        exact absurd missing (closed param listed id path)
      | endless =>
        obtain ⟨before, param, after, draft, obstacle, split, _, run, same⟩ :=
          exists_of_mangle_eq_error (named_of_failure mangled (by simp)) mangled
        rcases Pool.failure_of_acyclic (acyclic param (by simp [split])) run with
          ⟨_, other⟩ | ⟨_, other⟩
        · cases same.symm.trans other
        · cases same.symm.trans other

theorem Prototype.exists_display : ∃ text, prototype.display pool = .ok text := by
  obtain ⟨params, spelled⟩ := exists_mapM_eq_ok fun param listed =>
    Pool.exists_readable (acyclic param listed) (closed param listed)
  rw [display, spelled]
  split
  · exact ⟨_, rfl⟩
  · exact ⟨_, rfl⟩

end Ended
end SpirSymbol
