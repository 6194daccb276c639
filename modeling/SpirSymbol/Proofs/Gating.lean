import SpirSymbol.Proofs.Prototype

namespace SpirSymbol

/-- The revision has the kind of the node, and the primitive kind or the address space that the
node names. -/
def Revision.Accepts (revision : Revision) (node : Node) : Prop :=
  revision.supports node.kind = true ∧
    (∀ kind, node = .primitive kind → revision.supports kind = true) ∧
    ∀ pointee space qualifiers, node = .pointer pointee space qualifiers →
      revision.supports space = true

/-- The revision has every node below the handle. -/
def Pool.Accepted (pool : Pool) (revision : Revision) (id : TypeId) : Prop :=
  ∀ other node, pool.Reaches id other → pool.node? other = some node → revision.Accepts node

variable {pool : Pool} {revision : Revision} {draft : Draft} {params : List TypeId}
  {param : TypeId} {prototype : Prototype} {obstacle : Obstacle}

theorem Revision.accepts_iff {node : Node} :
    revision.Accepts node ↔ revision.supports node = true :=
  (Node.supports_iff revision node).symm

/-- A walk that begins without numbers skips only what it has been through, so everything that
the parameters reach has been judged. -/
theorem Pool.accepted_of_params (run : params.foldlM (pool.encodeParam revision) ∅ = .ok draft)
    (listed : param ∈ params) : pool.Accepted revision param := by
  obtain ⟨stops, last, walk, _, _, supported⟩ := walk_of_params run
  intro other node path found
  obtain ⟨entered, member⟩ := walk.enters_of_reaches listed path
  obtain rfl := Option.some.inj (found.symm.trans (walk.reaches member).1)
  exact Revision.accepts_iff.mpr (supported other node member)

/-- Where nothing is missing and every cycle passes through a pointer, only a node that the
revision lacks stands in the way. -/
theorem Pool.rejected_of_encode (closed : pool.Closed param) (guarded : pool.Guarded param)
    (run : pool.encode revision draft param = .error obstacle) :
    obstacle = .unsupported ∧ ¬ pool.Accepted revision param := by
  have ended : obstacle ≠ .interrupted .endless := by
    intro same
    subst same
    exact encode_ne_endless guarded run
  cases blocked_of_encodeWithin run ended with
  | missing path missing => exact absurd missing (closed _ (reaches_of_fresh path))
  | lacking path found _ lacking =>
    refine ⟨rfl, fun accepted => ?_⟩
    have supported := Revision.accepts_iff.mp (accepted _ _ (reaches_of_fresh path) found)
    rw [supported] at lacking
    cases lacking

namespace Prototype

theorem accepted_of_mangle {text : String} (mangled : prototype.mangle pool revision = .ok text) :
    ∀ param ∈ prototype.params, pool.Accepted revision param := by
  obtain ⟨_, draft, run, _⟩ := mangle_eq_ok_iff.mp mangled
  intro param listed
  exact Pool.accepted_of_params run listed

theorem rejected_of_mangle {failure : Failure} (named : prototype.isNull = false)
    (closed : ∀ param ∈ prototype.params, pool.Closed param)
    (guarded : ∀ param ∈ prototype.params, pool.Guarded param)
    (failed : prototype.mangle pool revision = .error failure) :
    ∃ before param after, prototype.params = before ++ param :: after ∧
      (∀ earlier ∈ before, pool.Accepted revision earlier) ∧
      ¬ pool.Accepted revision param ∧
      pool.failure revision param .unsupported = failure := by
  obtain ⟨before, param, after, draft, obstacle, split, walked, run, same⟩ :=
    exists_of_mangle_eq_error named failed
  have listed : param ∈ prototype.params := by simp [split]
  obtain ⟨rfl, refused⟩ := Pool.rejected_of_encode (closed param listed) (guarded param listed) run
  refine ⟨before, param, after, split, ?_, refused, same⟩
  intro earlier member
  exact Pool.accepted_of_params walked member

/-- Gating is exact, and the first offender is named. -/
theorem mangle_gating (named : prototype.isNull = false)
    (closed : ∀ param ∈ prototype.params, pool.Closed param)
    (guarded : ∀ param ∈ prototype.params, pool.Guarded param) :
    ((∃ text, prototype.mangle pool revision = .ok text) ↔
        ∀ param ∈ prototype.params, pool.Accepted revision param) ∧
      (∀ fault, prototype.mangle pool revision ≠ .error (.interrupted (.fault fault))) ∧
      ((∀ param ∈ prototype.params, pool.Acyclic param) →
        (¬ ∃ text, prototype.mangle pool revision = .ok text) →
        ∃ before param after type, prototype.params = before ++ param :: after ∧
          (∀ earlier ∈ before, pool.Accepted revision earlier) ∧
          ¬ pool.Accepted revision param ∧ pool.readable param = .ok type ∧
          prototype.mangle pool revision = .error (.rejected (.unsupported type revision))) := by
  refine ⟨⟨?_, ?_⟩, ?_, ?_⟩
  · rintro ⟨text, mangled⟩
    exact accepted_of_mangle mangled
  · intro accepted
    cases mangled : prototype.mangle pool revision with
    | ok text => exact ⟨text, rfl⟩
    | error failure =>
      obtain ⟨before, param, after, split, _, refused, _⟩ :=
        rejected_of_mangle named closed guarded mangled
      exact absurd (accepted param (by simp [split])) refused
  · intro fault broken
    obtain ⟨param, listed, id, path, missing, _⟩ := missing_of_mangle broken
    exact closed param listed id path missing
  · intro acyclic refusal
    cases mangled : prototype.mangle pool revision with
    | ok text => exact absurd ⟨text, mangled⟩ refusal
    | error failure =>
      obtain ⟨before, param, after, split, accepted, refused, same⟩ :=
        rejected_of_mangle named closed guarded mangled
      have listed : param ∈ prototype.params := by simp [split]
      obtain ⟨type, spelled⟩ := Pool.exists_readable (acyclic param listed) (closed param listed)
      refine ⟨before, param, after, type, split, accepted, refused, spelled, ?_⟩
      rw [← same, Pool.failure, spelled]

/-- Parameters that reach something which revision 1.2 lacks: a pipe below a pointer, a block, an
atomic type or a vector, the generic address space, and a block and an atomic type themselves. Each
is reported as it is spelled. Revision 2.0 has all of them. -/
theorem mangle_gating_pipe :
    ∃ (pool : Pool) (offenders : List (TypeId × String)),
      pool = ⟨#[.primitive .float, .primitive .pipe, .pointer ⟨1⟩ .globalMemory ⟨4⟩,
        .block [⟨2⟩, ⟨0⟩], .atomic ⟨2⟩, .vector ⟨1⟩ 4, .pointer ⟨0⟩ .genericMemory ⟨0⟩,
        .vector ⟨0⟩ 4, .block [⟨0⟩], .atomic ⟨0⟩]⟩ ∧
      offenders = [(⟨2⟩, "const __global pipe_t *"),
        (⟨3⟩, "void (const __global pipe_t *, float)*"), (⟨4⟩, "atomic_const __global pipe_t *"),
        (⟨5⟩, "pipe_t4"), (⟨6⟩, "__generic float *"), (⟨8⟩, "void (float)*"),
        (⟨9⟩, "atomic_float")] ∧
      (∀ offender ∈ offenders, ∃ before param after,
        [⟨7⟩, offender.1, ⟨2⟩] = before ++ param :: after ∧
        (∀ earlier ∈ before, pool.Accepted .v1_2 earlier) ∧ ¬ pool.Accepted .v1_2 param ∧
        pool.readable param = .ok offender.2 ∧
        (⟨"f", [⟨7⟩, offender.1, ⟨2⟩]⟩ : Prototype).mangle pool .v1_2 =
          .error (.rejected (.unsupported offender.2 .v1_2))) ∧
      (⟨"f", [⟨7⟩, ⟨3⟩, ⟨4⟩, ⟨5⟩, ⟨6⟩, ⟨2⟩]⟩ : Prototype).mangle pool .v2_0 =
        .ok ("_Z1fDv4_fU13block_pointerFvPKU3AS18ocl_pipefEU7_AtomicS0_Dv4_8ocl_pipePU3AS4f" ++
          "S0_") ∧
      ∀ param ∈ [⟨7⟩, ⟨3⟩, ⟨4⟩, ⟨5⟩, ⟨6⟩, ⟨2⟩], pool.Accepted .v2_0 param := by
  let pool : Pool := ⟨#[.primitive .float, .primitive .pipe, .pointer ⟨1⟩ .globalMemory ⟨4⟩,
    .block [⟨2⟩, ⟨0⟩], .atomic ⟨2⟩, .vector ⟨1⟩ 4, .pointer ⟨0⟩ .genericMemory ⟨0⟩,
    .vector ⟨0⟩ 4, .block [⟨0⟩], .atomic ⟨0⟩]⟩
  let offenders : List (TypeId × String) := [(⟨2⟩, "const __global pipe_t *"),
    (⟨3⟩, "void (const __global pipe_t *, float)*"), (⟨4⟩, "atomic_const __global pipe_t *"),
    (⟨5⟩, "pipe_t4"), (⟨6⟩, "__generic float *"), (⟨8⟩, "void (float)*"), (⟨9⟩, "atomic_float")]
  have descending : pool.Descending := by decide
  have closed {params : List TypeId} (inside : ∀ param ∈ params, param.index < pool.size) :
      ∀ param ∈ params, pool.Closed param :=
    fun param listed => descending.closed (inside param listed)
  have guarded {params : List TypeId} : ∀ param ∈ params, pool.Guarded param :=
    fun param _ => (descending.acyclic param).guarded
  have inside : ∀ offender ∈ offenders, ∀ param ∈ [⟨7⟩, offender.1, ⟨2⟩],
      param.index < pool.size := by decide
  have rejected : ∀ offender ∈ offenders,
      (⟨"f", [⟨7⟩, offender.1, ⟨2⟩]⟩ : Prototype).mangle pool .v1_2 =
        .error (.rejected (.unsupported offender.2 .v1_2)) := by decide +kernel
  have mangled : (⟨"f", [⟨7⟩, ⟨3⟩, ⟨4⟩, ⟨5⟩, ⟨6⟩, ⟨2⟩]⟩ : Prototype).mangle pool .v2_0 =
      .ok ("_Z1fDv4_fU13block_pointerFvPKU3AS18ocl_pipefEU7_AtomicS0_Dv4_8ocl_pipePU3AS4f" ++
        "S0_") := by decide +kernel
  refine ⟨pool, offenders, rfl, rfl, ?_, mangled,
    (mangle_gating rfl (closed (by decide)) guarded).1.mp ⟨_, mangled⟩⟩
  intro offender listed
  have refused : ¬ ∃ text,
      (⟨"f", [⟨7⟩, offender.1, ⟨2⟩]⟩ : Prototype).mangle pool .v1_2 = .ok text := by
    rintro ⟨text, mangled⟩
    rw [rejected offender listed] at mangled
    cases mangled
  obtain ⟨before, param, after, type, split, accepted, refuses, spelled, named⟩ :=
    (mangle_gating rfl (closed (inside offender listed)) guarded).2.2
      (fun param _ => descending.acyclic param) refused
  obtain rfl : type = offender.2 := by simpa using named.symm.trans (rejected offender listed)
  exact ⟨before, param, after, split, accepted, refuses, spelled, named⟩

end Prototype
end SpirSymbol
