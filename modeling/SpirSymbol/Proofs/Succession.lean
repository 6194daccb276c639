import SpirSymbol.Proofs.Gating

namespace SpirSymbol

variable {pool : Pool} {earlier later revision : Revision} {draft result : Draft}
  {params : List TypeId} {id param : TypeId} {depth : Nat} {prototype : Prototype}

theorem Pool.encodeWithin_of_le (order : earlier ≤ later)
    (run : pool.encodeWithin earlier depth draft id = .ok result) :
    pool.encodeWithin later depth draft id = .ok result := by
  induction depth generalizing draft id result with
  | zero => cases run
  | succ depth ih =>
    obtain ⟨below, node, same, found, ⟨number, again, rfl⟩ | new⟩ := encodeWithin_ok run
    · exact encodeWithin_again found again
    · obtain rfl := Nat.succ.inj same
      obtain ⟨absent, accepted, inner, inside, rfl⟩ := new
      have supported := Revision.supports_mono order accepted
      have copied := foldlM_eq_ok_of_imp (fun _ _ _ step => ih step) inside
      rw [encodeWithin_enter found absent supported, copied]
      rfl

theorem Pool.encodeParam_of_le (order : earlier ≤ later)
    (run : pool.encodeParam earlier draft param = .ok result) :
    pool.encodeParam later draft param = .ok result :=
  encodeParam_eq_ok_iff.mpr (encodeWithin_of_le order (encodeParam_eq_ok_iff.mp run))

namespace Prototype

theorem mangle_of_le {text : String} (order : earlier ≤ later)
    (mangled : prototype.mangle pool earlier = .ok text) :
    prototype.mangle pool later = .ok text := by
  obtain ⟨named, draft, run, same⟩ := mangle_eq_ok_iff.mp mangled
  have copied := foldlM_eq_ok_of_imp (fun _ _ _ step => Pool.encodeParam_of_le order step) run
  exact mangle_eq_ok_iff.mpr ⟨named, draft, copied, same⟩

theorem lacking_of_mangle {type : String} {named : Revision}
    (rejected : prototype.mangle pool revision = .error (.rejected (.unsupported type named))) :
    ∃ param ∈ prototype.params, ∃ id node, pool.Reaches param id ∧ pool.node? id = some node ∧
      revision.supports node = false := by
  obtain ⟨before, param, after, draft, obstacle, split, _, run, same⟩ :=
    exists_of_mangle_eq_error (named_of_failure rejected (by simp)) rejected
  cases obstacle with
  | interrupted cause => cases same
  | unsupported =>
    cases Pool.blocked_of_encodeWithin run (by simp) with
    | lacking path found _ lacking =>
      exact ⟨param, by simp [split], _, _, Pool.reaches_of_fresh path, found, lacking⟩

/-- The earlier symbol is the later one; the latest revision rejects no type, and has a symbol
for every prototype that an earlier one rejects for a type, if nothing below its parameters is
missing and every cycle there passes through a pointer. -/
theorem mangle_succession (prototype : Prototype) (pool : Pool) :
    (∀ text, prototype.mangle pool .v1_2 = .ok text → prototype.mangle pool .v2_0 = .ok text) ∧
      (∀ type named,
        prototype.mangle pool .v2_0 ≠ .error (.rejected (.unsupported type named))) ∧
      ∀ type named, prototype.mangle pool .v1_2 = .error (.rejected (.unsupported type named)) →
        (∀ param ∈ prototype.params, pool.Closed param) →
        (∀ param ∈ prototype.params, pool.Guarded param) →
        ∃ text, prototype.mangle pool .v2_0 = .ok text := by
  refine ⟨fun text => mangle_of_le (Revision.v1_2_le _), ?_, ?_⟩
  · intro type named rejected
    obtain ⟨_, _, _, node, _, _, lacking⟩ := lacking_of_mangle rejected
    rw [Revision.supports_v2_0] at lacking
    cases lacking
  · intro type named rejected closed guarded
    have full : prototype.isNull = false := by
      cases null : prototype.isNull with
      | false => rfl
      | true => simp [mangle, symbol, null, Except.map] at rejected
    cases mangled : prototype.mangle pool .v2_0 with
    | ok text => exact ⟨text, rfl⟩
    | error failure =>
      obtain ⟨_, _, _, _, _, refused, _⟩ := rejected_of_mangle full closed guarded mangled
      exact absurd (fun _ node _ _ => Revision.accepts_iff.mpr (Revision.supports_v2_0 node)) refused

/-- A pointer to itself has one symbol. With a vector of pipes after it there is none before
revision 2.0; from then on there is one that goes through the vector, a block and an atomic type. -/
theorem mangle_succession_pipe :
    ∃ pool : Pool, pool = ⟨#[.primitive .pipe, .pointer ⟨1⟩ .globalMemory ∅,
        .pointer ⟨0⟩ .globalMemory ∅, .block [⟨2⟩, ⟨0⟩], .vector ⟨0⟩ 4, .atomic ⟨2⟩]⟩ ∧
      (⟨"f", [⟨1⟩]⟩ : Prototype).mangle pool .v1_2 = .ok "_Z1fPU3AS1S0_" ∧
      (⟨"f", [⟨1⟩]⟩ : Prototype).mangle pool .v2_0 = .ok "_Z1fPU3AS1S0_" ∧
      (∀ param ∈ [⟨1⟩, ⟨4⟩, ⟨3⟩, ⟨5⟩], pool.Closed param) ∧
      (∀ param ∈ [⟨1⟩, ⟨4⟩, ⟨3⟩, ⟨5⟩], pool.Guarded param) ∧
      (⟨"f", [⟨1⟩, ⟨4⟩, ⟨3⟩, ⟨5⟩]⟩ : Prototype).mangle pool .v1_2 =
        .error (.rejected (.unsupported "pipe_t4" .v1_2)) ∧
      ∃ text, (⟨"f", [⟨1⟩, ⟨4⟩, ⟨3⟩, ⟨5⟩]⟩ : Prototype).mangle pool .v2_0 = .ok text ∧
        text = "_Z1fPU3AS1S0_Dv4_8ocl_pipeU13block_pointerFvPU3AS18ocl_pipe8ocl_pipeE" ++
          "U7_AtomicS1_" := by
  let pool : Pool := ⟨#[.primitive .pipe, .pointer ⟨1⟩ .globalMemory ∅,
    .pointer ⟨0⟩ .globalMemory ∅, .block [⟨2⟩, ⟨0⟩], .vector ⟨0⟩ 4, .atomic ⟨2⟩]⟩
  let prototype : Prototype := ⟨"f", [⟨1⟩, ⟨4⟩, ⟨3⟩, ⟨5⟩]⟩
  have closed : ∀ param ∈ prototype.params, pool.Closed param := by
    intro param listed
    refine Pool.closed_of_children ?_ (by decide)
    revert param
    decide
  have guarded : ∀ param ∈ prototype.params, pool.Guarded param :=
    fun param _ => Pool.guarded_of_falling (by decide) param
  have mangled : (⟨"f", [⟨1⟩]⟩ : Prototype).mangle pool .v1_2 = .ok "_Z1fPU3AS1S0_" := by
    decide +kernel
  have rejected : prototype.mangle pool .v1_2 =
      .error (.rejected (.unsupported "pipe_t4" .v1_2)) := by decide +kernel
  have accepted : prototype.mangle pool .v2_0 =
      .ok ("_Z1fPU3AS1S0_Dv4_8ocl_pipeU13block_pointerFvPU3AS18ocl_pipe8ocl_pipeE" ++
        "U7_AtomicS1_") := by decide +kernel
  obtain ⟨text, written⟩ := (mangle_succession prototype pool).2.2 _ _ rejected closed guarded
  have same : text = "_Z1fPU3AS1S0_Dv4_8ocl_pipeU13block_pointerFvPU3AS18ocl_pipe8ocl_pipeE" ++
      "U7_AtomicS1_" := Except.ok.inj (written.symm.trans accepted)
  exact ⟨pool, rfl, mangled, (mangle_succession _ pool).1 _ mangled, closed, guarded, rejected,
    text, written, same⟩

end Prototype
end SpirSymbol
