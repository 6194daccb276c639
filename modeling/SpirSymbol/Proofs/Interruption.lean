import SpirSymbol.Proofs.Expansion
import SpirSymbol.Proofs.Ending
import SpirSymbol.Proofs.Gating

/-! Interruptions. The encoder, the spelling of a type that it rejects and the spelling of a whole
prototype all come first to the same handle that the pool does not have: what the encoder skips it
has been through before, and where it stops short the spelling goes on. -/
namespace SpirSymbol

namespace Pool

variable {pool : Pool} {revision : Revision} {depth : Nat} {id param : TypeId}
  {cause : Interruption} {draft : Draft} {obstacle : Obstacle} {before : List TypeId}

theorem exists_readableWithin_of_plainWithin {tokens : List Token}
    (run : pool.plainWithin revision depth id = .ok tokens) :
    ∃ text, pool.readableWithin depth id = .ok text := by
  induction depth generalizing id tokens with
  | zero => cases run
  | succ depth ih =>
    obtain ⟨below, node, parts, same, found, taken⟩ := plainWithin_ok run
    obtain rfl := Nat.succ.inj same
    obtain ⟨texts, spelled⟩ : ∃ texts, node.children.mapM (pool.readableWithin depth) = .ok texts := by
      refine exists_mapM_eq_ok fun child member => ?_
      obtain ⟨_, written⟩ := exists_of_mapM_eq_ok taken child member
      exact ih written
    exact ⟨_, readableWithin_spelled found spelled⟩

theorem readableWithin_eq_error_of_plainWithin
    (run : pool.plainWithin revision depth id = .error (.interrupted cause)) :
    pool.readableWithin depth id = .error cause := by
  induction depth generalizing id with
  | zero =>
    cases run
    rfl
  | succ depth ih =>
    rcases plainWithin_interrupted run with ⟨empty, _⟩ | ⟨below, same, ⟨missing, rfl⟩ | down⟩
    · cases empty
    · exact readableWithin_missing missing
    · obtain rfl := Nat.succ.inj same
      obtain ⟨node, before, child, after, parts, found, split, taken, failed⟩ := down
      obtain ⟨texts, spelled⟩ : ∃ texts, before.mapM (pool.readableWithin depth) = .ok texts := by
        refine exists_mapM_eq_ok fun sibling member => ?_
        obtain ⟨_, written⟩ := exists_of_mapM_eq_ok taken sibling member
        exact exists_readableWithin_of_plainWithin written
      exact readableWithin_stopped found (split ▸ mapM_eq_error_of_split spelled (ih failed))

theorem readable_eq_error_of_plain (ended : cause ≠ .endless)
    (run : pool.plain revision id = .error (.interrupted cause)) :
    pool.readable id = .error cause := by
  have spelled := readableWithin_eq_error_of_plainWithin run
  have unended : pool.readableWithin pool.encodingDepth id ≠ .error .endless := by
    simpa [spelled] using ended
  rw [readable_eq_of_ended unended, spelled]

theorem closed_of_params (run : before.foldlM (pool.encodeParam revision) ∅ = .ok draft) :
    ∀ param ∈ before, pool.Closed param := by
  obtain ⟨stops, last, walk, _⟩ := walk_of_params run
  intro param listed other path
  obtain ⟨node, entered⟩ := walk.enters_of_reaches listed path
  simp [(walk.reaches entered).1]

section Walked

variable (acyclic : pool.Acyclic param) (acyclicBefore : ∀ earlier ∈ before, pool.Acyclic earlier)
  (walked : before.foldlM (pool.encodeParam revision) ∅ = .ok draft)
include acyclic acyclicBefore walked

theorem readable_eq_error_of_encode
    (run : pool.encode revision draft param = .error (.interrupted cause)) :
    pool.readable param = .error cause := by
  have ended : cause ≠ .endless := by
    rintro rfl
    exact encode_ne_endless acyclic.guarded run
  exact readable_eq_error_of_plain ended (plain_eq_error_of_params walked acyclicBefore acyclic run)

/-- A parameter that the encoder fails in interrupts the prototype exactly where it cannot be
spelled. -/
theorem failure_eq_interrupted_iff_readable
    (run : pool.encode revision draft param = .error obstacle) :
    pool.failure revision param obstacle = .interrupted cause ↔
      pool.readable param = .error cause := by
  rw [failure_eq_interrupted_iff]
  cases obstacle with
  | unsupported => simp
  | interrupted other =>
    rw [readable_eq_error_of_encode acyclic acyclicBefore walked run]
    simp

end Walked
end Pool

namespace Prototype

variable {pool : Pool} {revision : Revision} {prototype : Prototype} {cause : Interruption}
  {before after : List TypeId} {param : TypeId}

theorem display_eq_error_iff (named : prototype.isNull = false) :
    prototype.display pool = .error cause ↔
      prototype.params.mapM pool.readable = .error cause := by
  simp only [display, named, Bool.false_eq_true, ↓reduceIte]
  cases prototype.params.mapM pool.readable <;> simp [bind, Except.bind, pure, Except.pure]

theorem closed_of_display {text : String} (named : prototype.isNull = false)
    (shown : prototype.display pool = .ok text) : ∀ param ∈ prototype.params, pool.Closed param := by
  cases spelled : prototype.params.mapM pool.readable with
  | error cause =>
    rw [(display_eq_error_iff named).mpr spelled] at shown
    cases shown
  | ok texts =>
    intro param listed
    obtain ⟨_, taken⟩ := exists_of_mapM_eq_ok spelled param listed
    exact Pool.closed_of_readableWithin taken

section Acyclic

variable (named : prototype.isNull = false)
  (acyclic : ∀ param ∈ prototype.params, pool.Acyclic param)
include named acyclic

theorem display_of_mangle
    (broken : prototype.mangle pool revision = .error (.interrupted cause)) :
    prototype.display pool = .error cause := by
  obtain ⟨before, param, after, draft, obstacle, split, walked, run, same⟩ :=
    exists_of_mangle_eq_error named broken
  have here : pool.Acyclic param := acyclic param (by simp [split])
  have earlier : ∀ earlier ∈ before, pool.Acyclic earlier :=
    fun other member => acyclic other (by simp [split, member])
  have stopped := (Pool.failure_eq_interrupted_iff_readable here earlier walked run).mp same
  obtain ⟨texts, spelled⟩ := exists_mapM_eq_ok fun other member =>
    Pool.exists_readable (earlier other member) (Pool.closed_of_params walked other member)
  rw [display_eq_error_iff named, split]
  exact mapM_eq_error_of_split spelled stopped

/-- A display that is interrupted is so by the first parameter that misses something. -/
theorem exists_of_display (broken : prototype.display pool = .error cause) :
    ∃ before param after, prototype.params = before ++ param :: after ∧
      (∀ earlier ∈ before, pool.Closed earlier) ∧ pool.readable param = .error cause ∧
      ∃ id, pool.Reaches param id ∧ pool.node? id = none ∧
        cause = .fault (.outOfRange pool.size id.index) := by
  obtain ⟨before, param, after, texts, split, spelled, stopped⟩ :=
    exists_of_mapM_eq_error ((display_eq_error_iff named).mp broken)
  refine ⟨before, param, after, split, ?_, stopped, ?_⟩
  · intro earlier member
    obtain ⟨_, taken⟩ := exists_of_mapM_eq_ok spelled earlier member
    exact Pool.closed_of_readableWithin taken
  · apply Pool.missing_of_readableWithin stopped
    rintro rfl
    exact Pool.readable_ne_endless (acyclic param (by simp [split])) stopped

/-- A display is interrupted exactly where some parameter misses something. -/
theorem display_interrupted_iff :
    (∃ fault, prototype.display pool = .error (.fault fault)) ↔
      ∃ param ∈ prototype.params, ¬ pool.Closed param := by
  constructor
  · rintro ⟨fault, broken⟩
    obtain ⟨_, param, _, split, _, _, id, path, missing, _⟩ :=
      exists_of_display named acyclic broken
    exact ⟨param, by simp [split], fun closed => closed id path missing⟩
  · rintro ⟨param, listed, dangling⟩
    cases shown : prototype.display pool with
    | ok text => exact absurd (closed_of_display named shown param listed) dangling
    | error cause =>
      obtain ⟨_, _, _, _, _, _, id, _, _, rfl⟩ := exists_of_display named acyclic shown
      exact ⟨_, rfl⟩

end Acyclic

section Before

variable (named : prototype.isNull = false)
  (split : prototype.params = before ++ param :: after)
  (acyclic : ∀ param ∈ prototype.params, pool.Acyclic param)
  (closed : ∀ earlier ∈ before, pool.Closed earlier)
include named split acyclic closed

/-- Where parameters miss nothing, they have the prototype rejected, or all of them are accepted and
the encoder goes on to the next one. -/
theorem rejected_or_walked_of_before :
    ((∃ earlier ∈ before, ¬ pool.Accepted revision earlier) ∧
        ∃ type, prototype.mangle pool revision = .error (.rejected (.unsupported type revision))) ∨
      (∀ earlier ∈ before, pool.Accepted revision earlier) ∧
        ∃ draft, before.foldlM (pool.encodeParam revision) ∅ = .ok draft := by
  cases run : before.foldlM (pool.encodeParam revision) ∅ with
  | ok draft => exact .inr ⟨fun _ => Pool.accepted_of_params run, draft, rfl⟩
  | error failure =>
    let early : Prototype := ⟨prototype.name, before⟩
    have earlyNamed : early.isNull = false := named
    have straight : ∀ earlier ∈ before, pool.Acyclic earlier :=
      fun other member => acyclic other (by simp [split, member])
    obtain ⟨_, first, _, here, _, refused, same⟩ := rejected_of_mangle earlyNamed closed
      (fun other member => (straight other member).guarded) ((mangle_eq_error_iff earlyNamed).mpr run)
    have listed : first ∈ early.params := by
      rw [here]
      simp
    obtain ⟨type, spelled⟩ := Pool.exists_readable (straight first listed) (closed first listed)
    refine .inl ⟨⟨first, listed, refused⟩, type, (mangle_eq_error_iff named).mpr ?_⟩
    rw [split, foldlM_eq_error_of_split (.inl run), ← same, Pool.failure, spelled]

theorem mangle_interrupted_of_before
    (accepted : ∀ earlier ∈ before, pool.Accepted revision earlier)
    (stopped : pool.readable param = .error cause) :
    prototype.mangle pool revision = .error (.interrupted cause) := by
  have here : pool.Acyclic param := acyclic param (by simp [split])
  rcases rejected_or_walked_of_before named split acyclic closed with
    ⟨⟨earlier, member, refused⟩, _⟩ | ⟨_, draft, walked⟩
  · exact absurd (accepted earlier member) refused
  · rw [mangle_eq_error_iff named, split]
    refine foldlM_eq_error_of_split (.inr ⟨draft, walked, ?_⟩)
    cases run : pool.encode revision draft param with
    | ok last =>
      have taken : (before ++ [param]).foldlM (pool.encodeParam revision) ∅ = .ok last := by
        rw [List.foldlM_append, walked]
        exact foldlM_cons_eq_ok.mpr ⟨last, Pool.encodeParam_of_ok run, rfl⟩
      obtain ⟨_, spelled⟩ :=
        Pool.exists_readable here (Pool.closed_of_params taken param (by simp))
      rw [stopped] at spelled
      cases spelled
    | error obstacle =>
      have straight : ∀ earlier ∈ before, pool.Acyclic earlier :=
        fun other member => acyclic other (by simp [split, member])
      have broken :=
        (Pool.failure_eq_interrupted_iff_readable here straight walked run).mpr stopped
      rw [Pool.encodeParam_of_error run, broken]

end Before

/-- Where there is no cycle, whatever interrupts the symbol interrupts the display. A display is
interrupted exactly where some parameter reaches a handle that the pool does not have, and by such
a handle below the first of these; the symbol is then rejected if a parameter before that one is not
accepted, and else interrupted by the same handle. Without an interruption of the display there is
none of the symbol. -/
theorem mangle_interruption (named : prototype.isNull = false)
    (acyclic : ∀ param ∈ prototype.params, pool.Acyclic param) :
    (∀ fault, prototype.mangle pool revision = .error (.interrupted (.fault fault)) →
        prototype.display pool = .error (.fault fault)) ∧
      ((∃ fault, prototype.display pool = .error (.fault fault)) ↔
        ∃ param ∈ prototype.params, ¬ pool.Closed param) ∧
      (∀ fault, prototype.display pool = .error (.fault fault) →
        ∃ before param after, prototype.params = before ++ param :: after ∧
          (∀ earlier ∈ before, pool.Closed earlier) ∧
          (∃ id, pool.Reaches param id ∧ pool.node? id = none ∧
            fault = .outOfRange pool.size id.index) ∧
          ((∃ earlier ∈ before, ¬ pool.Accepted revision earlier) →
            ∃ type, prototype.mangle pool revision =
              .error (.rejected (.unsupported type revision))) ∧
          ((∀ earlier ∈ before, pool.Accepted revision earlier) →
            prototype.mangle pool revision = .error (.interrupted (.fault fault)))) ∧
      ((∀ fault, prototype.display pool ≠ .error (.fault fault)) →
        (∃ text, prototype.mangle pool revision = .ok text) ∨
          ∃ rejection, prototype.mangle pool revision = .error (.rejected rejection)) := by
  refine ⟨fun _ => display_of_mangle named acyclic, display_interrupted_iff named acyclic, ?_, ?_⟩
  · intro fault broken
    obtain ⟨before, param, after, split, closed, stopped, id, path, missing, same⟩ :=
      exists_of_display named acyclic broken
    refine ⟨before, param, after, split, closed, ⟨id, path, missing, Interruption.fault.inj same⟩,
      ?_, fun accepted =>
        mangle_interrupted_of_before named split acyclic closed accepted stopped⟩
    rintro ⟨earlier, member, refused⟩
    rcases rejected_or_walked_of_before named split acyclic closed with ⟨_, rejected⟩ | ⟨accepted, _⟩
    · exact rejected
    · exact absurd (accepted earlier member) refused
  · intro whole
    refine mangle_ended acyclic fun param listed => ?_
    by_contra dangling
    obtain ⟨fault, broken⟩ :=
      (display_interrupted_iff named acyclic).mpr ⟨param, listed, dangling⟩
    exact whole fault broken

/-- A block, a vector, an atomic type and a pointer that miss a handle. Each interrupts the symbol
and the display alike, the block and the atomic type also before revision 2.0, where they are
spelled. After a rejected parameter the encoder does not come to them. -/
theorem mangle_interruption_block :
    ∃ (pool : Pool) (dangling : List (TypeId × Nat)),
      pool = ⟨#[.primitive .int, .block [⟨0⟩, ⟨7⟩, ⟨9⟩], .primitive .pipe, .vector ⟨8⟩ 4,
        .atomic ⟨9⟩, .pointer ⟨6⟩ .globalMemory ∅]⟩ ∧
      dangling = [(⟨1⟩, 7), (⟨3⟩, 8), (⟨4⟩, 9), (⟨5⟩, 6)] ∧ (∀ id, pool.Acyclic id) ∧
      (∀ entry ∈ dangling, ∀ revision ∈ [Revision.v1_2, .v2_0],
        (⟨"f", [⟨0⟩, entry.1]⟩ : Prototype).mangle pool revision =
          .error (.interrupted (.fault (.outOfRange 6 entry.2))) ∧
        (⟨"f", [⟨0⟩, entry.1]⟩ : Prototype).display pool =
          .error (.fault (.outOfRange 6 entry.2))) ∧
      ∀ entry ∈ dangling,
        (⟨"f", [⟨2⟩, entry.1]⟩ : Prototype).mangle pool .v1_2 =
          .error (.rejected (.unsupported "pipe_t" .v1_2)) ∧
        (⟨"f", [⟨2⟩, entry.1]⟩ : Prototype).display pool =
          .error (.fault (.outOfRange 6 entry.2)) ∧
        ∃ before param after, [⟨2⟩, entry.1] = before ++ param :: after ∧
          (∀ earlier ∈ before, pool.Closed earlier) ∧
          ∃ id, pool.Reaches param id ∧ pool.node? id = none ∧
            Fault.outOfRange 6 entry.2 = .outOfRange pool.size id.index := by
  let pool : Pool := ⟨#[.primitive .int, .block [⟨0⟩, ⟨7⟩, ⟨9⟩], .primitive .pipe, .vector ⟨8⟩ 4,
    .atomic ⟨9⟩, .pointer ⟨6⟩ .globalMemory ∅]⟩
  let dangling : List (TypeId × Nat) := [(⟨1⟩, 7), (⟨3⟩, 8), (⟨4⟩, 9), (⟨5⟩, 6)]
  have acyclic (id : TypeId) : pool.Acyclic id := Pool.acyclic_of_falling (by decide) id
  have broken : ∀ entry ∈ dangling, ∀ revision ∈ [Revision.v1_2, .v2_0],
      (⟨"f", [⟨0⟩, entry.1]⟩ : Prototype).mangle pool revision =
        .error (.interrupted (.fault (.outOfRange 6 entry.2))) := by decide +kernel
  have rejected : ∀ entry ∈ dangling, (⟨"f", [⟨2⟩, entry.1]⟩ : Prototype).mangle pool .v1_2 =
      .error (.rejected (.unsupported "pipe_t" .v1_2)) := by decide +kernel
  have shown : ∀ entry ∈ dangling, (⟨"f", [⟨2⟩, entry.1]⟩ : Prototype).display pool =
      .error (.fault (.outOfRange 6 entry.2)) := by decide +kernel
  refine ⟨pool, dangling, rfl, rfl, acyclic, ?_, ?_⟩
  · intro entry listed revision known
    have here := broken entry listed revision known
    exact ⟨here, (mangle_interruption rfl fun param _ => acyclic param).1 _ here⟩
  · intro entry listed
    obtain ⟨before, param, after, split, closed, missing, _⟩ :=
      (@mangle_interruption pool .v1_2 _ rfl fun param _ => acyclic param).2.2.1 _
        (shown entry listed)
    exact ⟨rejected entry listed, shown entry listed, before, param, after, split, closed, missing⟩

end Prototype
end SpirSymbol
