import Mathlib.Data.List.Chain
import SpirSymbol.Proofs.Ending
import SpirSymbol.Proofs.Prototype

/-! Nesting of calls. The depth that a run of the encoder needs is the length of its longest chain
of nested calls. Where every cycle passes through a pointer no chain is longer than the pointers
and the nodes of the pool allow, and a prototype is endless only where a rejected parameter is to
be spelled that contains itself. -/
namespace SpirSymbol

/-- A call of the encoder: the draft that it is given, and the handle that it is to encode. -/
structure Call where
  draft : Draft
  id : TypeId

namespace Pool

open Relation

variable {pool : Pool} {revision : Revision} {depth : Nat} {call : Call} {calls : List Call}
  {id : TypeId}

/-- One call makes another before it returns, for a child of its node, when the calls for the
children before that one have returned. -/
def Calls (pool : Pool) (revision : Revision) (outer inner : Call) : Prop :=
  ∃ depth, pool.Descent revision depth outer.draft outer.id inner.draft inner.id

/-- A run has too little depth exactly where calls are nested deeper. -/
theorem encodeWithin_endless_iff :
    pool.encodeWithin revision depth call.draft call.id = .error (.interrupted .endless) ↔
      ∃ calls, List.IsChain (pool.Calls revision) (call :: calls) ∧ calls.length = depth := by
  constructor
  · intro endless
    induction depth generalizing call with
    | zero => exact ⟨[], .singleton call, rfl⟩
    | succ depth ih =>
      rcases encodeWithin_error endless with ⟨empty, _⟩ | ⟨below, same, missing | lacking | down⟩
      · cases empty
      · cases missing.2
      · obtain ⟨_, _, _, _, other⟩ := lacking
        cases other
      · obtain rfl := Nat.succ.inj same
        obtain ⟨next, child, descent, failed⟩ := down
        obtain ⟨calls, chain, length⟩ := @ih ⟨next, child⟩ failed
        exact ⟨⟨next, child⟩ :: calls, .cons_cons ⟨_, descent⟩ chain, congrArg Nat.succ length⟩
  · rintro ⟨calls, chain, rfl⟩
    induction calls generalizing call with
    | nil => rfl
    | cons inner calls ih =>
      obtain ⟨⟨_, descent⟩, chain⟩ := List.isChain_cons_cons.mp chain
      exact descent.endless (ih chain)

theorem length_le_of_ended (chain : List.IsChain (pool.Calls revision) (call :: calls))
    (ended : pool.encodeWithin revision depth call.draft call.id ≠
      .error (.interrupted .endless)) : (call :: calls).length ≤ depth := by
  by_contra longer
  have enough : depth ≤ calls.length := by
    simp only [List.length_cons] at longer
    omega
  apply ended
  refine encodeWithin_endless_iff.mpr ⟨calls.take depth, ?_, List.length_take_of_le enough⟩
  exact chain.take (depth + 1)

theorem encodeWithin_ne_endless {draft : Draft} (guarded : pool.Guarded id) :
    pool.encodeWithin revision ((pool.pointerCount + 1) * (pool.size + 1)) draft id ≠
      .error (.interrupted .endless) :=
  (pool.progress_of_guarded revision).ne_endless guarded (Nat.le_refl _)

theorem length_le_of_chain (guarded : ∀ id, pool.Guarded id)
    (chain : List.IsChain (pool.Calls revision) calls) :
    calls.length ≤ (pool.pointerCount + 1) * (pool.size + 1) := by
  cases calls with
  | nil => exact Nat.zero_le _
  | cons call calls => exact length_le_of_ended chain (encodeWithin_ne_endless (guarded call.id))

theorem foldlM_encode_ne_endless {draft : Draft} {params : List TypeId}
    (guarded : ∀ id, pool.Guarded id) :
    params.foldlM (pool.encode revision) draft ≠ .error (.interrupted .endless) := by
  intro endless
  obtain ⟨_, param, _, next, _, _, failed⟩ := exists_of_foldlM_eq_error endless
  exact encode_ne_endless (guarded param) failed

theorem guarded_of_straight (straight : ∀ id, ¬ TransGen pool.PlainEdge id id) (id : TypeId) :
    pool.Guarded id := fun other _ => straight other

/-- Only a type that contains itself has no end when it is spelled. -/
theorem exists_cycle_of_readable (endless : pool.readable id = .error .endless) :
    ∃ other, pool.Reaches id other ∧ TransGen pool.Edge other other := by
  by_contra none
  push Not at none
  exact readable_ne_endless none endless

end Pool

namespace Prototype

open Relation

variable {pool : Pool} {prototype : Prototype} {revision : Revision}

/-- A prototype that the encoder ends on is endless only where a parameter is rejected that has
no end when it is spelled. -/
theorem rejected_of_endless (guarded : ∀ param ∈ prototype.params, pool.Guarded param)
    (endless : prototype.mangle pool revision = .error (.interrupted .endless)) :
    ∃ before param after draft, prototype.params = before ++ param :: after ∧
      before.foldlM (pool.encodeParam revision) ∅ = .ok draft ∧
      pool.encode revision draft param = .error .unsupported ∧
      pool.readable param = .error .endless := by
  obtain ⟨before, param, after, draft, obstacle, split, walked, run, same⟩ :=
    exists_of_mangle_eq_error (named_of_failure endless (by simp)) endless
  rcases Pool.failure_eq_interrupted_iff.mp same with rfl | ⟨rfl, spelled⟩
  · exact absurd run (Pool.encode_ne_endless (guarded param (by simp [split])))
  · exact ⟨before, param, after, draft, split, walked, run, spelled⟩

/-- Where every cycle passes through a pointer, the encoder ends at every revision, whatever it has
written before, and nests no more calls than the pointers and the nodes of the pool allow. A
prototype is then endless only where a parameter is rejected that leads to a cycle. -/
theorem mangle_nesting (prototype : Prototype) (revision : Revision)
    (straight : ∀ id, ¬ TransGen pool.PlainEdge id id) :
    (∀ calls, List.IsChain (pool.Calls revision) calls →
        calls.length ≤ (pool.pointerCount + 1) * (pool.size + 1)) ∧
      (∀ draft id, pool.encode revision draft id ≠ .error (.interrupted .endless)) ∧
      (∀ params : List TypeId,
        params.foldlM (pool.encode revision) ∅ ≠ .error (.interrupted .endless)) ∧
      (prototype.mangle pool revision = .error (.interrupted .endless) →
        ∃ before param after draft, prototype.params = before ++ param :: after ∧
          before.foldlM (pool.encodeParam revision) ∅ = .ok draft ∧
          pool.encode revision draft param = .error .unsupported ∧
          ∃ other, pool.Reaches param other ∧ TransGen pool.Edge other other) ∧
      ∀ id, pool.readable id = .error .endless →
        ∃ other, pool.Reaches id other ∧ TransGen pool.Edge other other := by
  have guarded := Pool.guarded_of_straight straight
  refine ⟨fun _ => Pool.length_le_of_chain guarded,
    fun _ id => Pool.encode_ne_endless (guarded id),
    fun _ => Pool.foldlM_encode_ne_endless guarded, ?_, fun _ => Pool.exists_cycle_of_readable⟩
  intro endless
  obtain ⟨before, param, after, draft, split, walked, run, spelled⟩ :=
    rejected_of_endless (fun param _ => guarded param) endless
  exact ⟨before, param, after, draft, split, walked, run, Pool.exists_cycle_of_readable spelled⟩

/-- A block that takes a pointer to itself, with a vector and an atomic type of the pointer. The
earlier revision rejects the pointer and cannot spell it. No more than twelve calls are nested, and
the later revision has a symbol for it. -/
theorem mangle_nesting_block :
    ∃ pool : Pool, pool = ⟨#[.primitive .int, .vector ⟨0⟩ 4, .pointer ⟨4⟩ .globalMemory ∅,
        .atomic ⟨2⟩, .block [⟨2⟩, ⟨1⟩, ⟨3⟩]]⟩ ∧
      (∀ id, ¬ TransGen pool.PlainEdge id id) ∧
      (∀ calls, List.IsChain (pool.Calls .v2_0) calls → calls.length ≤ 12) ∧
      (⟨"f", [⟨2⟩]⟩ : Prototype).mangle pool .v2_0 =
        .ok "_Z1fPU3AS1U13block_pointerFvS0_Dv4_iU7_AtomicS0_E" ∧
      (⟨"f", [⟨2⟩]⟩ : Prototype).mangle pool .v1_2 = .error (.interrupted .endless) ∧
      ∃ param ∈ [⟨2⟩], ∃ draft, pool.encode .v1_2 draft param = .error .unsupported ∧
        ∃ other, pool.Reaches param other ∧ TransGen pool.Edge other other := by
  let pool : Pool := ⟨#[.primitive .int, .vector ⟨0⟩ 4, .pointer ⟨4⟩ .globalMemory ∅,
    .atomic ⟨2⟩, .block [⟨2⟩, ⟨1⟩, ⟨3⟩]]⟩
  have straight (id : TypeId) : ¬ TransGen pool.PlainEdge id id :=
    (Pool.guarded_of_falling (by decide) id).irrefl
  have endless : (⟨"f", [⟨2⟩]⟩ : Prototype).mangle pool .v1_2 =
      .error (.interrupted .endless) := by decide +kernel
  obtain ⟨before, param, after, draft, split, _, run, cycle⟩ :=
    (mangle_nesting _ .v1_2 straight).2.2.2.1 endless
  have listed : param ∈ (⟨"f", [⟨2⟩]⟩ : Prototype).params := by
    rw [split]
    simp
  exact ⟨pool, rfl, straight, (mangle_nesting ⟨"f", [⟨2⟩]⟩ .v2_0 straight).1, by decide +kernel,
    endless, param, listed, draft, run, cycle⟩

end Prototype
end SpirSymbol
