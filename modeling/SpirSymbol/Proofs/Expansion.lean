import SpirSymbol.Proofs.Plain
import SpirSymbol.Proofs.Prototype

namespace SpirSymbol

/-- A back-reference becomes the component of its number. -/
def Token.expand (component : Nat → List Token) : Token → List Token
  | again number => component number
  | token => [token]

theorem Node.again_not_mem_opening (node : Node) (number : Nat) :
    .again number ∉ node.opening := by
  cases node with
  | block params => cases params <;> simp [opening]
  | primitive _ | pointer _ _ _ | vector _ _ | atomic _ | user _ => simp [opening]

theorem Node.again_not_mem_closing (node : Node) (number : Nat) :
    .again number ∉ node.closing := by
  cases node <;> simp [closing]

theorem Token.flatMap_expand (component : Nat → List Token) {tokens : List Token}
    (plain : ∀ number, .again number ∉ tokens) : tokens.flatMap (expand component) = tokens := by
  induction tokens with
  | nil => rfl
  | cons token rest ih =>
    have here : expand component token = [token] := by
      cases token with
      | again number => exact absurd List.mem_cons_self (plain number)
      | _ => rfl
    rw [List.flatMap_cons, here, ih fun number later => plain number (List.mem_cons_of_mem _ later)]
    rfl

namespace Pool

open Relation

variable {pool : Pool} {revision : Revision} {id : TypeId} {node : Node} {depth : Nat}
  {seen ids last : List TypeId} {stops : List Stop}

/-- The function gives for each place in the list what the handle there is in full. -/
def Components (pool : Pool) (revision : Revision) (ids : List TypeId)
    (component : Nat → List Token) : Prop :=
  ∀ number id tokens, ids[number]? = some id → pool.plain revision id = .ok tokens →
    component number = tokens

/-- The handle can be written in full. -/
def Complete (pool : Pool) (revision : Revision) (id : TypeId) : Prop :=
  ∃ tokens, pool.plain revision id = .ok tokens

/-- A handle with a number can be written in full, or else is still being written, and then all
that is to come is below it. -/
def Pending (pool : Pool) (revision : Revision) (seen ids : List TypeId) : Prop :=
  ∀ id ∈ seen, pool.Complete revision id ∨ ∀ later ∈ ids, TransGen pool.Edge id later

theorem Pending.mono {later : List TypeId} (pending : pool.Pending revision seen ids)
    (subset : later ⊆ ids) : pool.Pending revision seen later := by
  intro id member
  exact (pending id member).imp_right fun below other listed => below other (subset listed)

theorem Pending.append {others : List TypeId} (pending : pool.Pending revision seen ids)
    (complete : ∀ id ∈ others, pool.Complete revision id) :
    pool.Pending revision (seen ++ others) ids := by
  intro id member
  rcases List.mem_append.mp member with earlier | later
  · exact pending id earlier
  · exact .inl (complete id later)

theorem Pending.enter (pending : pool.Pending revision seen (id :: ids))
    (found : pool.node? id = some node) :
    pool.Pending revision (seen ++ node.registers id) node.children := by
  intro other member
  rcases List.mem_append.mp member with earlier | here
  · refine (pending other earlier).imp_right fun below child listed => ?_
    exact (below id List.mem_cons_self).tail (edge_of_mem found listed)
  · obtain rfl := Node.eq_of_mem_registers here
    exact .inr fun child listed => .single (edge_of_mem found listed)

theorem Walk.getElem?_of_again {number : Nat} (walk : pool.Walk seen ids stops last)
    (member : .again number ∈ stops.flatMap Stop.tokens) : ∃ id, last[number]? = some id := by
  induction walk with
  | done => cases member
  | again found numbered place rest ih =>
    rcases List.mem_cons.mp member with here | later
    · obtain rfl := Token.again.inj here
      exact ⟨_, rest.getElem?_last place⟩
    · exact ih later
  | @enter seen ids middle last id node inner stops found new inside rest ihInside ihRest =>
    simp only [List.cons_append, List.flatMap_cons, List.flatMap_append, List.mem_append,
      Stop.tokens, node.again_not_mem_opening, node.again_not_mem_closing, false_or] at member
    rcases member with below | later
    · obtain ⟨other, place⟩ := ihInside below
      exact ⟨other, rest.getElem?_last place⟩
    · exact ihRest later

/-- What a walk writes, expanded, is what its handles are in full. -/
theorem Walk.expansion (walk : pool.Walk seen ids stops last)
    (acyclic : ∀ id ∈ ids, pool.Acyclic id) (pending : pool.Pending revision seen ids)
    (supported : ∀ id node, .enter id node ∈ stops → revision.supports node = true) :
    (∀ id ∈ Stop.registered stops, pool.Complete revision id) ∧
      ∃ parts, ids.mapM (pool.plain revision) = .ok parts ∧
        ∀ component, pool.Components revision last component →
          (stops.flatMap Stop.tokens).flatMap (Token.expand component) = parts.flatten := by
  induction walk with
  | done => exact ⟨by simp [Stop.registered], [], rfl, by simp⟩
  | @again seen ids last id node number stops found numbered place rest ih =>
    obtain ⟨complete, parts, written, expanded⟩ := ih
      (fun other member => acyclic other (by simp [member]))
      (pending.mono (List.subset_cons_self _ _))
      (fun other node member => supported other node (by simp [member]))
    have finished : pool.Complete revision id := by
      refine (pending id (List.mem_of_getElem? place)).resolve_right fun below => ?_
      exact (acyclic id List.mem_cons_self).irrefl (below id List.mem_cons_self)
    obtain ⟨tokens, full⟩ := finished
    refine ⟨complete, tokens :: parts, mapM_cons_eq_ok.mpr ⟨_, _, full, written, rfl⟩, ?_⟩
    intro component components
    have same := components number id tokens (rest.getElem?_last place) full
    simp [Stop.tokens, Token.expand, same, expanded component components]
  | @enter seen ids middle last id node inner stops found new inside rest ihInside ihRest =>
    have here := acyclic id List.mem_cons_self
    obtain ⟨completeInside, parts, writtenInside, expandedInside⟩ := ihInside
      (fun child member => here.below (edge_of_mem found member)) (pending.enter found)
      (fun other node member => supported other node (by simp [member]))
    have full : pool.plain revision id = .ok (node.opening ++ parts.flatten ++ node.closing) := by
      rw [plain_of_supported here found (supported id node (by simp)), writtenInside]
      rfl
    have completeBelow : ∀ other ∈ node.registers id ++ Stop.registered inner,
        pool.Complete revision other := by
      intro other member
      rcases List.mem_append.mp member with self | below
      · exact Node.eq_of_mem_registers self ▸ ⟨_, full⟩
      · exact completeInside other below
    have met : middle = seen ++ (node.registers id ++ Stop.registered inner) := by
      rw [inside.last_eq, List.append_assoc]
    obtain ⟨completeRest, others, writtenRest, expandedRest⟩ := ihRest
      (fun other member => acyclic other (by simp [member]))
      (met ▸ (pending.mono (List.subset_cons_self _ _)).append completeBelow)
      (fun other node member => supported other node (by simp [member]))
    refine ⟨?_, _ :: others, mapM_cons_eq_ok.mpr ⟨_, _, full, writtenRest, rfl⟩, ?_⟩
    · intro other member
      simp only [List.cons_append, Stop.registered, Stop.registered_append, List.mem_append,
        ← or_assoc] at member
      rcases member with below | later
      · exact completeBelow other (List.mem_append.mpr below)
      · exact completeRest other later
    · intro component components
      have earlier : pool.Components revision middle component := by
        intro number other tokens place
        exact components number other tokens (rest.getElem?_last place)
      simp [Stop.tokens, Token.flatMap_expand component node.again_not_mem_opening,
        Token.flatMap_expand component node.again_not_mem_closing, expandedInside component earlier,
        expandedRest component components]

section Obstacles

variable {draft : Draft} {obstacle : Obstacle} {param : TypeId}

theorem plain_eq_error_of_encodeWithin
    (run : pool.encodeWithin revision depth draft id = .error obstacle)
    (ended : obstacle ≠ .interrupted .endless) (acyclic : pool.Acyclic id)
    (lists : draft.numbers.Lists seen) (pending : pool.Pending revision seen [id]) :
    pool.plain revision id = .error obstacle := by
  induction depth generalizing draft id seen with
  | zero => exact absurd (Except.error.inj run).symm ended
  | succ depth ih =>
    rcases encodeWithin_error run with
      ⟨empty, _⟩ | ⟨below, same, ⟨missing, rfl⟩ | ⟨node, found, _, lacking, rfl⟩ | down⟩
    · cases empty
    · exact plain_of_missing missing
    · exact plain_of_lacking found lacking
    · obtain rfl := Nat.succ.inj same
      obtain ⟨next, child, descent, failed⟩ := down
      cases descent with
      | @child node before after _ _ found absent supported split reached =>
        have listed : before ⊆ node.children ∧ child ∈ node.children := by simp [split]
        have deeper (other : TypeId) (member : other ∈ node.children) : pool.Acyclic other :=
          acyclic.below (edge_of_mem found member)
        obtain ⟨stops, last, walk, lists', _, supports⟩ :=
          tours_of_foldlM (fun _ _ _ step => tours_of_encodeWithin step) reached _
            (Draft.lists_enter lists absent)
        have entered := pending.enter found
        obtain ⟨complete, parts, written, _⟩ := walk.expansion
          (fun other member => deeper other (listed.1 member)) (entered.mono listed.1) supports
        have waiting : pool.Pending revision last [child] := by
          rw [walk.last_eq]
          exact (entered.mono (by simpa using listed.2)).append complete
        have stopped := ih failed (deeper child listed.2) lists' waiting
        rw [plain_of_supported acyclic found supported, split,
          mapM_eq_error_of_split written stopped]
        rfl

end Obstacles

/-- Parameters that were walked can be written in full, and nothing is still being written. -/
theorem expansion_of_params {draft : Draft} {params : List TypeId}
    (run : params.foldlM (pool.encodeParam revision) ∅ = .ok draft)
    (acyclic : ∀ param ∈ params, pool.Acyclic param) :
    ∃ listed, draft.numbers.Lists listed ∧ (∀ id ∈ listed, pool.Complete revision id) ∧
      (∀ number, .again number ∈ draft.tokens → ∃ id, listed[number]? = some id) ∧
      ∃ parts, params.mapM (pool.plain revision) = .ok parts ∧
        ∀ component, pool.Components revision listed component →
          draft.tokens.toList.flatMap (Token.expand component) = parts.flatten := by
  obtain ⟨stops, last, walk, lists, tokens, supported⟩ := walk_of_params run
  have pending : pool.Pending revision [] params := by simp [Pending]
  obtain ⟨complete, parts, written, expanded⟩ := walk.expansion acyclic pending supported
  refine ⟨last, lists, ?_, ?_, parts, written, ?_⟩
  · simpa [walk.last_eq] using complete
  · intro number member
    rw [← Array.mem_toList_iff, tokens] at member
    exact walk.getElem?_of_again member
  · rw [tokens]
    exact expanded

theorem plain_eq_error_of_params {draft : Draft} {before : List TypeId} {param : TypeId}
    {obstacle : Obstacle} (walked : before.foldlM (pool.encodeParam revision) ∅ = .ok draft)
    (acyclicBefore : ∀ earlier ∈ before, pool.Acyclic earlier) (acyclic : pool.Acyclic param)
    (run : pool.encode revision draft param = .error obstacle) :
    pool.plain revision param = .error obstacle := by
  have ended : obstacle ≠ .interrupted .endless := by
    rintro rfl
    exact encode_ne_endless acyclic.guarded run
  obtain ⟨_, lists, complete, _⟩ := expansion_of_params walked acyclicBefore
  exact plain_eq_error_of_encodeWithin run ended acyclic lists fun id member =>
    .inl (complete id member)

/-- What each place in a list stands for, in full. -/
def componentOf (pool : Pool) (revision : Revision) (listed : List TypeId) (number : Nat) :
    List Token :=
  match listed[number]?.map (pool.plain revision) with
  | some (.ok tokens) => tokens
  | _ => []

theorem components_componentOf (pool : Pool) (revision : Revision) (listed : List TypeId) :
    pool.Components revision listed (pool.componentOf revision listed) := by
  intro number id tokens place full
  simp [componentOf, place, full]

/-- Each back-reference in the draft has the number of a handle, and the function gives for each
number what its handle is in full. -/
structure Expansion (pool : Pool) (revision : Revision) (draft : Draft)
    (component : Nat → List Token) : Prop where
  given : ∀ number, .again number ∈ draft.tokens → ∃ id, draft.numbers.find? id = some number
  full : ∀ id number, draft.numbers.find? id = some number →
    pool.plain revision id = .ok (component number)

theorem exists_expansion {draft : Draft} {params : List TypeId}
    (run : params.foldlM (pool.encodeParam revision) ∅ = .ok draft)
    (acyclic : ∀ param ∈ params, pool.Acyclic param) :
    ∃ component, pool.Expansion revision draft component ∧
      ∃ parts, params.mapM (pool.plain revision) = .ok parts ∧
        draft.tokens.toList.flatMap (Token.expand component) = parts.flatten := by
  obtain ⟨listed, lists, complete, given, parts, written, expanded⟩ :=
    expansion_of_params run acyclic
  have components := components_componentOf pool revision listed
  refine ⟨pool.componentOf revision listed, ⟨?_, ?_⟩, parts, written, expanded _ components⟩
  · intro number member
    obtain ⟨id, place⟩ := given number member
    exact ⟨id, (lists.find?_iff id number).mpr place⟩
  · intro id number found
    have place := (lists.find?_iff id number).mp found
    obtain ⟨tokens, full⟩ := complete id (List.mem_of_getElem? place)
    rw [full, components number id tokens place full]

end Pool

namespace Prototype

variable {pool : Pool} {revision : Revision} {prototype : Prototype} {failure : Failure}

/-- Where there is no cycle, both encoders fail in the same parameter at the same obstacle. -/
theorem plainMangle_eq_error (named : prototype.isNull = false)
    (acyclic : ∀ param ∈ prototype.params, pool.Acyclic param)
    (failed : prototype.mangle pool revision = .error failure) :
    prototype.plainMangle pool revision = .error failure ∧
      ((∃ type, failure = .rejected (.unsupported type revision)) ∨
        ∃ index, failure = .interrupted (.fault (.outOfRange pool.size index))) := by
  obtain ⟨before, param, after, draft, obstacle, split, walked, run, rfl⟩ :=
    exists_of_mangle_eq_error named failed
  have here : pool.Acyclic param := acyclic param (by simp [split])
  have straight : ∀ earlier ∈ before, pool.Acyclic earlier :=
    fun other member => acyclic other (by simp [split, member])
  obtain ⟨_, _, _, _, parts, written, _⟩ := Pool.expansion_of_params walked straight
  have stopped := Pool.plain_eq_error_of_params walked straight here run
  refine ⟨?_, Pool.failure_of_acyclic here run⟩
  have reported : pool.plainParam revision param =
      .error (pool.failure revision param obstacle) := by
    rw [Pool.plainParam, stopped]
    rfl
  have earlier : before.mapM (pool.plainParam revision) = .ok parts := mapM_mapError_eq_ok written
  rw [plainMangle_eq_map named, split, mapM_eq_error_of_split earlier reported]
  rfl

theorem plainMangle_eq_ok {text : String} (acyclic : ∀ param ∈ prototype.params, pool.Acyclic param)
    (mangled : prototype.mangle pool revision = .ok text) :
    ∃ draft component, prototype.params.foldlM (pool.encodeParam revision) ∅ = .ok draft ∧
      text = Symbol.text ⟨prototype.name, draft.tokens.toList⟩ ∧
      pool.Expansion revision draft component ∧
      prototype.plainMangle pool revision = .ok (Symbol.text
        ⟨prototype.name, draft.tokens.toList.flatMap (Token.expand component)⟩) := by
  obtain ⟨named, draft, run, rfl⟩ := mangle_eq_ok_iff.mp mangled
  obtain ⟨component, expansion, parts, written, expanded⟩ := Pool.exists_expansion run acyclic
  have plain : prototype.params.mapM (pool.plainParam revision) = .ok parts :=
    mapM_mapError_eq_ok written
  refine ⟨draft, component, run, rfl, expansion, ?_⟩
  rw [plainMangle_eq_map named, plain, expanded]
  rfl

/-- Where there is no cycle, numbering changes no outcome: the two encoders fail alike, and a
symbol becomes the plain one when each back-reference in it is replaced by the component of its
number in full. -/
theorem mangle_expansion (named : prototype.isNull = false)
    (acyclic : ∀ param ∈ prototype.params, pool.Acyclic param) :
    (∀ failure, prototype.mangle pool revision = .error failure ↔
        prototype.plainMangle pool revision = .error failure) ∧
      (∀ failure, prototype.mangle pool revision = .error failure →
        (∃ type, failure = .rejected (.unsupported type revision)) ∨
          ∃ index, failure = .interrupted (.fault (.outOfRange pool.size index))) ∧
      ∀ text, prototype.mangle pool revision = .ok text →
        ∃ draft component, prototype.params.foldlM (pool.encodeParam revision) ∅ = .ok draft ∧
          text = Symbol.text ⟨prototype.name, draft.tokens.toList⟩ ∧
          pool.Expansion revision draft component ∧
          prototype.plainMangle pool revision = .ok (Symbol.text
            ⟨prototype.name, draft.tokens.toList.flatMap (Token.expand component)⟩) := by
  refine ⟨?_, ?_, fun text => plainMangle_eq_ok acyclic⟩
  · intro failure
    constructor
    · intro failed
      exact (plainMangle_eq_error named acyclic failed).1
    · intro failed
      cases mangled : prototype.mangle pool revision with
      | ok text =>
        obtain ⟨_, _, _, _, _, plain⟩ := plainMangle_eq_ok acyclic mangled
        rw [failed] at plain
        cases plain
      | error other =>
        have same := (plainMangle_eq_error named acyclic mangled).1
        rw [failed] at same
        cases same
        rfl
  · intro failure failed
    exact (plainMangle_eq_error named acyclic failed).2

/-- The number of the pointer is used twice, below an atomic type in a block and after the block,
and that of the user type once, after the pointer that it was first met below. The earlier revision
rejects the block in both encoders. -/
theorem mangle_expansion_block :
    ∃ pool : Pool, pool = ⟨#[.user "ut", .pointer ⟨0⟩ .globalMemory ⟨4⟩, .primitive .float,
        .vector ⟨2⟩ 4, .atomic ⟨1⟩, .block [⟨1⟩, ⟨4⟩, ⟨3⟩]]⟩ ∧
      (⟨"f", [⟨5⟩, ⟨0⟩, ⟨1⟩]⟩ : Prototype).mangle pool .v2_0 =
        .ok "_Z1fU13block_pointerFvPKU3AS12utU7_AtomicS0_Dv4_fES1_S0_" ∧
      (⟨"f", [⟨5⟩, ⟨0⟩, ⟨1⟩]⟩ : Prototype).plainMangle pool .v2_0 =
        .ok "_Z1fU13block_pointerFvPKU3AS12utU7_AtomicPKU3AS12utDv4_fE2utPKU3AS12ut" ∧
      (∃ draft component, [⟨5⟩, ⟨0⟩, ⟨1⟩].foldlM (pool.encodeParam .v2_0) ∅ = .ok draft ∧
        pool.Expansion .v2_0 draft component ∧
        "_Z1fU13block_pointerFvPKU3AS12utU7_AtomicPKU3AS12utDv4_fE2utPKU3AS12ut" = Symbol.text
          ⟨"f", draft.tokens.toList.flatMap (Token.expand component)⟩) ∧
      (⟨"f", [⟨5⟩, ⟨0⟩, ⟨1⟩]⟩ : Prototype).plainMangle pool .v1_2 = .error (.rejected
        (.unsupported "void (const __global ut *, atomic_const __global ut *, float4)*" .v1_2)) := by
  let pool : Pool := ⟨#[.user "ut", .pointer ⟨0⟩ .globalMemory ⟨4⟩, .primitive .float,
    .vector ⟨2⟩ 4, .atomic ⟨1⟩, .block [⟨1⟩, ⟨4⟩, ⟨3⟩]]⟩
  let prototype : Prototype := ⟨"f", [⟨5⟩, ⟨0⟩, ⟨1⟩]⟩
  have descending : pool.Descending := by decide
  have acyclic : ∀ param ∈ prototype.params, pool.Acyclic param :=
    fun param _ => descending.acyclic param
  have mangled : prototype.mangle pool .v2_0 =
      .ok "_Z1fU13block_pointerFvPKU3AS12utU7_AtomicS0_Dv4_fES1_S0_" := by decide +kernel
  have plain : prototype.plainMangle pool .v2_0 =
      .ok "_Z1fU13block_pointerFvPKU3AS12utU7_AtomicPKU3AS12utDv4_fE2utPKU3AS12ut" := by
    decide +kernel
  have rejected : prototype.mangle pool .v1_2 = .error (.rejected
      (.unsupported "void (const __global ut *, atomic_const __global ut *, float4)*" .v1_2)) := by
    decide +kernel
  obtain ⟨draft, component, run, _, expansion, same⟩ := (mangle_expansion rfl acyclic).2.2 _ mangled
  exact ⟨pool, rfl, mangled, plain, ⟨draft, component, run, expansion,
    Except.ok.inj (plain.symm.trans same)⟩, ((mangle_expansion rfl acyclic).1 _).mp rejected⟩

end Prototype
end SpirSymbol
