import SpirSymbol.Proofs.Expansion
import SpirSymbol.Proofs.Simulation
import SpirSymbol.Proofs.Substitution

namespace SpirSymbol

namespace Token

/-- The same token where so many more numbers were given before. -/
def shift (count : Nat) : Token → Token
  | again number => again (number + count)
  | token => token

/-- The text of tokens one after another. -/
def written (tokens : List Token) : String := String.join (tokens.map text)

theorem written_append (tokens others : List Token) :
    written (tokens ++ others) = written tokens ++ written others := by
  rw [written, List.map_append, String.join_append]
  rfl

/-- Tokens without a back-reference are the same whatever was numbered before. -/
theorem map_shift (count : Nat) {tokens : List Token} (plain : ∀ number, .again number ∉ tokens) :
    tokens.map (shift count) = tokens := by
  have each (token : Token) (member : token ∈ tokens) : shift count token = token := by
    cases token with
    | again number => exact absurd member (plain number)
    | _ => rfl
  rw [List.map_congr_left each, List.map_id']

end Token

variable {pool : Pool} {revision : Revision} {earlier draft later : Draft} {id : TypeId}
  {node : Node} {ids params : List TypeId} {stops : List Stop}

namespace Draft

/-- The later draft is the earlier one, continued as the middle one was written on its own. -/
structure Continues (earlier draft later : Draft) : Prop where
  tokens : later.tokens.toList =
    earlier.tokens.toList ++ draft.tokens.toList.map (Token.shift earlier.numbers.size)
  size : later.numbers.size = draft.numbers.size + earlier.numbers.size
  numbers : ∀ id, earlier.numbers.find? id = none →
    later.numbers.find? id = (draft.numbers.find? id).map (· + earlier.numbers.size)

theorem continues_empty (earlier : Draft) : earlier.Continues ∅ earlier := by
  refine ⟨by simp, by simp [Substitutions.size_empty], fun id new => ?_⟩
  simp [new, Substitutions.find?_empty]

theorem Continues.write (continues : earlier.Continues draft later) (tokens : List Token) :
    earlier.Continues (draft.write tokens)
      (later.write (tokens.map (Token.shift earlier.numbers.size))) := by
  refine ⟨?_, continues.size, continues.numbers⟩
  simp [Draft.write, continues.tokens]

theorem Continues.numberOf?_eq (continues : earlier.Continues draft later)
    (fresh : node.isNumbered = true → earlier.numbers.find? id = none) :
    later.numberOf? node id = (draft.numberOf? node id).map (· + earlier.numbers.size) := by
  by_cases numbered : node.isNumbered = true
  · simp [numberOf?, numbered, continues.numbers id (fresh numbered)]
  · simp [numberOf?, numbered]

theorem Continues.enter (continues : earlier.Continues draft later)
    (new : draft.numberOf? node id = none) (new' : later.numberOf? node id = none) :
    earlier.Continues (draft.enter node id) (later.enter node id) := by
  have opening := Token.map_shift earlier.numbers.size node.again_not_mem_opening
  have written := continues.write node.opening
  rw [opening] at written
  by_cases numbered : node.isNumbered = true
  · have absent := draft.find?_eq_none_of_numberOf? numbered new
    have absent' := later.find?_eq_none_of_numberOf? numbered new'
    refine ⟨written.tokens, ?_, ?_⟩
    · simp only [Draft.enter, numbered, ↓reduceIte, Substitutions.size_insert absent,
        Substitutions.size_insert absent', continues.size]
      omega
    · intro other fresh
      simp only [Draft.enter, numbered, ↓reduceIte, Substitutions.find?_insert]
      split
      · simp [continues.size]
      · exact continues.numbers other fresh
  · simpa [Draft.enter, numbered, Draft.write] using written

end Draft

namespace Pool

/-- No pointer or user type below the handle has a number in the draft. -/
def Fresh (pool : Pool) (draft : Draft) (id : TypeId) : Prop :=
  ∀ other, pool.Reaches id other → pool.Numbered other → draft.numbers.find? other = none

/-- One handle that is fresh for what was written earlier. -/
def FreshTwin (pool : Pool) (draft : Draft) (id id' : TypeId) : Prop :=
  id = id' ∧ pool.Fresh draft id

theorem forall₂_freshTwin (fresh : ∀ id ∈ ids, pool.Fresh draft id) :
    List.Forall₂ (pool.FreshTwin draft) ids ids := by
  rw [List.forall₂_same]
  exact fun id listed => ⟨rfl, fresh id listed⟩

theorem meets_of_fresh {id' : TypeId} (continues : earlier.Continues draft later)
    (twin : pool.FreshTwin earlier id id') :
    Meets pool pool revision (pool.FreshTwin earlier) earlier.Continues draft later id id' := by
  obtain ⟨rfl, fresh⟩ := twin
  cases found : pool.node? id with
  | none => exact .missing found found rfl rfl
  | some node =>
    have number := continues.numberOf?_eq fun numbered =>
      fresh id (.refl id) ⟨node, found, numbered⟩
    cases new : draft.numberOf? node id with
    | some place =>
      rw [new] at number
      exact .again found found new number (continues.write [.again place])
    | none =>
      rw [new] at number
      refine .enter found found new number rfl (forall₂_freshTwin fun child member other path =>
        fresh other (path.head (edge_of_mem found member))) (continues.enter new number) ?_
      intro inner inner' continues
      have closed := continues.write node.closing
      rwa [Token.map_shift _ node.again_not_mem_closing] at closed

/-- Parameters that are fresh for what was written earlier are written as if nothing had been. -/
theorem encodeParams_continue {result : Draft} (fresh : ∀ param ∈ params, pool.Fresh earlier param)
    (run : params.foldlM (pool.encodeParam revision) ∅ = .ok result) :
    ∃ result', params.foldlM (pool.encodeParam revision) earlier = .ok result' ∧
      earlier.Continues result result' := by
  have agrees : Agrees earlier.Continues (params.foldlM (pool.encodeParam revision) ∅)
      (params.foldlM (pool.encodeParam revision) earlier) := by
    refine Agrees.foldlM (forall₂_freshTwin fresh) ?_ earlier.continues_empty
    intro state state' param param' continues twin
    have encoded : Agrees earlier.Continues (pool.encode revision state param)
        (pool.encode revision state' param') :=
      encodeWithin_agrees _ (fun _ _ _ _ => meets_of_fresh) continues twin
    obtain ⟨rfl, _⟩ := twin
    exact encoded.mapError _
  rw [run] at agrees
  generalize params.foldlM (pool.encodeParam revision) earlier = outcome at agrees ⊢
  cases agrees with
  | ok continues => exact ⟨_, rfl, continues⟩

theorem Walk.acyclic {seen last : List TypeId} (walk : pool.Walk seen ids stops last)
    (once : ∀ id number, .again id number ∉ stops) : ∀ id ∈ ids, pool.Acyclic id := by
  induction walk with
  | done => simp
  | again _ _ _ _ _ => exact absurd List.mem_cons_self (once _ _)
  | @enter _ _ _ _ parent node _ _ found _ _ _ ihInside ihRest =>
    have inside := ihInside fun other number member => once other number (by simp [member])
    have rest := ihRest fun other number member => once other number (by simp [member])
    intro other member
    rcases List.mem_cons.mp member with rfl | listed
    · refine acyclic_of_children ?_
      rintro child ⟨node', found', below⟩
      obtain rfl := Option.some.inj (found.symm.trans found')
      exact inside child below
    · exact rest other listed

end Pool

theorem Stop.again_not_mem_tokens (once : ∀ id number, .again id number ∉ stops) (number : Nat) :
    .again number ∉ stops.flatMap tokens := by
  intro member
  obtain ⟨stop, listed, here⟩ := List.mem_flatMap.mp member
  cases stop with
  | enter id node => exact node.again_not_mem_opening number here
  | again id place => exact once id place listed
  | leave id node => exact node.again_not_mem_closing number here

/-- Parameters whose walk meets nothing twice are written in full. -/
theorem Pool.Walk.plain_eq {last : List TypeId} (walk : pool.Walk [] params stops last)
    (supported : ∀ id node, .enter id node ∈ stops → revision.supports node = true)
    (once : ∀ id number, .again id number ∉ stops) :
    ∃ parts, params.mapM (pool.plain revision) = .ok parts ∧
      stops.flatMap Stop.tokens = parts.flatten := by
  have pending : pool.Pending revision [] params := by simp [Pending]
  obtain ⟨_, parts, written, expanded⟩ := walk.expansion (walk.acyclic once) pending supported
  have same := expanded _ (pool.components_componentOf revision last)
  rw [Token.flatMap_expand _ (Stop.again_not_mem_tokens once)] at same
  exact ⟨parts, written, same⟩

/-- What the parameters of a prototype are written as does not depend on its name. -/
theorem Prototype.symbol_of_params {name : String} (named : name ≠ "")
    (run : params.foldlM (pool.encodeParam revision) ∅ = .ok draft) :
    (⟨name, params⟩ : Prototype).symbol pool revision = .ok ⟨name, draft.tokens.toList⟩ ∧
      (⟨name, params⟩ : Prototype).mangle pool revision =
        .ok (Symbol.lead ++ Token.counted name ++ Token.written draft.tokens.toList) := by
  have full : (⟨name, params⟩ : Prototype).isNull = false := by
    simpa [isNull] using named
  have symbol : (⟨name, params⟩ : Prototype).symbol pool revision =
      .ok ⟨name, draft.tokens.toList⟩ := by
    simp only [Prototype.symbol, full, Bool.false_eq_true, ↓reduceIte, run]
    rfl
  refine ⟨symbol, ?_⟩
  rw [mangle, symbol]
  rfl

/-- The symbol of two lists of parameters that have no pointer or user type in common. Whatever the
name, the tokens of the first list are followed by those of the second with every number larger by
how many pointers and user types the first reaches. If nothing is met twice in the second list, its
types are written in full there, as they are alone, even where they are copies of the first ones. -/
theorem Prototype.mangle_append {first second : List TypeId} {name name' text text' : String}
    (mangled : (⟨name, first⟩ : Prototype).mangle pool revision = .ok text)
    (mangled' : (⟨name', second⟩ : Prototype).mangle pool revision = .ok text')
    (apart : ∀ id, pool.Numbered id → ∀ param ∈ first, ∀ param' ∈ second,
      pool.Reaches param id → ¬ pool.Reaches param' id) :
    ∃ (tokens others : List Token) (met : List TypeId), met.Nodup ∧
      (∀ id, id ∈ met ↔ pool.Numbered id ∧ ∃ param ∈ first, pool.Reaches param id) ∧
      (∀ name, name ≠ "" →
        (⟨name, first⟩ : Prototype).symbol pool revision = .ok ⟨name, tokens⟩ ∧
        (⟨name, second⟩ : Prototype).symbol pool revision = .ok ⟨name, others⟩ ∧
        (⟨name, first ++ second⟩ : Prototype).symbol pool revision =
          .ok ⟨name, tokens ++ others.map (Token.shift met.length)⟩ ∧
        (⟨name, first⟩ : Prototype).mangle pool revision =
          .ok (Symbol.lead ++ Token.counted name ++ Token.written tokens) ∧
        (⟨name, second⟩ : Prototype).mangle pool revision =
          .ok (Symbol.lead ++ Token.counted name ++ Token.written others) ∧
        (⟨name, first ++ second⟩ : Prototype).mangle pool revision =
          .ok (Symbol.lead ++ Token.counted name ++ Token.written tokens ++
            Token.written (others.map (Token.shift met.length)))) ∧
      ∀ stops, pool.Tour second stops → (∀ id number, .again id number ∉ stops) →
        others.map (Token.shift met.length) = others ∧
        ∃ parts, second.mapM (pool.plain revision) = .ok parts ∧ others = parts.flatten := by
  obtain ⟨_, earlier, run, _⟩ := mangle_eq_ok_iff.mp mangled
  obtain ⟨_, draft, run', _⟩ := mangle_eq_ok_iff.mp mangled'
  obtain ⟨stops, last, walk, lists, _⟩ := Pool.walk_of_params run
  have registered : last = Stop.registered stops := by simpa using walk.last_eq
  have fresh (param : TypeId) (listed : param ∈ second) : pool.Fresh earlier param := by
    intro id path numbered
    refine lists.find?_eq_none_iff.mpr fun met => ?_
    obtain ⟨_, start, member, reached⟩ := walk.mem_registered_iff.mp (registered ▸ met)
    exact apart id numbered start member param listed reached path
  obtain ⟨later, run'', continues⟩ := Pool.encodeParams_continue fresh run'
  refine ⟨earlier.tokens.toList, draft.tokens.toList, last, lists.nodup, ?_, ?_, ?_⟩
  · intro id
    rw [registered]
    exact walk.mem_registered_iff
  · intro name named
    have whole : (first ++ second).foldlM (pool.encodeParam revision) ∅ = .ok later := by
      rw [List.foldlM_append, run]
      exact run''
    obtain ⟨symbol, alone⟩ := symbol_of_params named run
    obtain ⟨symbol', alone'⟩ := symbol_of_params named run'
    obtain ⟨joint, together⟩ := symbol_of_params named whole
    rw [continues.tokens, lists.size_eq] at joint together
    rw [Token.written_append, ← String.append_assoc] at together
    exact ⟨symbol, symbol', joint, alone, alone', together⟩
  · intro stops tour once
    obtain ⟨_, _, walk', _, tokens, supported⟩ := Pool.walk_of_params run'
    obtain rfl := tour.only _ _ walk'.visits
    rw [tokens]
    exact ⟨Token.map_shift _ (Stop.again_not_mem_tokens once), walk'.plain_eq supported once⟩

/-- Two blocks, whose pointers are met again after them. The number of the second one's pointer
becomes larger by two, for the pointer and the user type that the first block is given. The other
pointer to the same primitive is written in full. -/
theorem Prototype.mangle_append_copies :
    ∃ pool : Pool, pool = ⟨#[.user "ut", .pointer ⟨0⟩ .globalMemory ∅, .primitive .float,
        .pointer ⟨2⟩ .privateMemory ∅, .pointer ⟨2⟩ .privateMemory ∅, .block [⟨1⟩, ⟨0⟩],
        .block [⟨3⟩, ⟨4⟩]]⟩ ∧
      (⟨"f", [⟨5⟩, ⟨0⟩]⟩ : Prototype).mangle pool .v2_0 =
        .ok "_Z1fU13block_pointerFvPU3AS12utS1_ES1_" ∧
      (⟨"f", [⟨6⟩, ⟨3⟩]⟩ : Prototype).mangle pool .v2_0 =
        .ok "_Z1fU13block_pointerFvPfPfES0_" ∧
      (⟨"g", [⟨5⟩, ⟨0⟩, ⟨6⟩, ⟨3⟩]⟩ : Prototype).mangle pool .v2_0 =
        .ok "_Z1gU13block_pointerFvPU3AS12utS1_ES1_U13block_pointerFvPfPfES2_" ∧
      ∃ (tokens others : List Token) (met : List TypeId), met.Perm [⟨1⟩, ⟨0⟩] ∧
        (∀ id, id ∈ met ↔ pool.Numbered id ∧ ∃ param ∈ [⟨5⟩, ⟨0⟩], pool.Reaches param id) ∧
        "_Z1gU13block_pointerFvPU3AS12utS1_ES1_U13block_pointerFvPfPfES2_" =
          Symbol.lead ++ Token.counted "g" ++ Token.written tokens ++
            Token.written (others.map (Token.shift met.length)) := by
  let pool : Pool := ⟨#[.user "ut", .pointer ⟨0⟩ .globalMemory ∅, .primitive .float,
    .pointer ⟨2⟩ .privateMemory ∅, .pointer ⟨2⟩ .privateMemory ∅, .block [⟨1⟩, ⟨0⟩],
    .block [⟨3⟩, ⟨4⟩]]⟩
  have first : (⟨"f", [⟨5⟩, ⟨0⟩]⟩ : Prototype).mangle pool .v2_0 =
      .ok "_Z1fU13block_pointerFvPU3AS12utS1_ES1_" := by decide +kernel
  have second : (⟨"f", [⟨6⟩, ⟨3⟩]⟩ : Prototype).mangle pool .v2_0 =
      .ok "_Z1fU13block_pointerFvPfPfES0_" := by decide +kernel
  have both : (⟨"g", [⟨5⟩, ⟨0⟩, ⟨6⟩, ⟨3⟩]⟩ : Prototype).mangle pool .v2_0 =
      .ok "_Z1gU13block_pointerFvPU3AS12utS1_ES1_U13block_pointerFvPfPfES2_" := by
    decide +kernel
  have below {param id : TypeId} (listed : param ∈ [TypeId.mk 5, ⟨0⟩])
      (path : pool.Reaches param id) : id ∈ [TypeId.mk 5, ⟨0⟩, ⟨1⟩] :=
    Pool.mem_of_reaches (by decide) (List.subset_append_left _ [⟨1⟩] listed) path
  have apart (id : TypeId) : pool.Numbered id → ∀ param ∈ [⟨5⟩, ⟨0⟩], ∀ param' ∈ [⟨6⟩, ⟨3⟩],
      pool.Reaches param id → ¬ pool.Reaches param' id := by
    have disjoint : ∀ id ∈ [TypeId.mk 5, ⟨0⟩, ⟨1⟩], id ∉ [TypeId.mk 6, ⟨3⟩, ⟨4⟩, ⟨2⟩] := by decide
    intro _ param listed param' listed' path path'
    have start := List.subset_append_left _ [TypeId.mk 4, ⟨2⟩] listed'
    exact disjoint id (below listed path) (Pool.mem_of_reaches (by decide) start path')
  obtain ⟨tokens, others, met, distinct, reached, texts, _⟩ := mangle_append first second apart
  obtain ⟨_, _, _, _, _, together⟩ := texts "g" (by decide)
  have numbers : met.Perm [⟨1⟩, ⟨0⟩] := by
    refine (List.perm_ext_iff_of_nodup distinct (by decide)).mpr fun id => ?_
    have given : pool.Edge ⟨5⟩ ⟨1⟩ := Pool.edge_of_mem rfl (by decide)
    have plain : ¬ pool.Numbered ⟨5⟩ := by decide
    simp only [reached, List.mem_cons, List.not_mem_nil, or_false]
    constructor
    · rintro ⟨numbered, param, listed, path⟩
      have placed := below (by simpa using listed) path
      rcases List.mem_cons.mp placed with rfl | others
      · exact absurd numbered plain
      · simpa [or_comm] using others
    · rintro (rfl | rfl)
      · exact ⟨by decide, ⟨5⟩, .inl rfl, .head given (.refl _)⟩
      · exact ⟨by decide, ⟨0⟩, .inr rfl, .refl _⟩
  exact ⟨pool, rfl, first, second, both, tokens, others, met, numbers, reached,
    Except.ok.inj (both.symm.trans together)⟩

end SpirSymbol
