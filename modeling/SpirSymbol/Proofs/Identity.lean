import SpirSymbol.Proofs.Matching
import SpirSymbol.Proofs.Prototype

namespace SpirSymbol

theorem Stop.eq_enter_of_user {stop : Stop} {name : String} (member : .user name ∈ stop.tokens) :
    ∃ id, stop = .enter id (.user name) := by
  cases stop with
  | enter id node =>
    cases node with
    | user name' =>
      obtain rfl : name = name' := by simpa [tokens, Node.opening] using member
      exact ⟨id, rfl⟩
    | block params => cases params <;> simp [tokens, Node.opening] at member
    | _ => simp [tokens, Node.opening] at member
  | again id number => simp [tokens] at member
  | leave id node => cases node <;> simp [tokens, Node.closing] at member

namespace Pool

variable {pool other : Pool} {seen ids ids' last last' listed listed' : List TypeId}
  {stops stops' : List Stop} {id id' : TypeId} {node node' : Node}

/-- A relation between the nodes that two parameter lists reach. It leads from the parameters down
place by place, relates only nodes that agree, and shares pointers and user types alike. -/
structure Correspondence (pool other : Pool) (params params' : List TypeId)
    (related : TypeId → TypeId → Prop) : Prop where
  each : List.Forall₂ related params params'
  reached : ∀ id id', related id id' →
    (∃ param ∈ params, pool.Reaches param id) ∧ ∃ param ∈ params', other.Reaches param id'
  agree : ∀ id id', related id id' → ∃ node node', pool.node? id = some node ∧
    other.node? id' = some node' ∧ pool.Matches other related node node'
  shared : ∀ id id' twin twin', related id id' → related twin twin' → pool.Numbered id →
    (id = twin ↔ id' = twin')

section Correspondence

variable {related finer : TypeId → TypeId → Prop}

private theorem forall₂_of_mem (each : List.Forall₂ related ids ids')
    (imp : ∀ id ∈ ids, ∀ id' ∈ ids', related id id' → finer id id') :
    List.Forall₂ finer ids ids' := by
  induction each with
  | nil => exact .nil
  | cons first _ ih =>
    refine .cons (imp _ List.mem_cons_self _ List.mem_cons_self first) (ih ?_)
    intro id member id' member'
    exact imp id (List.mem_cons_of_mem _ member) id' (List.mem_cons_of_mem _ member')

theorem Matches.of_mem (agree : pool.Matches other related node node')
    (imp : ∀ id ∈ node.children, ∀ id' ∈ node'.children, related id id' → finer id id') :
    pool.Matches other finer node node' := by
  cases agree with
  | primitive kind => exact .primitive kind
  | pointer space known below =>
    exact .pointer space known (imp _ List.mem_cons_self _ List.mem_cons_self below)
  | vector length below =>
    exact .vector length (imp _ List.mem_cons_self _ List.mem_cons_self below)
  | atomic below => exact .atomic (imp _ List.mem_cons_self _ List.mem_cons_self below)
  | block each => exact .block (forall₂_of_mem each imp)
  | voidLeft void => exact .voidLeft void
  | voidRight void => exact .voidRight void
  | user name => exact .user name

theorem Matches.isNumbered_eq (agree : pool.Matches other related node node') :
    node.isNumbered = node'.isNumbered := by
  cases agree <;> rfl

theorem Paired.eq_iff {twin twin' : TypeId} (distinct : listed.Nodup) (distinct' : listed'.Nodup)
    (paired : Paired listed listed' id id') (paired' : Paired listed listed' twin twin') :
    id = twin ↔ id' = twin' := by
  obtain ⟨number, place, place'⟩ := paired
  obtain ⟨second, other, other'⟩ := paired'
  constructor
  · intro same
    subst same
    obtain rfl := place_unique distinct place other
    exact Option.some.inj (place'.symm.trans other')
  · intro same
    subst same
    obtain rfl := place_unique distinct' place' other'
    exact Option.some.inj (place.symm.trans other)

theorem Twins.numbered_iff (twins : pool.Twins other listed listed' id id') :
    pool.Numbered id ↔ other.Numbered id' := by
  obtain ⟨node, node', found, found', agree⟩ := twins
  simp [Numbered, found, found', agree.isNumbered_eq]

theorem Similar.paired (similar : pool.Similar other listed listed' id id')
    (numbered : pool.Numbered id) : Paired listed listed' id id' := by
  cases similar with
  | numbered paired => exact paired
  | node found _ plain _ =>
    obtain ⟨node, found', numbered⟩ := numbered
    obtain rfl := Option.some.inj (found.symm.trans found')
    rw [plain] at numbered
    cases numbered

theorem Agreement.twins_of_similar
    (agreement : pool.Agreement other last last' [] ids last ids' last')
    (similar : pool.Similar other last last' id id') : pool.Twins other last last' id id' := by
  cases similar with
  | numbered paired =>
    obtain ⟨number, place, place'⟩ := paired
    exact agreement.twins number id id' (Nat.zero_le _) place place'
  | node found found' _ agree => exact ⟨_, _, found, found', agree⟩

/-- Two whole walks that write the same tokens set up a correspondence. -/
theorem Walk.correspondence (walk : pool.Walk [] ids stops last)
    (walk' : other.Walk [] ids' stops' last')
    (same : Stop.written stops = Stop.written stops') :
    ∃ related, pool.Correspondence other ids ids' related := by
  have closed : Token.Closed [] := .inl rfl
  obtain ⟨_, agreement⟩ := walk.determines (fun _ _ place => place) walk' rfl
    (fun _ _ place => place) (congrArg (· ++ []) same) (.inr ⟨closed, closed⟩)
  let related (id id' : TypeId) : Prop := pool.Similar other last last' id id' ∧
    (∃ param ∈ ids, pool.Reaches param id) ∧ ∃ param ∈ ids', other.Reaches param id'
  refine ⟨related, ?_, ?_, ?_, ?_⟩
  · apply forall₂_of_mem agreement.similar
    intro id member id' member' similar
    exact ⟨similar, ⟨id, member, .refl id⟩, ⟨id', member', .refl id'⟩⟩
  · intro id id' linked
    exact linked.2
  · intro id id' linked
    obtain ⟨similar, ⟨param, listed, path⟩, ⟨param', listed', path'⟩⟩ := linked
    obtain ⟨node, node', found, found', agree⟩ := agreement.twins_of_similar similar
    refine ⟨node, node', found, found', agree.of_mem ?_⟩
    intro child member child' member' similar
    exact ⟨similar, ⟨param, listed, path.tail (edge_of_mem found member)⟩,
      ⟨param', listed', path'.tail (edge_of_mem found' member')⟩⟩
  · intro id id' twin twin' linked linked' numbered
    have similar := linked.1
    have similar' := linked'.1
    have distinct := walk.nodup List.nodup_nil
    have distinct' := walk'.nodup List.nodup_nil
    have paired := similar.paired numbered
    constructor
    · intro same
      subst same
      exact (paired.eq_iff distinct distinct' (similar'.paired numbered)).mp rfl
    · intro same
      subst same
      have across := (agreement.twins_of_similar similar).numbered_iff.mp numbered
      have back := (agreement.twins_of_similar similar').numbered_iff.mpr across
      exact (paired.eq_iff distinct distinct' (similar'.paired back)).mpr rfl

end Correspondence

/-- Every user type that the parameters reach has a clear name. -/
def ClearNames (pool : Pool) (params : List TypeId) : Prop :=
  ∀ param ∈ params, ∀ id name, pool.Reaches param id → pool.node? id = some (.user name) →
    ClearName name

theorem clearNames_of_nodes {params : List TypeId}
    (clear : ∀ name, .user name ∈ pool.nodes → ClearName name) : pool.ClearNames params := by
  intro param _ id name _ found
  apply clear
  exact Array.mem_of_getElem? found

theorem Walk.clear_of_mem {token : Token} (walk : pool.Walk seen ids stops last)
    (clear : pool.ClearNames ids) (member : token ∈ stops.flatMap Stop.tokens) : token.Clear := by
  obtain ⟨stop, listed, written⟩ := List.mem_flatMap.mp member
  cases token with
  | user name =>
    obtain ⟨id, rfl⟩ := Stop.eq_enter_of_user written
    obtain ⟨found, param, given, path⟩ := walk.reaches listed
    exact clear param given id name path found
  | _ => trivial

end Pool

/-- One text is the symbol of one prototype only, up to what no symbol says. -/
theorem Prototype.mangle_identity {pool other : Pool} {revision revision' : Revision}
    {prototype prototype' : Prototype} {text : String}
    (mangled : prototype.mangle pool revision = .ok text)
    (mangled' : prototype'.mangle other revision' = .ok text)
    (stops : Text.Stops Char.isDigit prototype.name.toList)
    (stops' : Text.Stops Char.isDigit prototype'.name.toList)
    (clear : pool.ClearNames prototype.params) (clear' : other.ClearNames prototype'.params) :
    prototype.name = prototype'.name ∧ prototype.params.length = prototype'.params.length ∧
      ∃ related, pool.Correspondence other prototype.params prototype'.params related := by
  obtain ⟨_, draft, run, rfl⟩ := mangle_eq_ok_iff.mp mangled
  obtain ⟨_, draft', run', same⟩ := mangle_eq_ok_iff.mp mangled'
  obtain ⟨tour, last, walk, _, written, _⟩ := Pool.walk_of_params run
  obtain ⟨tour', last', walk', _, written', _⟩ := Pool.walk_of_params run'
  rw [written, written'] at same
  obtain ⟨names, known⟩ := Symbol.text_inj ⟨prototype.name, tour.flatMap Stop.tokens⟩
    ⟨prototype'.name, tour'.flatMap Stop.tokens⟩ stops stops'
    (fun _ member => walk.clear_of_mem clear member)
    (fun _ member => walk'.clear_of_mem clear' member) same.symm
  obtain ⟨related, correspondence⟩ := walk.correspondence walk' known
  exact ⟨names, correspondence.each.length_eq, related, correspondence⟩

/-- Two pools that hold the parts in different order, where one spells the block with `void` and
has a qualifier bit without a meaning. -/
theorem Prototype.mangle_identity_void :
    ∃ pool other : Pool,
      pool = ⟨#[.user "ut", .pointer ⟨0⟩ .globalMemory ⟨1⟩, .block []]⟩ ∧
      other = ⟨#[.primitive .void, .block [⟨0⟩], .user "ut", .pointer ⟨2⟩ .globalMemory ⟨9⟩]⟩ ∧
      (⟨"f", [⟨1⟩, ⟨2⟩, ⟨0⟩]⟩ : Prototype).mangle pool .v2_0 =
        .ok "_Z1fPrU3AS12utU13block_pointerFvvES1_" ∧
      (⟨"f", [⟨3⟩, ⟨1⟩, ⟨2⟩]⟩ : Prototype).mangle other .v2_0 =
        .ok "_Z1fPrU3AS12utU13block_pointerFvvES1_" ∧
      ∃ related, pool.Correspondence other [⟨1⟩, ⟨2⟩, ⟨0⟩] [⟨3⟩, ⟨1⟩, ⟨2⟩] related := by
  let pool : Pool := ⟨#[.user "ut", .pointer ⟨0⟩ .globalMemory ⟨1⟩, .block []]⟩
  let other : Pool :=
    ⟨#[.primitive .void, .block [⟨0⟩], .user "ut", .pointer ⟨2⟩ .globalMemory ⟨9⟩]⟩
  have mangled : (⟨"f", [⟨1⟩, ⟨2⟩, ⟨0⟩]⟩ : Prototype).mangle pool .v2_0 =
      .ok "_Z1fPrU3AS12utU13block_pointerFvvES1_" := by decide +kernel
  have mangled' : (⟨"f", [⟨3⟩, ⟨1⟩, ⟨2⟩]⟩ : Prototype).mangle other .v2_0 =
      .ok "_Z1fPrU3AS12utU13block_pointerFvvES1_" := by decide +kernel
  have stops : Text.Stops Char.isDigit "f".toList := Text.stops_cons rfl
  have clear : ClearName "ut" := by
    refine ⟨Text.stops_cons rfl, ?_⟩
    intro kind
    cases kind <;> decide +kernel
  obtain ⟨_, _, correspondence⟩ := mangle_identity mangled mangled' stops stops
    (Pool.clearNames_of_nodes (by simp [pool, clear]))
    (Pool.clearNames_of_nodes (by simp [other, clear]))
  exact ⟨pool, other, rfl, rfl, mangled, mangled', correspondence⟩

/-- A user type with the vendor name of a primitive kind is written as that kind. -/
example : (⟨"f", [⟨0⟩]⟩ : Prototype).mangle ⟨#[.user "ocl_pipe"]⟩ .v2_0 =
    (⟨"f", [⟨0⟩]⟩ : Prototype).mangle ⟨#[.primitive .pipe]⟩ .v2_0 := by decide +kernel

end SpirSymbol
