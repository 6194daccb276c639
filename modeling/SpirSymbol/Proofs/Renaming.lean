import SpirSymbol.Proofs.Ending
import SpirSymbol.Proofs.Prototype
import SpirSymbol.Proofs.Simulation

/-! Renaming of nodes. Symbols and diagnostics depend on what the nodes of a type hold and on which
pointers and user types are the same node, never on where nodes stand in a pool, how many others it
has, or whether nodes of the other kinds are shared. -/
namespace SpirSymbol

namespace Node

variable {node node' : Node}

theorem isNumbered_shape (node : Node) : node.shape.isNumbered = node.isNumbered := by
  cases node <;> rfl

theorem opening_shape (node : Node) : node.shape.opening = node.opening := by
  cases node with
  | block params => cases params <;> rfl
  | _ => rfl

theorem closing_shape (node : Node) : node.shape.closing = node.closing := by
  cases node <;> rfl

theorem supports_shape (revision : Revision) (node : Node) :
    revision.supports node.shape = revision.supports node := by
  cases node <;> rfl

theorem spell_shape (children : String) (node : Node) :
    node.shape.spell children = node.spell children := by
  cases node with
  | block params => cases params <;> rfl
  | _ => rfl

theorem shape_mapChildren (rename : TypeId → TypeId) (node : Node) :
    (node.mapChildren rename).shape = node.shape := by
  cases node <;> simp [shape, mapChildren, Function.comp_def]

/-- What the shape of a node tells is told alike by nodes of one shape. -/
theorem eq_of_shape {α : Type} {view : Node → α} (told : ∀ node, view (shape node) = view node)
    (same : node.shape = node'.shape) : view node = view node' := by
  rw [← told, same, told]

end Node

/-- Related handles name nodes that differ in their children only, which are related place by place,
and pointers and user types are shared alike. -/
structure Pool.Renaming (pool other : Pool) (related : TypeId → TypeId → Prop) : Prop where
  agree : ∀ id id', related id id' → ∃ node node', pool.node? id = some node ∧
    other.node? id' = some node' ∧ node.shape = node'.shape ∧
    List.Forall₂ related node.children node'.children
  shared : ∀ id id' twin twin', related id id' → related twin twin' →
    pool.Numbered id → pool.Numbered twin → (id = twin ↔ id' = twin')

/-- Everything that the handles reach stands in the second pool under its new handle, and no two
pointers or user types have become one. -/
structure Pool.Copied (pool other : Pool) (rename : TypeId → TypeId) (ids : List TypeId) :
    Prop where
  copied : ∀ start ∈ ids, ∀ id, pool.Reaches start id → ∃ node, pool.node? id = some node ∧
    other.node? (rename id) = some (node.mapChildren rename)
  apart : ∀ start ∈ ids, ∀ start' ∈ ids, ∀ id twin, pool.Reaches start id →
    pool.Reaches start' twin → pool.Numbered id → pool.Numbered twin →
    rename id = rename twin → id = twin

/-- Two drafts have written the same tokens, and given numbers to related handles in one order. -/
structure Pool.Mirrors (pool : Pool) (related : TypeId → TypeId → Prop) (draft draft' : Draft)
    (seen seen' : List TypeId) : Prop where
  tokens : draft.tokens = draft'.tokens
  lists : draft.numbers.Lists seen
  lists' : draft'.numbers.Lists seen'
  each : List.Forall₂ related seen seen'
  numbered : ∀ id ∈ seen, pool.Numbered id

/-- One of two drafts mirrors the other. -/
def Pool.Mirrored (pool : Pool) (related : TypeId → TypeId → Prop) (draft draft' : Draft) : Prop :=
  ∃ seen seen', pool.Mirrors related draft draft' seen seen'

section Mirrored

variable {pool other : Pool} {related : TypeId → TypeId → Prop} {revision : Revision}
  {draft draft' : Draft} {id id' : TypeId} {node node' : Node} {seen seen' : List TypeId}

theorem Pool.mirrored_empty (pool : Pool) (related : TypeId → TypeId → Prop) :
    pool.Mirrored related ∅ ∅ := ⟨[], [], rfl, .empty, .empty, .nil, by simp⟩

theorem Pool.Mirrored.write {tokens : List Token} (mirrored : pool.Mirrored related draft draft') :
    pool.Mirrored related (draft.write tokens) (draft'.write tokens) := by
  obtain ⟨seen, seen', mirrors⟩ := mirrored
  exact ⟨seen, seen', by simp [Draft.write, mirrors.tokens], mirrors.lists, mirrors.lists',
    mirrors.each, mirrors.numbered⟩

theorem Pool.Mirrored.enter (mirrored : pool.Mirrored related draft draft')
    (linked : related id id') (found : pool.node? id = some node)
    (same : node.shape = node'.shape) (new : draft.numberOf? node id = none)
    (new' : draft'.numberOf? node' id' = none) :
    pool.Mirrored related (draft.enter node id) (draft'.enter node' id') := by
  obtain ⟨seen, seen', mirrors⟩ := mirrored
  have kind := Node.eq_of_shape Node.isNumbered_shape same
  refine ⟨_, _, ?_, Draft.lists_enter mirrors.lists new, Draft.lists_enter mirrors.lists' new',
    ?_, ?_⟩
  · simp [Draft.enter, mirrors.tokens, Node.eq_of_shape Node.opening_shape same]
  · refine List.rel_append mirrors.each ?_
    simp only [Node.registers, kind]
    split
    · exact .cons linked .nil
    · exact .nil
  · intro twin member
    rcases List.mem_append.mp member with earlier | here
    · exact mirrors.numbered twin earlier
    · obtain rfl := Node.eq_of_mem_registers here
      by_cases numbered : node.isNumbered = true
      · exact ⟨node, found, numbered⟩
      · simp [Node.registers, numbered] at here

namespace Pool.Renaming

theorem getElem?_iff (renamed : pool.Renaming other related) (linked : related id id')
    (numbered : pool.Numbered id) (each : List.Forall₂ related seen seen')
    (all : ∀ twin ∈ seen, pool.Numbered twin) (place : Nat) :
    seen[place]? = some id ↔ seen'[place]? = some id' := by
  induction each generalizing place with
  | nil => simp
  | @cons twin twin' _ _ head _ ih =>
    cases place with
    | zero =>
      simpa using renamed.shared twin twin' id id' head linked (all twin List.mem_cons_self) numbered
    | succ place =>
      simpa using ih (fun twin member => all twin (List.mem_cons_of_mem _ member)) place

theorem numberOf?_eq (renamed : pool.Renaming other related) (linked : related id id')
    (mirrored : pool.Mirrored related draft draft') (found : pool.node? id = some node)
    (same : node.shape = node'.shape) : draft.numberOf? node id = draft'.numberOf? node' id' := by
  obtain ⟨seen, seen', mirrors⟩ := mirrored
  have kind := Node.eq_of_shape Node.isNumbered_shape same
  ext number
  simp only [Draft.numberOf?_eq_some_iff, mirrors.lists.find?_iff, mirrors.lists'.find?_iff, ← kind]
  refine and_congr_right fun numbered => ?_
  exact renamed.getElem?_iff linked ⟨node, found, numbered⟩ mirrors.each mirrors.numbered number

/-- Related handles are met alike. -/
theorem meets (renamed : pool.Renaming other related) (mirrored : pool.Mirrored related draft draft')
    (linked : related id id') :
    Meets pool other revision related (pool.Mirrored related) draft draft' id id' := by
  obtain ⟨node, node', found, found', same, each⟩ := renamed.agree id id' linked
  have number := renamed.numberOf?_eq linked mirrored found same
  cases new : draft.numberOf? node id with
  | some place => exact .again found found' new (number ▸ new) mirrored.write
  | none =>
    have new' : draft'.numberOf? node' id' = none := number ▸ new
    refine .enter found found' new new' (Node.eq_of_shape (Node.supports_shape revision) same) each
      (mirrored.enter linked found same new new') ?_
    intro inner inner' mirrored
    rw [Node.eq_of_shape Node.closing_shape same]
    exact mirrored.write

theorem encode_agrees (renamed : pool.Renaming other related) (linked : related id id')
    (mirrored : pool.Mirrored related draft draft') :
    Agrees (pool.Mirrored related) (pool.encode revision draft id)
      (other.encode revision draft' id') := by
  have ⟨_, _, mirrors⟩ := mirrored
  exact .of_deep
    (fun depth => encodeWithin_agrees depth (fun _ _ _ _ => renamed.meets) mirrored linked)
    (fun _ => encode_eq_of_ended mirrors.lists) fun _ => encode_eq_of_ended mirrors.lists'

theorem readableWithin_eq (renamed : pool.Renaming other related) (depth : Nat)
    (linked : related id id') : pool.readableWithin depth id = other.readableWithin depth id' := by
  induction depth generalizing id id' with
  | zero => rfl
  | succ depth ih =>
    obtain ⟨node, node', found, found', same, each⟩ := renamed.agree id id' linked
    simp only [readableWithin, node_eq_ok_iff.mpr found, node_eq_ok_iff.mpr found',
      mapM_eq_of_forall₂ each fun _ _ linked => ih linked,
      Node.eq_of_shape (Node.spell_shape _) same]

theorem readable_eq (renamed : pool.Renaming other related) (linked : related id id') :
    pool.readable id = other.readable id' := by
  have deep (depth : Nat) :
      Agrees Eq (pool.readableWithin depth id) (other.readableWithin depth id') :=
    .of_eq (renamed.readableWithin_eq depth linked)
  exact (Agrees.of_deep deep (fun _ => readable_eq_of_ended) fun _ => readable_eq_of_ended).eq

end Pool.Renaming
end Mirrored

namespace Prototype

variable {pool other : Pool} {related : TypeId → TypeId → Prop} {revision : Revision}
  {prototype prototype' : Prototype}

theorem mangle_eq_of_renaming (renamed : pool.Renaming other related)
    (name : prototype.name = prototype'.name)
    (each : List.Forall₂ related prototype.params prototype'.params) :
    prototype.mangle pool revision = prototype'.mangle other revision := by
  refine mangle_eq_of_agrees name each ?_ (pool.mirrored_empty related) ?_
  · intro draft draft' param param' mirrored linked
    exact Pool.encodeParam_agrees (renamed.encode_agrees linked mirrored) (renamed.readable_eq linked)
  · rintro draft draft' ⟨_, _, mirrors⟩
    rw [mirrors.tokens]

theorem display_eq_of_renaming (renamed : pool.Renaming other related)
    (name : prototype.name = prototype'.name)
    (each : List.Forall₂ related prototype.params prototype'.params) :
    prototype.display pool = prototype'.display other :=
  display_eq_of_readable name each fun _ _ linked => renamed.readable_eq linked

/-- Two prototypes, each in its own pool, have one symbol at every revision, or are rejected or
interrupted alike, and diagnostics spell them alike. -/
structure Indistinct (prototype : Prototype) (pool : Pool) (prototype' : Prototype)
    (other : Pool) : Prop where
  mangle : ∀ revision, prototype.mangle pool revision = prototype'.mangle other revision
  display : prototype.display pool = prototype'.display other

theorem indistinct_of_renaming (renamed : pool.Renaming other related)
    (name : prototype.name = prototype'.name)
    (each : List.Forall₂ related prototype.params prototype'.params) :
    prototype.Indistinct pool prototype' other :=
  ⟨fun _ => mangle_eq_of_renaming renamed name each, display_eq_of_renaming renamed name each⟩

/-- The same prototype over other handles. -/
def rename (rename : TypeId → TypeId) (prototype : Prototype) : Prototype :=
  ⟨prototype.name, prototype.params.map rename⟩

end Prototype

namespace Pool

variable {pool other larger : Pool} {rename : TypeId → TypeId} {ids : List TypeId} {node : Node}
  {id : TypeId}

/-- The second handle is the new one of the first, which the handles reach. -/
def Moved (pool : Pool) (rename : TypeId → TypeId) (ids : List TypeId) (id id' : TypeId) : Prop :=
  (∃ start ∈ ids, pool.Reaches start id) ∧ rename id = id'

theorem moved_of_mem (pool : Pool) (rename : TypeId → TypeId) (listed : id ∈ ids) :
    pool.Moved rename ids id (rename id) := ⟨⟨id, listed, .refl id⟩, rfl⟩

theorem forall₂_moved (pool : Pool) (rename : TypeId → TypeId) (ids : List TypeId) :
    List.Forall₂ (pool.Moved rename ids) ids (ids.map rename) := by
  rw [List.forall₂_map_right_iff, List.forall₂_same]
  exact fun id listed => pool.moved_of_mem rename listed

theorem Copied.renaming (copied : pool.Copied other rename ids) :
    pool.Renaming other (pool.Moved rename ids) := by
  constructor
  · rintro id id' ⟨⟨start, listed, path⟩, rfl⟩
    obtain ⟨node, found, found'⟩ := copied.copied start listed id path
    refine ⟨node, _, found, found', (node.shape_mapChildren rename).symm, ?_⟩
    rw [Node.children_mapChildren, List.forall₂_map_right_iff, List.forall₂_same]
    exact fun child member => ⟨⟨start, listed, path.tail (edge_of_mem found member)⟩, rfl⟩
  · rintro id id' twin twin' ⟨⟨start, listed, path⟩, rfl⟩ ⟨⟨start', listed', path'⟩, rfl⟩ numbered
      numbered'
    exact ⟨congrArg rename, copied.apart start listed start' listed' id twin path path' numbered
      numbered'⟩

/-- A pool with one node more has everything under its old handle. -/
theorem copied_add (added : pool.add node = (.ok id, larger))
    (closed : ∀ start ∈ ids, pool.Closed start) : pool.Copied larger (fun id => id) ids := by
  constructor
  · intro start listed other path
    obtain ⟨entry, found⟩ := Option.ne_none_iff_exists'.mp (closed start listed other path)
    have same : entry.mapChildren (fun id => id) = entry := by
      cases entry <;> simp [Node.mapChildren]
    refine ⟨entry, found, ?_⟩
    rw [same]
    exact node?_add_of_some added found
  · intro _ _ _ _ first second _ _ _ _ same
    exact same

end Pool

/-- Prototypes over related handles have the same symbols and diagnostics. This is so for a
prototype and its copy, which may stand in another order, and share or double what is neither a
pointer nor a user type, and when nodes are added to the pool. -/
theorem Prototype.mangle_renaming (pool other : Pool) :
    (∀ related, pool.Renaming other related →
      (∀ prototype prototype' : Prototype, prototype.name = prototype'.name →
        List.Forall₂ related prototype.params prototype'.params →
        prototype.Indistinct pool prototype' other) ∧
      ∀ id id', related id id' → pool.readable id = other.readable id') ∧
    (∀ rename, ∀ prototype : Prototype, pool.Copied other rename prototype.params →
      prototype.Indistinct pool (prototype.rename rename) other ∧
      ∀ param ∈ prototype.params, pool.readable param = other.readable (rename param)) ∧
    ∀ node id, ∀ prototype : Prototype, pool.add node = (.ok id, other) →
      (∀ param ∈ prototype.params, pool.Closed param) → prototype.Indistinct pool prototype other := by
  refine ⟨?_, ?_, ?_⟩
  · intro related renamed
    exact ⟨fun _ _ => indistinct_of_renaming renamed, fun _ _ => renamed.readable_eq⟩
  · intro rename prototype copied
    have each := pool.forall₂_moved rename prototype.params
    exact ⟨indistinct_of_renaming copied.renaming rfl each,
      fun _ listed => copied.renaming.readable_eq (pool.moved_of_mem rename listed)⟩
  · intro node id prototype added closed
    have each := pool.forall₂_moved (fun id => id) prototype.params
    rw [List.map_id'] at each
    exact indistinct_of_renaming (Pool.copied_add added closed).renaming rfl each

/-- A pointer to a block that takes the pointer and an atomic type of it. One pool has the vector of
the block twice and the other has the block twice, and all nodes stand in another order. -/
theorem Prototype.mangle_renaming_cycle :
    ∃ pool other : Pool, ∃ related,
      pool = ⟨#[.user "t", .pointer ⟨5⟩ .globalMemory ∅, .primitive .int, .vector ⟨2⟩ 4,
        .vector ⟨2⟩ 4, .block [⟨3⟩, ⟨4⟩, ⟨1⟩, ⟨6⟩], .atomic ⟨1⟩]⟩ ∧
      other = ⟨#[.pointer ⟨1⟩ .globalMemory ∅, .block [⟨3⟩, ⟨3⟩, ⟨0⟩, ⟨6⟩],
        .block [⟨3⟩, ⟨3⟩, ⟨0⟩, ⟨6⟩], .vector ⟨4⟩ 4, .primitive .int, .user "t", .atomic ⟨0⟩]⟩ ∧
      pool.Renaming other related ∧
      List.Forall₂ related [⟨5⟩, ⟨0⟩, ⟨1⟩, ⟨5⟩] [⟨1⟩, ⟨5⟩, ⟨0⟩, ⟨2⟩] ∧
      (⟨"f", [⟨5⟩, ⟨0⟩, ⟨1⟩, ⟨5⟩]⟩ : Prototype).mangle pool .v2_0 =
        .ok ("_Z1fU13block_pointerFvDv4_iDv4_iPU3AS1U13block_pointerFvDv4_iDv4_iS0_U7_AtomicS0_E" ++
          "U7_AtomicS0_E1tS0_U13block_pointerFvDv4_iDv4_iS0_U7_AtomicS0_E") ∧
      (⟨"f", [⟨5⟩, ⟨0⟩, ⟨1⟩, ⟨5⟩]⟩ : Prototype).Indistinct pool
        ⟨"f", [⟨1⟩, ⟨5⟩, ⟨0⟩, ⟨2⟩]⟩ other := by
  let pool : Pool := ⟨#[.user "t", .pointer ⟨5⟩ .globalMemory ∅, .primitive .int, .vector ⟨2⟩ 4,
    .vector ⟨2⟩ 4, .block [⟨3⟩, ⟨4⟩, ⟨1⟩, ⟨6⟩], .atomic ⟨1⟩]⟩
  let other : Pool := ⟨#[.pointer ⟨1⟩ .globalMemory ∅, .block [⟨3⟩, ⟨3⟩, ⟨0⟩, ⟨6⟩],
    .block [⟨3⟩, ⟨3⟩, ⟨0⟩, ⟨6⟩], .vector ⟨4⟩ 4, .primitive .int, .user "t", .atomic ⟨0⟩]⟩
  let pairs : List (TypeId × TypeId) :=
    [(⟨0⟩, ⟨5⟩), (⟨1⟩, ⟨0⟩), (⟨2⟩, ⟨4⟩), (⟨3⟩, ⟨3⟩), (⟨4⟩, ⟨3⟩), (⟨5⟩, ⟨1⟩), (⟨5⟩, ⟨2⟩),
      (⟨6⟩, ⟨6⟩)]
  have renamed : pool.Renaming other fun id id' => (id, id') ∈ pairs := by
    constructor
    · intro id id' linked
      simp only [pairs, List.mem_cons, Prod.mk.injEq, List.not_mem_nil, or_false] at linked
      rcases linked with ⟨rfl, rfl⟩ | ⟨rfl, rfl⟩ | ⟨rfl, rfl⟩ | ⟨rfl, rfl⟩ | ⟨rfl, rfl⟩ |
        ⟨rfl, rfl⟩ | ⟨rfl, rfl⟩ | ⟨rfl, rfl⟩
      all_goals exact ⟨_, _, rfl, rfl, rfl, by decide⟩
    · have shared : ∀ pair ∈ pairs, ∀ twins ∈ pairs, pool.Numbered pair.1 →
          pool.Numbered twins.1 → (pair.1 = twins.1 ↔ pair.2 = twins.2) := by decide
      intro id id' twin twin' linked linked'
      exact shared (id, id') linked (twin, twin') linked'
  have each : List.Forall₂ (fun id id' => (id, id') ∈ pairs) [⟨5⟩, ⟨0⟩, ⟨1⟩, ⟨5⟩]
      [⟨1⟩, ⟨5⟩, ⟨0⟩, ⟨2⟩] := by simp [pairs]
  exact ⟨pool, other, _, rfl, rfl, renamed, each, by decide +kernel,
    ((mangle_renaming pool other).1 _ renamed).1 _ _ rfl each⟩

end SpirSymbol
