import SpirSymbol.Proofs.Renaming
import SpirSymbol.Proofs.Spelling

namespace SpirSymbol

section Nodes

variable {node node' : Node} {qualifiers qualifiers' : Qualifiers} {draft draft' : Draft}
  {id : TypeId}

/-- A block that takes nothing, in either of the two ways to write it. -/
def Node.IsVoidBlock (node : Node) : Prop :=
  node = .block [] ∨ node = .block [.ofPrimitive .void]

/-- Two ways to write one node. -/
inductive Node.Respells : Node → Node → Prop where
  | same (node : Node) : Respells node node
  | block {node node' : Node} (void : node.IsVoidBlock) (void' : node'.IsVoidBlock) :
    Respells node node'
  | pointer {pointee : TypeId} {space : AddressSpace} {qualifiers qualifiers' : Qualifiers}
      (known : qualifiers.truncate = qualifiers'.truncate) :
    Respells (.pointer pointee space qualifiers) (.pointer pointee space qualifiers')

theorem Node.Respells.symm (respells : node.Respells node') : node'.Respells node := by
  cases respells with
  | same => exact .same node
  | block void void' => exact .block void' void
  | pointer known => exact .pointer known.symm

/-- Two nodes that the same texts are written for, around the same children. -/
structure Node.WrittenAlike (node node' : Node) : Prop where
  numbered : node.isNumbered = node'.isNumbered
  judged : ∀ revision : Revision, revision.supports node = revision.supports node'
  opening : node.opening.map Token.text = node'.opening.map Token.text
  closing : node.closing = node'.closing
  reading : node.reading = node'.reading

theorem Qualifiers.toList_eq_of_truncate (known : qualifiers.truncate = qualifiers'.truncate) :
    qualifiers.toList = qualifiers'.toList := by
  rw [← toList_truncate, known, toList_truncate]

theorem Node.Respells.void_or_alike (respells : node.Respells node') :
    node.IsVoidBlock ∧ node'.IsVoidBlock ∨ node.WrittenAlike node' := by
  cases respells with
  | same => exact .inr ⟨rfl, fun _ => rfl, rfl, rfl, rfl⟩
  | block void void' => exact .inl ⟨void, void'⟩
  | pointer known =>
    have listed := Qualifiers.toList_eq_of_truncate known
    refine .inr ⟨rfl, fun _ => rfl, ?_, rfl, ?_⟩
    · simp [opening, Token.text, Qualifiers.code, listed]
    · simp [reading, children, spell, pointerWords, Qualifiers.readable, listed]

/-- Two drafts in which the same texts are written and the same handles have numbers. -/
structure Draft.Reads (draft draft' : Draft) : Prop where
  texts : draft.tokens.toList.map Token.text = draft'.tokens.toList.map Token.text
  numbers : draft.numbers = draft'.numbers
  listed : ∃ seen, draft.numbers.Lists seen

namespace Draft

theorem reads_empty : (∅ : Draft).Reads ∅ := ⟨rfl, rfl, [], .empty⟩

theorem Reads.symm (reads : draft.Reads draft') : draft'.Reads draft :=
  ⟨reads.texts.symm, reads.numbers.symm, reads.numbers ▸ reads.listed⟩

theorem Reads.write {tokens tokens' : List Token} (reads : draft.Reads draft')
    (same : tokens.map Token.text = tokens'.map Token.text) :
    (draft.write tokens).Reads (draft'.write tokens') :=
  ⟨by simp [Draft.write, reads.texts, same], reads.numbers, reads.listed⟩

theorem Reads.enter (reads : draft.Reads draft') (alike : node.WrittenAlike node')
    (new : draft.numberOf? node id = none) : (draft.enter node id).Reads (draft'.enter node' id) := by
  obtain ⟨seen, lists⟩ := reads.listed
  refine ⟨?_, ?_, _, lists_enter lists new⟩
  · simp [Draft.enter, reads.texts, alike.opening]
  · simp [Draft.enter, reads.numbers, alike.numbered]

end Draft
end Nodes

/-- A pool with the type `void` in its place, and one of the same size whose nodes are written in
other ways. -/
structure Pool.Respelled (pool other : Pool) : Prop where
  void : pool.node? (.ofPrimitive .void) = some (.primitive .void)
  nodes : List.Forall₂ Node.Respells pool.nodes.toList other.nodes.toList

section VoidBlocks

variable {pool : Pool} {revision : Revision} {draft draft' : Draft} {id : TypeId} {node : Node}

/-- The draft after a block that takes nothing. -/
def Draft.voidBlock (revision : Revision) (draft : Draft) : Except Obstacle Draft :=
  if revision.supports Kind.block then .ok (draft.write [.blockStart, .primitive .void, .blockEnd])
  else .error .unsupported

theorem Draft.Reads.voidBlock (reads : draft.Reads draft') :
    Agrees Reads (draft.voidBlock revision) (draft'.voidBlock revision) := by
  unfold Draft.voidBlock
  split
  · exact .ok (reads.write rfl)
  · exact .error _

namespace Pool

variable (void : pool.node? (.ofPrimitive .void) = some (.primitive .void))
  (found : pool.node? id = some node) (block : node.IsVoidBlock)
include void found block

/-- Both ways to write a block that takes nothing are encoded alike, one node deeper at most. -/
theorem encodeWithin_voidBlock (depth : Nat) :
    pool.encodeWithin revision (depth + 2) draft id = draft.voidBlock revision := by
  have judged : revision.supports node = revision.supports Kind.block := by
    rcases block with rfl | rfl <;> rfl
  have new : draft.numberOf? node id = none := by
    rcases block with rfl | rfl <;> rfl
  cases supported : revision.supports Kind.block with
  | false =>
    rw [encodeWithin_lacking found new (judged.trans supported)]
    simp [Draft.voidBlock, supported]
  | true =>
    rw [encodeWithin_enter found new (judged.trans supported)]
    rcases block with rfl | rfl
    · simp [Draft.voidBlock, supported, Node.children, Node.opening, Node.closing, Draft.enter,
        Draft.write, Node.isNumbered, Except.map, pure, Except.pure]
    · have old : revision.supports (Node.primitive .void) = true :=
        decide_eq_true (Revision.v1_2_le revision)
      simp [Draft.voidBlock, supported, Node.children, Node.opening, Node.closing, Draft.enter,
        Draft.write, Node.isNumbered, Except.map, pure, Except.pure, bind, Except.bind,
        encodeWithin_enter void rfl old]

theorem encodeWithin_voidBlock_of_ended {depth : Nat}
    (ended : pool.encodeWithin revision depth draft id ≠ .error (.interrupted .endless)) :
    pool.encodeWithin revision depth draft id = draft.voidBlock revision := by
  have deeper := encodeWithin_settling pool revision draft id depth (depth + 2) (by omega) ended
  exact deeper.symm.trans (encodeWithin_voidBlock void found block depth)

theorem readableWithin_voidBlock (depth : Nat) :
    pool.readableWithin (depth + 2) id = .ok "void (void)*" := by
  rcases block with rfl | rfl
  · exact readableWithin_spelled found rfl
  · have inside : [TypeId.ofPrimitive .void].mapM (pool.readableWithin (depth + 1)) =
        .ok ["void"] := by
      rw [List.mapM_cons, readableWithin_spelled void rfl]
      rfl
    exact readableWithin_spelled found inside

theorem readableWithin_voidBlock_of_ended {depth : Nat}
    (ended : pool.readableWithin depth id ≠ .error .endless) :
    pool.readableWithin depth id = .ok "void (void)*" := by
  have deeper := readableWithin_settling pool id depth (depth + 2) (by omega) ended
  exact deeper.symm.trans (readableWithin_voidBlock void found block depth)

end Pool
end VoidBlocks

namespace Pool.Respelled

variable {pool other : Pool} {revision : Revision} {draft draft' : Draft} {id : TypeId}
  {depth deeper : Nat}

theorem size_eq (respelled : pool.Respelled other) : pool.size = other.size := by
  simpa [size] using respelled.nodes.length_eq

theorem node?_cases (respelled : pool.Respelled other) (id : TypeId) :
    (pool.node? id = none ∧ other.node? id = none) ∨
      ∃ node node', pool.node? id = some node ∧ other.node? id = some node' ∧
        node.Respells node' := by
  cases found : pool.node? id with
  | none =>
    have outside := node?_eq_none_iff.mp found
    exact .inl ⟨rfl, node?_eq_none_iff.mpr (respelled.size_eq ▸ outside)⟩
  | some node =>
    cases found' : other.node? id with
    | none =>
      have outside := node?_eq_none_iff.mp found'
      rw [← respelled.size_eq, ← node?_eq_none_iff, found] at outside
      cases outside
    | some node' =>
      refine .inr ⟨node, node', rfl, rfl, ?_⟩
      obtain ⟨inside, same⟩ := Array.getElem?_eq_some_iff.mp found
      obtain ⟨inside', same'⟩ := Array.getElem?_eq_some_iff.mp found'
      have placed := (List.forall₂_iff_get.mp respelled.nodes).2 id.index inside inside'
      simpa [same, same'] using placed

theorem symm (respelled : pool.Respelled other) : other.Respelled pool := by
  refine ⟨?_, (respelled.nodes.imp fun _ _ => Node.Respells.symm).flip⟩
  rcases respelled.node?_cases (.ofPrimitive .void) with ⟨missing, _⟩ |
    ⟨node, node', found, found', respells⟩
  · rw [respelled.void] at missing
    cases missing
  · obtain rfl := Option.some.inj (respelled.void.symm.trans found)
    cases respells with
    | same => exact found'
    | block void => rcases void with same | same <;> cases same

/-- A run that ends agrees with one in the other pool that may go one node deeper. -/
theorem encodeWithin_agrees (respelled : pool.Respelled other) (reads : draft.Reads draft')
    (ended : pool.encodeWithin revision depth draft id ≠ .error (.interrupted .endless)) :
    Agrees Draft.Reads (pool.encodeWithin revision depth draft id)
      (other.encodeWithin revision (depth + 1) draft' id) := by
  refine encodeWithin_agrees_of_ended 1 ?_ reads rfl (Nat.le_refl _) ended
  rintro draft draft' id _ reads rfl
  rcases respelled.node?_cases id with ⟨gone, gone'⟩ | ⟨node, node', found, found', respells⟩
  · exact .inl (.missing gone gone' respelled.size_eq rfl)
  · rcases respells.void_or_alike with ⟨void, void'⟩ | alike
    · refine .inr fun depth deeper order ended => ?_
      obtain ⟨below, rfl⟩ : ∃ below, deeper = below + 1 := ⟨deeper - 1, by omega⟩
      rw [encodeWithin_voidBlock_of_ended respelled.void found void ended,
        encodeWithin_voidBlock respelled.symm.void found' void']
      exact reads.voidBlock
    · refine .inl ?_
      have number : draft.numberOf? node id = draft'.numberOf? node' id := by
        simp only [Draft.numberOf?, alike.numbered, reads.numbers]
      cases place : draft.numberOf? node id with
      | some number' => exact .again found found' place (number ▸ place) (reads.write rfl)
      | none =>
        have children : node.children = node'.children := congrArg Prod.fst alike.reading
        refine .enter found found' place (number ▸ place) (alike.judged revision) ?_
          (reads.enter alike place) fun inner inner' reads => reads.write (by rw [alike.closing])
        rw [children]
        exact List.forall₂_refl _

theorem encode_agrees (respelled : pool.Respelled other) (reads : draft.Reads draft') :
    Agrees Draft.Reads (pool.encode revision draft id) (other.encode revision draft' id) := by
  obtain ⟨_, lists⟩ := reads.listed
  obtain ⟨_, lists'⟩ := reads.symm.listed
  have forth (depth : Nat)
      (ended : pool.encodeWithin revision depth draft id ≠ .error (.interrupted .endless)) :
      ∃ deeper, Agrees Draft.Reads (pool.encodeWithin revision depth draft id)
        (other.encodeWithin revision deeper draft' id) :=
    ⟨_, respelled.encodeWithin_agrees reads ended⟩
  have back (depth : Nat)
      (ended : other.encodeWithin revision depth draft' id ≠ .error (.interrupted .endless)) :
      ∃ deeper, Agrees Draft.Reads (pool.encodeWithin revision deeper draft id)
        (other.encodeWithin revision depth draft' id) :=
    ⟨_, (respelled.symm.encodeWithin_agrees reads.symm ended).symm fun _ _ => Draft.Reads.symm⟩
  exact Agrees.of_ended forth back (fun _ => encode_eq_of_ended lists)
    fun _ => encode_eq_of_ended lists'

theorem readableWithin_eq (respelled : pool.Respelled other)
    (ended : pool.readableWithin depth id ≠ .error .endless) :
    other.readableWithin (depth + 1) id = pool.readableWithin depth id := by
  refine readableWithin_copies 1 respelled.size_eq (fun id => ?_) (Nat.le_refl _) ended
  rcases respelled.node?_cases id with ⟨gone, gone'⟩ | ⟨node, node', found, found', respells⟩
  · exact .inl (by rw [gone, gone'])
  · rcases respells.void_or_alike with ⟨void, void'⟩ | alike
    · refine .inr fun depth deeper order ended => ?_
      obtain ⟨below, rfl⟩ : ∃ below, deeper = below + 1 := ⟨deeper - 1, by omega⟩
      rw [readableWithin_voidBlock_of_ended respelled.void found void ended,
        readableWithin_voidBlock respelled.symm.void found' void']
    · exact .inl (by rw [found, found', Option.map_some, Option.map_some, alike.reading])

theorem readable_eq (respelled : pool.Respelled other) (id : TypeId) :
    pool.readable id = other.readable id := by
  have forth (depth : Nat) (ended : pool.readableWithin depth id ≠ .error .endless) :
      ∃ deeper, Agrees Eq (pool.readableWithin depth id) (other.readableWithin deeper id) :=
    ⟨_, .of_eq (respelled.readableWithin_eq ended).symm⟩
  have back (depth : Nat) (ended : other.readableWithin depth id ≠ .error .endless) :
      ∃ deeper, Agrees Eq (pool.readableWithin deeper id) (other.readableWithin depth id) :=
    ⟨_, .of_eq (respelled.symm.readableWithin_eq ended)⟩
  exact (Agrees.of_ended forth back (fun _ => readable_eq_of_ended)
    fun _ => readable_eq_of_ended).eq

end Pool.Respelled

/-- No symbol, whatever the revision, and no diagnostic tells which way the nodes are written in: a
prototype has the same symbol and spelling in both pools, or is rejected or interrupted alike, and
every handle is spelled alike. -/
theorem Prototype.mangle_respelling {pool other : Pool} (respelled : pool.Respelled other) :
    (∀ prototype : Prototype, prototype.Indistinct pool prototype other) ∧
      ∀ id, pool.readable id = other.readable id := by
  refine ⟨fun prototype => ⟨fun revision => ?_, ?_⟩, respelled.readable_eq⟩
  · have each : List.Forall₂ Eq prototype.params prototype.params := List.forall₂_refl _
    refine mangle_eq_of_agrees rfl each ?_ Draft.reads_empty fun _ _ reads => reads.texts
    rintro draft draft' param _ reads rfl
    exact Pool.encodeParam_agrees (respelled.encode_agrees reads) (respelled.readable_eq param)
  · have each : List.Forall₂ Eq prototype.params prototype.params := List.forall₂_refl _
    refine display_eq_of_readable rfl each ?_
    rintro param _ rfl
    exact respelled.readable_eq param

/-- A constant pointer to a block that takes the pointer, a block that takes nothing, a vector and
an atomic type of the pointer. The second pool has other unknown bits in the pointer and writes
`void` out. -/
theorem Prototype.mangle_respelling_cycle :
    ∃ pool other : Pool,
      pool = ⟨Pool.new.nodes ++
        #[.block [], .pointer ⟨37⟩ .globalMemory ⟨132⟩, .vector ⟨6⟩ 4, .atomic ⟨34⟩,
          .block [⟨34⟩, ⟨33⟩, ⟨35⟩, ⟨36⟩]]⟩ ∧
      other = ⟨Pool.new.nodes ++
        #[.block [⟨12⟩], .pointer ⟨37⟩ .globalMemory ⟨12⟩, .vector ⟨6⟩ 4, .atomic ⟨34⟩,
          .block [⟨34⟩, ⟨33⟩, ⟨35⟩, ⟨36⟩]]⟩ ∧
      pool.Respelled other ∧
      (⟨"f", [⟨34⟩, ⟨33⟩]⟩ : Prototype).mangle pool .v2_0 =
        .ok ("_Z1fPKU3AS1U13block_pointerFvS0_U13block_pointerFvvEDv4_iU7_AtomicS0_E" ++
          "U13block_pointerFvvE") ∧
      (⟨"f", [⟨34⟩, ⟨33⟩]⟩ : Prototype).Indistinct pool ⟨"f", [⟨34⟩, ⟨33⟩]⟩ other := by
  let pool : Pool := ⟨Pool.new.nodes ++
    #[.block [], .pointer ⟨37⟩ .globalMemory ⟨132⟩, .vector ⟨6⟩ 4, .atomic ⟨34⟩,
      .block [⟨34⟩, ⟨33⟩, ⟨35⟩, ⟨36⟩]]⟩
  let other : Pool := ⟨Pool.new.nodes ++
    #[.block [⟨12⟩], .pointer ⟨37⟩ .globalMemory ⟨12⟩, .vector ⟨6⟩ 4, .atomic ⟨34⟩,
      .block [⟨34⟩, ⟨33⟩, ⟨35⟩, ⟨36⟩]]⟩
  have respelled : pool.Respelled other := by
    refine ⟨by decide, ?_⟩
    simp only [pool, other, Array.toList_append]
    refine List.rel_append (List.forall₂_same.mpr fun node _ => .same node) ?_
    exact .cons (.block (.inl rfl) (.inr rfl)) (.cons (.pointer rfl)
      (List.forall₂_same.mpr fun node _ => .same node))
  exact ⟨pool, other, rfl, rfl, respelled, by decide +kernel, (mangle_respelling respelled).1 _⟩

end SpirSymbol
