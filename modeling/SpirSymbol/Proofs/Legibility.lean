import SpirSymbol.Proofs.Canonical
import SpirSymbol.Proofs.Construction
import SpirSymbol.Proofs.Wording

/-! Legibility. The spelling of a type that constructors have made, and in which there is no user
type, can be read in one way only: it tells the canonical tree that the type unfolds to. -/
namespace SpirSymbol

namespace Pool

open Text (Ends)

variable {pool other : Pool} {depth depth' : Nat} {left right id : TypeId}
  {node node' : Node} {params params' : List TypeId} {texts texts' : List String}
  {rest others : List Char} {kind : Primitive}

/-- A canonical node that can be read: no user type, and a vector only if its element is a scalar
and its length one of the language. -/
def Legible (pool : Pool) : Node → Prop
  | .pointer _ _ qualifiers => qualifiers.truncate = qualifiers
  | .vector element length => length ∈ vectorLengths ∧
      ∃ kind : Primitive, kind.isScalar = true ∧ pool.node? element = some (.primitive kind)
  | .block params => params ≠ []
  | .user _ => False
  | _ => True

/-- Every node that the handle reaches can be read. -/
def LegibleBelow (pool : Pool) (start : TypeId) : Prop :=
  ∀ id node, pool.Reaches start id → pool.node? id = some node → pool.Legible node

theorem LegibleBelow.child {child : TypeId} (legible : pool.LegibleBelow id)
    (found : pool.node? id = some node) (member : child ∈ node.children) :
    pool.LegibleBelow child :=
  fun last entry path => legible last entry (path.head (edge_of_mem found member))

theorem spelled_of_singleton (taken : [id].mapM (pool.readableWithin depth) = .ok texts) :
    ∃ text, texts = [text] ∧ pool.readableWithin depth id = .ok text := by
  obtain ⟨text, _, spelled, later, rfl⟩ := mapM_cons_eq_ok.mp taken
  cases later
  exact ⟨text, rfl, spelled⟩

theorem spelled_primitive (found : pool.node? id = some (.primitive kind))
    (taken : [id].mapM (pool.readableWithin depth) = .ok texts) : texts = [kind.readable] := by
  obtain ⟨text, rfl, spelled⟩ := spelled_of_singleton taken
  obtain ⟨_, node, _, _, found', _, rfl⟩ := readableWithin_ok spelled
  obtain rfl := Option.some.inj (found.symm.trans found')
  rfl

/-- The first word of a spelling, and what follows it, tell the kind of the node. -/
theorem exists_front (legible : pool.Legible node)
    (taken : node.children.mapM (pool.readableWithin depth) = .ok texts) (ends : Ends rest) :
    ∃ word tail, (node.spell (", ".intercalate texts)).toList ++ rest = word ++ tail ∧
      (∀ char ∈ word, Text.isWord char = true) ∧ Text.Stops Text.isWord tail ∧
      Kind.ofFront word tail = node.kind := by
  cases node with
  | primitive kind =>
    exact ⟨kind.readable.toList, rest, rfl, fun _ => Primitive.isWord_of_mem_readable,
      ends.stops, Kind.ofFront_of_ends (Kind.ofWord_readable kind) ends⟩
  | pointer pointee space qualifiers =>
    obtain ⟨word, front, more, same, run⟩ := space.exists_front qualifiers.toList
      ((", ".intercalate texts).toList ++ " *".toList ++ rest)
    refine ⟨word, ' ' :: more, ?_, run, Text.stops_cons rfl,
      Kind.ofFront_of_ne (Kind.ofWord_pointer front) (by simp [Node.kind])⟩
    rw [← same, ← Node.toList_pointerWords]
    simp [Node.spell, String.toList_append]
  | vector element length =>
    obtain ⟨legal, kind, scalar, found⟩ := legible
    obtain rfl := spelled_primitive found taken
    refine ⟨kind.readable.toList ++ (Numeral.decimal length.toNat).toList, rest, ?_, ?_,
      ends.stops, Kind.ofFront_of_ends (Kind.ofWord_vector scalar legal) ends⟩
    · simp [Node.spell, String.toList_append]
    · intro char member
      rcases List.mem_append.mp member with letter | digit
      · exact Primitive.isWord_of_mem_readable letter
      · exact Text.isWord_of_isDigit (Numeral.isDigit_of_mem_decimal digit)
  | atomic base =>
    let after := (", ".intercalate texts).toList ++ rest
    refine ⟨"atomic_".toList ++ after.takeWhile Text.isWord, after.dropWhile Text.isWord, ?_, ?_,
      Text.stops_dropWhile _ _, Kind.ofFront_of_ne (Kind.ofWord_atomic _) (by simp [Node.kind])⟩
    · simp [Node.spell, String.toList_append, after]
    · intro char member
      rcases List.mem_append.mp member with letter | later
      · have table : "atomic_".toList.all Text.isWord = true := by decide
        exact List.all_eq_true.mp table char letter
      · exact List.all_eq_true.mp List.all_takeWhile char later
  | block params =>
    obtain ⟨param, more, rfl⟩ := List.exists_cons_of_ne_nil legible
    refine ⟨Primitive.void.readable.toList, ' ' :: '(' ::
      ((", ".intercalate texts).toList ++ ")*".toList ++ rest), ?_,
      fun _ => Primitive.isWord_of_mem_readable, Text.stops_cons rfl,
      Kind.ofFront_list (Kind.ofWord_readable .void) _⟩
    simp [Node.spell, String.toList_append, Primitive.readable, Primitive.row]
  | user name => exact legible.elim

/-- Where the spelling of the first handle at this depth and one of the second stand at the front
of one text, the handles unfold alike and what is left of the text is the same. -/
def UniquelyRead (pool other : Pool) (depth : Nat) (left right : TypeId) : Prop :=
  ∀ depth' text text' rest others, pool.readableWithin depth left = .ok text →
    other.readableWithin depth' right = .ok text' → Ends rest → Ends others →
    text.toList ++ rest = text'.toList ++ others →
    pool.unfolding left = other.unfolding right ∧ rest = others

/-- The handles of two lists unfold alike, place by place. -/
def UnfoldAlike (pool other : Pool) : List TypeId → List TypeId → Prop :=
  List.Forall₂ fun child child' => pool.unfolding child = other.unfolding child'

theorem UniquelyRead.only {child child' : TypeId}
    (unique : UniquelyRead pool other depth child child')
    (taken : [child].mapM (pool.readableWithin depth) = .ok texts)
    (taken' : [child'].mapM (other.readableWithin depth') = .ok texts') (ends : Ends rest)
    (ends' : Ends others) (same : (", ".intercalate texts).toList ++ rest =
      (", ".intercalate texts').toList ++ others) :
    UnfoldAlike pool other [child] [child'] ∧ rest = others := by
  obtain ⟨text, rfl, spelled⟩ := spelled_of_singleton taken
  obtain ⟨text', rfl, spelled'⟩ := spelled_of_singleton taken'
  obtain ⟨alike, follows⟩ := unique _ _ _ _ _ spelled spelled' ends ends' same
  exact ⟨.cons alike .nil, follows⟩

theorem further_inj (each : ∀ child ∈ params, ∀ child' ∈ params',
      UniquelyRead pool other depth child child')
    (taken : params.mapM (pool.readableWithin depth) = .ok texts)
    (taken' : params'.mapM (other.readableWithin depth') = .ok texts')
    (same : Text.further texts ++ ')' :: rest = Text.further texts' ++ ')' :: others) :
    UnfoldAlike pool other params params' ∧ rest = others := by
  induction params generalizing params' texts texts' with
  | nil =>
    cases taken
    cases params' with
    | nil =>
      cases taken'
      exact ⟨.nil, (List.cons.inj same).2⟩
    | cons _ _ =>
      obtain ⟨_, _, _, _, rfl⟩ := mapM_cons_eq_ok.mp taken'
      simp [Text.further] at same
  | cons param params ih =>
    obtain ⟨text, more, spelled, later, rfl⟩ := mapM_cons_eq_ok.mp taken
    cases params' with
    | nil =>
      cases taken'
      simp [Text.further] at same
    | cons param' params' =>
      obtain ⟨text', more', spelled', later', rfl⟩ := mapM_cons_eq_ok.mp taken'
      have same : text.toList ++ (Text.further more ++ ')' :: rest) =
          text'.toList ++ (Text.further more' ++ ')' :: others) := by
        simpa [Text.further] using same
      obtain ⟨first, follows⟩ := each param List.mem_cons_self param' List.mem_cons_self _ _ _ _ _
        spelled spelled' (Text.ends_further more rest) (Text.ends_further more' others) same
      obtain ⟨alike, left⟩ := ih (fun child member child' member' =>
        each child (List.mem_cons_of_mem _ member) child' (List.mem_cons_of_mem _ member'))
        later later' follows
      exact ⟨.cons first alike, left⟩

theorem params_inj (each : ∀ child ∈ params, ∀ child' ∈ params',
      UniquelyRead pool other depth child child')
    (some : params ≠ []) (some' : params' ≠ [])
    (taken : params.mapM (pool.readableWithin depth) = .ok texts)
    (taken' : params'.mapM (other.readableWithin depth') = .ok texts')
    (same : (", ".intercalate texts).toList ++ ')' :: rest =
      (", ".intercalate texts').toList ++ ')' :: others) :
    UnfoldAlike pool other params params' ∧ rest = others := by
  obtain ⟨param, params, rfl⟩ := List.exists_cons_of_ne_nil some
  obtain ⟨param', params', rfl⟩ := List.exists_cons_of_ne_nil some'
  obtain ⟨text, more, spelled, later, rfl⟩ := mapM_cons_eq_ok.mp taken
  obtain ⟨text', more', spelled', later', rfl⟩ := mapM_cons_eq_ok.mp taken'
  rw [Text.toList_intercalate_cons, Text.toList_intercalate_cons, List.append_assoc,
    List.append_assoc] at same
  obtain ⟨first, follows⟩ := each param List.mem_cons_self param' List.mem_cons_self _ _ _ _ _
    spelled spelled' (Text.ends_further more rest) (Text.ends_further more' others) same
  obtain ⟨alike, left⟩ := further_inj (fun child member child' member' =>
    each child (List.mem_cons_of_mem _ member) child' (List.mem_cons_of_mem _ member'))
    later later' follows
  exact ⟨.cons first alike, left⟩

/-- Nodes of one kind have one shape, and children that unfold alike, where their spellings stand at
the front of one text. -/
theorem spell_inj (kinds : node.kind = node'.kind)
    (each : ∀ child ∈ node.children, ∀ child' ∈ node'.children,
      UniquelyRead pool other depth child child')
    (legible : pool.Legible node) (legible' : other.Legible node')
    (taken : node.children.mapM (pool.readableWithin depth) = .ok texts)
    (taken' : node'.children.mapM (other.readableWithin depth') = .ok texts') (ends : Ends rest)
    (ends' : Ends others)
    (same : (node.spell (", ".intercalate texts)).toList ++ rest =
      (node'.spell (", ".intercalate texts')).toList ++ others) :
    (node.shape = node'.shape ∧ UnfoldAlike pool other node.children node'.children) ∧
      rest = others := by
  cases node with
  | primitive kind =>
    cases node' with
    | primitive kind' =>
      obtain ⟨word, follows⟩ := Text.append_inj_of_stops
        (fun _ => Primitive.isWord_of_mem_readable) (fun _ => Primitive.isWord_of_mem_readable)
        ends.stops ends'.stops same
      obtain rfl := Primitive.readable_inj word
      exact ⟨⟨rfl, .nil⟩, follows⟩
    | _ => cases kinds
  | pointer pointee space qualifiers =>
    cases node' with
    | pointer pointee' space' qualifiers' =>
      simp only [Node.spell, String.toList_append, List.append_assoc] at same
      rw [Node.toList_pointerWords, Node.toList_pointerWords] at same
      obtain ⟨rfl, listed, follows⟩ := AddressSpace.words_inj same
      obtain ⟨alike, left⟩ := (each pointee (by simp [Node.children]) pointee'
        (by simp [Node.children])).only taken taken' (Text.ends_star rest) (Text.ends_star others)
        follows
      have known : qualifiers = qualifiers' := by
        rw [← legible, ← legible', Qualifiers.truncate_eq_ofList, listed,
          Qualifiers.truncate_eq_ofList]
      subst known
      exact ⟨⟨rfl, alike⟩, by simpa using left⟩
    | _ => cases kinds
  | vector element length =>
    cases node' with
    | vector element' length' =>
      obtain ⟨_, kind, scalar, found⟩ := legible
      obtain ⟨_, kind', scalar', found'⟩ := legible'
      obtain rfl := spelled_primitive found taken
      obtain rfl := spelled_primitive found' taken'
      have same : kind.readable.toList ++ ((Numeral.decimal length.toNat).toList ++ rest) =
          kind'.readable.toList ++ ((Numeral.decimal length'.toNat).toList ++ others) := by
        simpa [Node.spell, String.toList_append] using same
      obtain ⟨word, follows⟩ := Text.append_inj_of_stops
        (fun _ letter => by simp [Primitive.not_isDigit_of_scalar scalar letter])
        (fun _ letter => by simp [Primitive.not_isDigit_of_scalar scalar' letter])
        (Numeral.stops_decimal _ rest) (Numeral.stops_decimal _ others) same
      obtain rfl := Primitive.readable_inj word
      obtain ⟨lengths, left⟩ := Numeral.decimal_append_inj ends.stops_isDigit ends'.stops_isDigit
        follows
      obtain rfl := UInt8.toNat_inj.mp lengths
      exact ⟨⟨rfl, .cons (unfolding_eq_of_children found found' rfl .nil) .nil⟩, left⟩
    | _ => cases kinds
  | atomic base =>
    cases node' with
    | atomic base' =>
      simp only [Node.spell, String.toList_append, List.append_assoc] at same
      obtain ⟨alike, left⟩ := (each base (by simp [Node.children]) base'
        (by simp [Node.children])).only taken taken' ends ends' (List.append_cancel_left same)
      exact ⟨⟨rfl, alike⟩, left⟩
    | _ => cases kinds
  | block params =>
    cases node' with
    | block params' =>
      rw [Node.spell_block legible, Node.spell_block legible'] at same
      simp only [String.toList_append, List.append_assoc] at same
      obtain ⟨alike, left⟩ := params_inj each legible legible' taken taken'
        (List.append_cancel_left same)
      exact ⟨⟨Node.shape_block alike.length_eq, alike⟩, (List.cons.inj left).2⟩
    | _ => cases kinds
  | user name => exact legible.elim

/-- By induction on the depth of the first spelling. The fronts of the spellings tell that the nodes
are of one kind, and what nodes of that kind put around their children is told apart. -/
theorem uniquelyRead (depth : Nat) (legible : pool.LegibleBelow left)
    (legible' : other.LegibleBelow right) : UniquelyRead pool other depth left right := by
  induction depth generalizing left right with
  | zero =>
    intro _ _ _ _ _ run
    cases run
  | succ depth ih =>
    intro depth' text text' rest others run run' ends ends' same
    obtain ⟨_, node, texts, deep, found, taken, rfl⟩ := readableWithin_ok run
    obtain rfl := Nat.succ.inj deep
    obtain ⟨_, node', texts', _, found', taken', rfl⟩ := readableWithin_ok run'
    have here := legible left node (.refl left) found
    have here' := legible' right node' (.refl right) found'
    have kinds : node.kind = node'.kind := by
      obtain ⟨word, tail, front, run, stops, first⟩ := exists_front here taken ends
      obtain ⟨word', tail', front', run', stops', first'⟩ := exists_front here' taken' ends'
      rw [front, front'] at same
      obtain ⟨rfl, rfl⟩ := Text.append_inj_of_stops run run' stops stops' same
      exact first.symm.trans first'
    have each : ∀ child ∈ node.children, ∀ child' ∈ node'.children,
        UniquelyRead pool other depth child child' := fun _ member _ member' =>
      ih (legible.child found member) (legible'.child found' member')
    obtain ⟨⟨shape, alike⟩, left⟩ := spell_inj kinds each here here' taken taken' ends ends' same
    exact ⟨unfolding_eq_of_children found found' shape alike, left⟩

theorem readableWithin_of_unfolding_eq {text : String}
    (same : pool.unfolding left = other.unfolding right)
    (run : pool.readableWithin depth left = .ok text) :
    other.readableWithin depth right = .ok text := by
  induction depth generalizing left right text with
  | zero => cases run
  | succ depth ih =>
    obtain ⟨_, node, texts, deep, found, taken, rfl⟩ := readableWithin_ok run
    obtain rfl := Nat.succ.inj deep
    rcases cases_of_unfolding_eq same with ⟨_, missing⟩ | ⟨entry, node', found₀, found', shape, each⟩
    · rw [found] at missing
      cases missing
    · obtain rfl := Option.some.inj (found.symm.trans found₀)
      have spelled := (List.forall₂_and_left _ _).mpr ⟨exists_of_mapM_eq_ok taken, each⟩
      have texts := mapM_eq_of_forall₂ spelled fun _ _ ⟨⟨_, run⟩, same⟩ =>
        run.trans (ih same run).symm
      rw [readableWithin_spelled found' (texts.symm.trans taken),
        Node.eq_of_shape (Node.spell_shape _) shape]

/-- No user type is reached. -/
def WithoutUsers (pool : Pool) (start : TypeId) : Prop :=
  ∀ id name, pool.Reaches start id → pool.node? id ≠ some (.user name)

theorem withoutUsers_of_nodes (none : ∀ node ∈ pool.nodes, node.kind ≠ .user) (start : TypeId) :
    pool.WithoutUsers start :=
  fun _ _ _ found => none _ (Array.mem_of_getElem? found) rfl

theorem Regular.legibleBelow (regular : pool.Regular) (plain : pool.WithoutUsers left) :
    pool.canonical.LegibleBelow left := by
  have void : pool.node? (.ofPrimitive .void) = some (.primitive .void) :=
    (regular.primitive_iff _ .void).mpr rfl
  intro id node path found
  rw [node?_canonical, Option.map_eq_some_iff] at found
  obtain ⟨entry, found, rfl⟩ := found
  cases entry with
  | primitive _ | atomic _ => trivial
  | pointer _ _ qualifiers => exact qualifiers.truncate_truncate
  | vector element length =>
    obtain ⟨legal, kind, scalar, place⟩ := regular.vector id element length found
    exact ⟨(mem_vectorLengths_iff length).mpr legal, kind, kind.isScalar_iff.mpr scalar,
      by rw [node?_canonical, place]; rfl⟩
  | block params => cases params <;> simp [Node.canonical, Legible]
  | user name =>
    rcases reaches_canonical void path with path | rfl
    · exact plain id name path found
    · cases void.symm.trans found

end Pool

namespace Construction

/-- Two types that constructors have made, without missing handles, cycles and user types, are
spelled alike exactly when they unfold to one tree, once blocks without parameters have got the
parameter `void` and unknown qualifiers are left out. -/
theorem readable_identity (calls calls' : List Construction) (left right : TypeId)
    (closed : (run calls).Closed left) (closed' : (run calls').Closed right)
    (acyclic : (run calls).Acyclic left) (acyclic' : (run calls').Acyclic right)
    (plain : (run calls).WithoutUsers left) (plain' : (run calls').WithoutUsers right) :
    ∃ text text', (run calls).readable left = .ok text ∧ (run calls').readable right = .ok text' ∧
      (text = text' ↔
        ((run calls).unfolding left).canonical = ((run calls').unfolding right).canonical) := by
  have regular := regular_run calls
  have regular' := regular_run calls'
  have void := (regular.primitive_iff _ .void).mpr rfl
  have void' := (regular'.primitive_iff _ .void).mpr rfl
  obtain ⟨text, spelled⟩ := Pool.exists_readable acyclic closed
  obtain ⟨text', spelled'⟩ := Pool.exists_readable acyclic' closed'
  refine ⟨text, text', spelled, spelled', ?_⟩
  rw [(Pool.respelled_canonical void).readable_eq] at spelled
  rw [(Pool.respelled_canonical void').readable_eq] at spelled'
  rw [← Pool.unfolding_canonical void, ← Pool.unfolding_canonical void']
  constructor
  · intro same
    have whole : text.toList ++ [] = text'.toList ++ [] := by rw [same]
    exact (Pool.uniquelyRead _ (regular.legibleBelow plain) (regular'.legibleBelow plain') _ _ _ _ _
      spelled spelled' Text.ends_nil Text.ends_nil whole).1
  · intro same
    have copied := Pool.readableWithin_of_unfolding_eq same spelled
    have ended := Pool.readable_eq_of_ended (by rw [copied]; simp)
    exact Except.ok.inj (copied.symm.trans (ended.symm.trans spelled'))

/-- Two blocks that take a vector and an atomic pointer to a block that takes nothing. They are made
in another order, and only one of the pointers has an unknown qualifier and only one of the inner
blocks the parameter `void`. -/
theorem readable_identity_blocks :
    ∃ calls calls', calls = [block [], pointer ⟨33⟩ .globalMemory ⟨132⟩, vector ⟨6⟩ 4, atomic ⟨34⟩,
        block [⟨35⟩, ⟨36⟩]] ∧
      calls' = [vector ⟨6⟩ 4, block [⟨12⟩], pointer ⟨34⟩ .globalMemory ⟨4⟩, atomic ⟨35⟩,
        block [⟨33⟩, ⟨36⟩]] ∧
      (run calls).Descending ∧ (run calls').Descending ∧ (run calls).WithoutUsers ⟨37⟩ ∧
      (run calls').WithoutUsers ⟨37⟩ ∧
      (run calls).readable ⟨37⟩ = .ok "void (int4, atomic_const __global void (void)* *)*" ∧
      (run calls').readable ⟨37⟩ = .ok "void (int4, atomic_const __global void (void)* *)*" ∧
      (run calls).unfolding ⟨37⟩ ≠ (run calls').unfolding ⟨37⟩ ∧
      ((run calls).unfolding ⟨37⟩).canonical = ((run calls').unfolding ⟨37⟩).canonical := by
  let calls : List Construction := [block [], pointer ⟨33⟩ .globalMemory ⟨132⟩, vector ⟨6⟩ 4,
    atomic ⟨34⟩, block [⟨35⟩, ⟨36⟩]]
  let calls' : List Construction := [vector ⟨6⟩ 4, block [⟨12⟩], pointer ⟨34⟩ .globalMemory ⟨4⟩,
    atomic ⟨35⟩, block [⟨33⟩, ⟨36⟩]]
  have descending : (run calls).Descending := by decide +kernel
  have descending' : (run calls').Descending := by decide +kernel
  have plain : (run calls).WithoutUsers ⟨37⟩ :=
    Pool.withoutUsers_of_nodes (by decide +kernel) ⟨37⟩
  have plain' : (run calls').WithoutUsers ⟨37⟩ :=
    Pool.withoutUsers_of_nodes (by decide +kernel) ⟨37⟩
  have spelled : (run calls).readable ⟨37⟩ =
      .ok "void (int4, atomic_const __global void (void)* *)*" := by decide +kernel
  have spelled' : (run calls').readable ⟨37⟩ =
      .ok "void (int4, atomic_const __global void (void)* *)*" := by decide +kernel
  have different : (run calls).unfolding ⟨37⟩ ≠ (run calls').unfolding ⟨37⟩ := by
    intro same
    have pointers := congrFun same [1, 0]
    revert pointers
    decide +kernel
  obtain ⟨_, _, found, found', identity⟩ := readable_identity calls calls' ⟨37⟩ ⟨37⟩
    (descending.closed (by decide +kernel)) (descending'.closed (by decide +kernel))
    (descending.acyclic _) (descending'.acyclic _) plain plain'
  have same := (Except.ok.inj (found.symm.trans spelled)).trans
    (Except.ok.inj (spelled'.symm.trans found'))
  exact ⟨calls, calls', rfl, rfl, descending, descending', plain, plain', spelled, spelled',
    different, identity.mp same⟩

end Construction
end SpirSymbol
