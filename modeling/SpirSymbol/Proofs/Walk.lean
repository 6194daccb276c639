import SpirSymbol.Proofs.Encoding
import SpirSymbol.Symbol

/-! Walks over types. A walk goes through handles from left to right and below each node before
it goes on, except that a pointer or user type which it has met already is not gone into again.
A run of the encoder that succeeds is a walk, and no handle is met for the first time twice. -/
namespace SpirSymbol

/-- One stop of a walk: a node is gone into, a pointer or user type is met again, or all that is
below a node has been walked. -/
inductive Stop where
  | enter (id : TypeId) (node : Node)
  | again (id : TypeId) (number : Nat)
  | leave (id : TypeId) (node : Node)

/-- The handles that have a number from here on when the node is entered. -/
def Node.registers (node : Node) (id : TypeId) : List TypeId :=
  if node.isNumbered then [id] else []

namespace Stop

/-- The pointers and user types that the stops meet for the first time, in order. -/
def registered : List Stop → List TypeId
  | [] => []
  | enter id node :: later => node.registers id ++ registered later
  | _ :: later => registered later

/-- What a symbol has of a stop. -/
def tokens : Stop → List Token
  | enter _ node => node.opening
  | again _ number => [.again number]
  | leave _ node => node.closing

theorem registered_append (stops later : List Stop) :
    registered (stops ++ later) = registered stops ++ registered later := by
  induction stops with
  | nil => rfl
  | cons stop rest ih => cases stop <;> simp [registered, ih]

end Stop

/-- A walk through handles, from the numbered handles that were met before it to those that were
met after it. The place of a handle among them is the number of distinct ones met before it. -/
inductive Pool.Walk (pool : Pool) :
    List TypeId → List TypeId → List Stop → List TypeId → Prop where
  | done {seen : List TypeId} : Walk pool seen [] [] seen
  | again {seen ids last : List TypeId} {id : TypeId} {node : Node} {number : Nat}
      {stops : List Stop} (found : pool.node? id = some node) (numbered : node.isNumbered = true)
      (place : seen[number]? = some id) (rest : Walk pool seen ids stops last) :
      Walk pool seen (id :: ids) (.again id number :: stops) last
  | enter {seen ids middle last : List TypeId} {id : TypeId} {node : Node}
      {inner stops : List Stop} (found : pool.node? id = some node)
      (new : node.isNumbered = true → id ∉ seen)
      (inside : Walk pool (seen ++ node.registers id) node.children inner middle)
      (rest : Walk pool middle ids stops last) :
      Walk pool seen (id :: ids) (.enter id node :: inner ++ .leave id node :: stops) last

theorem place_unique {ids : List TypeId} {id : TypeId} {number other : Nat} (distinct : ids.Nodup)
    (place : ids[number]? = some id) (second : ids[other]? = some id) : number = other := by
  have inside : number < ids.length := (List.getElem?_eq_some_iff.mp place).1
  exact (List.getElem?_inj inside distinct).mp (place.trans second.symm)

namespace Pool.Walk

variable {pool : Pool} {seen ids others middle last : List TypeId} {stops later : List Stop}
  {id : TypeId} {node : Node}

theorem append (walk : pool.Walk seen ids stops middle)
    (more : pool.Walk middle others later last) :
    pool.Walk seen (ids ++ others) (stops ++ later) last := by
  induction walk with
  | done => exact more
  | again found numbered place _ ih => exact .again found numbered place (ih more)
  | @enter _ _ _ _ _ _ inner stops found new inside _ _ ih =>
    rw [List.append_assoc]
    exact .enter found new inside (ih more)

theorem last_eq (walk : pool.Walk seen ids stops last) :
    last = seen ++ Stop.registered stops := by
  induction walk with
  | done => simp [Stop.registered]
  | again _ _ _ _ ih => simpa [Stop.registered] using ih
  | enter _ _ _ _ inside rest =>
    rw [rest, inside]
    simp [Stop.registered, Stop.registered_append]

theorem mem_last (walk : pool.Walk seen ids stops last) :
    id ∈ last ↔ id ∈ seen ∨ id ∈ Stop.registered stops := by
  rw [walk.last_eq, List.mem_append]

theorem getElem?_of_lt {number : Nat} (walk : pool.Walk seen ids stops last)
    (earlier : number < seen.length) : last[number]? = seen[number]? := by
  rw [walk.last_eq, List.getElem?_append_left earlier]

theorem getElem?_last {number : Nat} (walk : pool.Walk seen ids stops last)
    (place : seen[number]? = some id) : last[number]? = some id := by
  rw [walk.getElem?_of_lt (List.getElem?_eq_some_iff.mp place).1, place]

private theorem nodup_registers (new : node.isNumbered = true → id ∉ seen)
    (distinct : seen.Nodup) : (seen ++ node.registers id).Nodup := by
  by_cases numbered : node.isNumbered = true
  · simp only [Node.registers, numbered, ↓reduceIte]
    refine List.nodup_append.mpr ⟨distinct, by simp, ?_⟩
    rintro other member _ same rfl
    rw [List.mem_singleton] at same
    exact new numbered (same ▸ member)
  · simpa [Node.registers, numbered] using distinct

theorem nodup (walk : pool.Walk seen ids stops last) (distinct : seen.Nodup) : last.Nodup := by
  induction walk with
  | done => exact distinct
  | again _ _ _ _ ih => exact ih distinct
  | enter _ new _ _ inside rest => exact rest (inside (nodup_registers new distinct))

/-- The handles and the numbers met before them determine the walk. -/
theorem unique {other : List Stop} {final : List TypeId} (walk : pool.Walk seen ids stops last)
    (second : pool.Walk seen ids other final) (distinct : seen.Nodup) :
    stops = other ∧ last = final := by
  induction walk generalizing other final with
  | done =>
    cases second
    exact ⟨rfl, rfl⟩
  | @again seen _ _ id node number _ found numbered place _ ih =>
    cases second with
    | @again _ _ _ _ _ number' _ _ _ place' rest' =>
      obtain ⟨rfl, rfl⟩ := ih rest' distinct
      obtain rfl := place_unique distinct place place'
      exact ⟨rfl, rfl⟩
    | enter found' new' _ _ =>
      obtain rfl := Option.some.inj (found.symm.trans found')
      exact absurd (List.mem_of_getElem? place) (new' numbered)
  | enter found new inside rest ihInside ihRest =>
    cases second with
    | again found' numbered' place' _ =>
      obtain rfl := Option.some.inj (found.symm.trans found')
      exact absurd (List.mem_of_getElem? place') (new numbered')
    | enter found' _ inside' rest' =>
      obtain rfl := Option.some.inj (found.symm.trans found')
      have apart := nodup_registers new distinct
      obtain ⟨rfl, rfl⟩ := ihInside inside' apart
      obtain ⟨rfl, rfl⟩ := ihRest rest' (inside.nodup apart)
      exact ⟨rfl, rfl⟩

theorem reaches (walk : pool.Walk seen ids stops last) (member : .enter id node ∈ stops) :
    pool.node? id = some node ∧ ∃ start ∈ ids, pool.Reaches start id := by
  induction walk with
  | done => cases member
  | again _ _ _ _ ih =>
    obtain ⟨found, start, listed, path⟩ := ih (by simpa using member)
    exact ⟨found, start, List.mem_cons_of_mem _ listed, path⟩
  | @enter _ _ _ _ parent _ _ _ found _ _ _ ihInside ihRest =>
    simp only [List.cons_append, List.mem_cons, List.mem_append, Stop.enter.injEq, reduceCtorEq,
      false_or] at member
    rcases member with ⟨rfl, rfl⟩ | below | later
    · exact ⟨found, id, List.mem_cons_self, .refl id⟩
    · obtain ⟨look, start, listed, path⟩ := ihInside below
      exact ⟨look, parent, List.mem_cons_self, path.head (edge_of_mem found listed)⟩
    · obtain ⟨look, start, listed, path⟩ := ihRest later
      exact ⟨look, start, List.mem_cons_of_mem _ listed, path⟩

end Pool.Walk

/-- A handle that the stops go into. -/
def Stop.Enters (stops : List Stop) (id : TypeId) : Prop := ∃ node, .enter id node ∈ stops

theorem Stop.Enters.mono {stops more : List Stop} {id : TypeId} (enters : Enters stops id)
    (subset : stops ⊆ more) : Enters more id := by
  obtain ⟨node, member⟩ := enters
  exact ⟨node, subset member⟩

theorem Node.eq_of_mem_registers {node : Node} {id other : TypeId}
    (member : other ∈ node.registers id) : other = id := by
  by_cases numbered : node.isNumbered = true
  · simpa [registers, numbered] using member
  · simp [registers, numbered] at member

theorem Stop.mem_registered_iff {stops : List Stop} {id : TypeId} :
    id ∈ registered stops ↔ ∃ node, .enter id node ∈ stops ∧ node.isNumbered = true := by
  induction stops with
  | nil => simp [registered]
  | cons stop rest ih =>
    cases stop with
    | enter other node =>
      simp only [registered, List.mem_append, ih, List.mem_cons, Stop.enter.injEq]
      constructor
      · rintro (here | ⟨entered, member, numbered⟩)
        · obtain rfl := Node.eq_of_mem_registers here
          refine ⟨node, .inl ⟨rfl, rfl⟩, ?_⟩
          by_contra plain
          simp [Node.registers, plain] at here
        · exact ⟨entered, .inr member, numbered⟩
      · rintro ⟨entered, ⟨rfl, rfl⟩ | member, numbered⟩
        · exact .inl (by simp [Node.registers, numbered])
        · exact .inr ⟨entered, member, numbered⟩
    | again _ _ | leave _ _ => simp [registered, ih]

theorem Stop.enters_of_registered {stops : List Stop} {id : TypeId}
    (member : id ∈ registered stops) : Enters stops id := by
  obtain ⟨node, entered, _⟩ := mem_registered_iff.mp member
  exact ⟨node, entered⟩

namespace Pool.Walk

variable {pool : Pool} {seen ids last : List TypeId} {stops : List Stop} {id : TypeId} {node : Node}

/-- Whatever a walk is to go through, and every child of a node that it goes into, it goes into
unless it is a pointer or user type that was met before the walk. -/
theorem covers (walk : pool.Walk seen ids stops last) :
    (∀ id ∈ ids, pool.Numbered id ∧ id ∈ seen ∨ Stop.Enters stops id) ∧
      ∀ id node, .enter id node ∈ stops →
        ∀ child ∈ node.children, pool.Numbered child ∧ child ∈ seen ∨ Stop.Enters stops child := by
  induction walk with
  | done => simp
  | again found numbered place _ ih =>
    obtain ⟨starts, children⟩ := ih
    constructor
    · intro other member
      rcases List.mem_cons.mp member with rfl | later
      · exact .inl ⟨⟨_, found, numbered⟩, List.mem_of_getElem? place⟩
      · exact (starts other later).imp_right (·.mono (List.subset_cons_self _ _))
    · intro other node member child below
      have entered := (List.mem_cons.mp member).resolve_left (by simp)
      exact (children other node entered child below).imp_right
        (·.mono (List.subset_cons_self _ _))
  | @enter seen _ middle _ id node inner stops found _ inside _ ihInside ihRest =>
    have whole : Stop.Enters (.enter id node :: inner ++ .leave id node :: stops) id :=
      ⟨node, by simp⟩
    have below (other : TypeId)
        (met : pool.Numbered other ∧ other ∈ seen ++ node.registers id ∨ Stop.Enters inner other) :
        pool.Numbered other ∧ other ∈ seen ∨
          Stop.Enters (.enter id node :: inner ++ .leave id node :: stops) other := by
      rcases met with ⟨numbered, before⟩ | entered
      · rcases List.mem_append.mp before with earlier | here
        · exact .inl ⟨numbered, earlier⟩
        · exact .inr (Node.eq_of_mem_registers here ▸ whole)
      · exact .inr (entered.mono fun _ member => by simp [member])
    have later (other : TypeId)
        (met : pool.Numbered other ∧ other ∈ middle ∨ Stop.Enters stops other) :
        pool.Numbered other ∧ other ∈ seen ∨
          Stop.Enters (.enter id node :: inner ++ .leave id node :: stops) other := by
      rcases met with ⟨numbered, before⟩ | entered
      · exact below other
          ((inside.mem_last.mp before).imp (.intro numbered) Stop.enters_of_registered)
      · exact .inr (entered.mono fun _ member => by simp [member])
    constructor
    · intro other member
      rcases List.mem_cons.mp member with rfl | rest
      · exact .inr whole
      · exact later other (ihRest.1 other rest)
    · intro other inner' member child under
      simp only [List.cons_append, List.mem_cons, List.mem_append, Stop.enter.injEq, reduceCtorEq,
        false_or] at member
      rcases member with ⟨rfl, rfl⟩ | entered | entered
      · exact below child (ihInside.1 child under)
      · exact below child (ihInside.2 other inner' entered child under)
      · exact later child (ihRest.2 other inner' entered child under)

/-- A walk that has met nothing before goes into everything below its handles. -/
theorem enters_of_reaches (walk : pool.Walk [] ids stops last) {start : TypeId}
    (listed : start ∈ ids) (path : pool.Reaches start id) : Stop.Enters stops id := by
  obtain ⟨starts, children⟩ := walk.covers
  induction path with
  | refl => exact (starts _ listed).resolve_left (by simp)
  | tail _ edge ih =>
    obtain ⟨node, found, member⟩ := edge
    obtain ⟨other, entered⟩ := ih
    obtain rfl := Option.some.inj (found.symm.trans (walk.reaches entered).1)
    exact (children _ _ entered _ member).resolve_left (by simp)

/-- A walk that has met nothing before meets exactly the pointers and user types below its
handles. -/
theorem mem_registered_iff (walk : pool.Walk [] ids stops last) :
    id ∈ Stop.registered stops ↔ pool.Numbered id ∧ ∃ start ∈ ids, pool.Reaches start id := by
  rw [Stop.mem_registered_iff]
  constructor
  · rintro ⟨node, entered, numbered⟩
    obtain ⟨found, reached⟩ := walk.reaches entered
    exact ⟨⟨node, found, numbered⟩, reached⟩
  · rintro ⟨⟨node, found, numbered⟩, start, listed, path⟩
    obtain ⟨other, entered⟩ := walk.enters_of_reaches listed path
    obtain rfl := Option.some.inj (found.symm.trans (walk.reaches entered).1)
    exact ⟨node, entered, numbered⟩

end Pool.Walk

theorem Draft.lists_enter {draft : Draft} {node : Node} {id : TypeId} {seen : List TypeId}
    (lists : draft.numbers.Lists seen) (new : draft.numberOf? node id = none) :
    (draft.enter node id).numbers.Lists (seen ++ node.registers id) := by
  by_cases numbered : node.isNumbered = true
  · have absent := draft.find?_eq_none_of_numberOf? numbered new
    simpa [enter, Node.registers, numbered] using lists.insert absent
  · simpa [enter, Node.registers, numbered] using lists

namespace Pool

/-- The second draft is the first one after a walk through the handles, all of whose nodes the
revision has. -/
def Tours (pool : Pool) (revision : Revision) (draft : Draft) (ids : List TypeId)
    (result : Draft) : Prop :=
  ∀ seen, draft.numbers.Lists seen → ∃ stops last, pool.Walk seen ids stops last ∧
    result.numbers.Lists last ∧
    result.tokens.toList = draft.tokens.toList ++ stops.flatMap Stop.tokens ∧
    ∀ id node, .enter id node ∈ stops → revision.supports node = true

variable {pool : Pool} {revision : Revision} {draft middle result : Draft} {id : TypeId}
  {ids : List TypeId} {node : Node} {depth : Nat}

theorem Tours.nil : pool.Tours revision draft [] draft := by
  intro seen lists
  exact ⟨[], seen, .done, lists, by simp, by simp⟩

theorem Tours.cons (first : pool.Tours revision draft [id] middle)
    (rest : pool.Tours revision middle ids result) :
    pool.Tours revision draft (id :: ids) result := by
  intro seen lists
  obtain ⟨stops, reached, walk, listed, tokens, supported⟩ := first seen lists
  obtain ⟨later, last, more, listed', tokens', supported'⟩ := rest reached listed
  refine ⟨stops ++ later, last, walk.append more, listed', by simp [tokens', tokens], ?_⟩
  intro other node member
  rcases List.mem_append.mp member with early | late
  · exact supported other node early
  · exact supported' other node late

theorem Tours.again {number : Nat} (found : pool.node? id = some node)
    (again : draft.numberOf? node id = some number) :
    pool.Tours revision draft [id] (draft.write [.again number]) := by
  intro seen lists
  obtain ⟨numbered, given⟩ := draft.numberOf?_eq_some_iff.mp again
  have place := (lists.find?_iff id number).mp given
  exact ⟨[.again id number], seen, .again found numbered place .done, lists,
    by simp [Draft.write, Stop.tokens], by simp⟩

theorem Tours.enter (found : pool.node? id = some node) (new : draft.numberOf? node id = none)
    (supported : revision.supports node = true)
    (inside : pool.Tours revision (draft.enter node id) node.children result) :
    pool.Tours revision draft [id] (result.write node.closing) := by
  intro seen lists
  obtain ⟨stops, last, walk, listed, tokens, supports⟩ := inside _ (Draft.lists_enter lists new)
  have absent : node.isNumbered = true → id ∉ seen := by
    intro numbered
    exact lists.find?_eq_none_iff.mp (draft.find?_eq_none_of_numberOf? numbered new)
  refine ⟨_, last, .enter found absent walk .done, listed, ?_, ?_⟩
  · simp [Draft.write, Draft.enter, Stop.tokens, tokens]
  · intro other entered member
    simp only [List.cons_append, List.mem_cons, List.mem_append, Stop.enter.injEq, reduceCtorEq,
      List.not_mem_nil, or_false] at member
    rcases member with ⟨rfl, rfl⟩ | below
    · exact supported
    · exact supports other entered below

theorem tours_of_foldlM {step : Draft → TypeId → Except Obstacle Draft}
    (each : ∀ draft id result, step draft id = .ok result → pool.Tours revision draft [id] result)
    (run : ids.foldlM step draft = .ok result) : pool.Tours revision draft ids result := by
  induction ids generalizing draft with
  | nil =>
    cases run
    exact .nil
  | cons id rest ih =>
    obtain ⟨next, first, others⟩ := foldlM_cons_eq_ok.mp run
    exact (each draft id next first).cons (ih others)

/-- A run of the encoder that succeeds is a walk. -/
theorem tours_of_encodeWithin (run : pool.encodeWithin revision depth draft id = .ok result) :
    pool.Tours revision draft [id] result := by
  induction depth generalizing draft id result with
  | zero => cases run
  | succ depth ih =>
    obtain ⟨below, node, same, found, ⟨number, again, rfl⟩ | new⟩ := encodeWithin_ok run
    · exact .again found again
    · obtain rfl := Nat.succ.inj same
      obtain ⟨absent, supported, inner, inside, rfl⟩ := new
      exact .enter found absent supported (tours_of_foldlM (fun _ _ _ step => ih step) inside)

end Pool
end SpirSymbol
