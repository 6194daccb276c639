import Mathlib.Data.List.Forall2
import SpirSymbol.Proofs.Reading
import SpirSymbol.Proofs.Walk

/-! Matching walks. Two walks that write the same tokens go through nodes that agree in everything
that a token says, and meet pointers and user types again in the same places: a number that one
walk gives to a handle the other gives to the counterpart of that handle. -/
namespace SpirSymbol

/-- Two nodes agree in everything but their children and unknown qualifier bits, and the children
are related place by place. A block without parameters agrees with one that has `void` alone. -/
inductive Pool.Matches (pool other : Pool) (related : TypeId → TypeId → Prop) :
    Node → Node → Prop where
  | primitive (kind : Primitive) : Matches pool other related (.primitive kind) (.primitive kind)
  | pointer {pointee pointee' : TypeId} {qualifiers qualifiers' : Qualifiers}
      (space : AddressSpace) (known : qualifiers.truncate = qualifiers'.truncate)
      (below : related pointee pointee') :
      Matches pool other related (.pointer pointee space qualifiers)
        (.pointer pointee' space qualifiers')
  | vector {element element' : TypeId} (length : UInt8) (below : related element element') :
      Matches pool other related (.vector element length) (.vector element' length)
  | atomic {base base' : TypeId} (below : related base base') :
      Matches pool other related (.atomic base) (.atomic base')
  | block {params params' : List TypeId} (each : List.Forall₂ related params params') :
      Matches pool other related (.block params) (.block params')
  | voidLeft {param : TypeId} (void : pool.node? param = some (.primitive .void)) :
      Matches pool other related (.block [param]) (.block [])
  | voidRight {param : TypeId} (void : other.node? param = some (.primitive .void)) :
      Matches pool other related (.block []) (.block [param])
  | user (name : String) : Matches pool other related (.user name) (.user name)

namespace Node

variable {node other : Node}

/-- The token that tells what the node is. -/
def label : Node → Token
  | primitive kind => .primitive kind
  | pointer _ space qualifiers => .pointer space qualifiers
  | vector _ length => .vector length
  | atomic _ => .atomic
  | block _ => .blockStart
  | user name => .user name

/-- What is written in the place of parameters that a block does not have. -/
def filler : Node → List Token
  | block [] => [.primitive .void]
  | _ => []

theorem opening_eq (node : Node) : node.opening = node.label :: node.filler := by
  cases node with
  | block params => cases params <;> rfl
  | _ => rfl

theorem map_known_filler (node : Node) : node.filler.map Token.known = node.filler := by
  cases node with
  | block params => cases params <;> rfl
  | _ => rfl

theorem map_known_closing (node : Node) : node.closing.map Token.known = node.closing := by
  cases node <;> rfl

theorem label_ne_again (number : Nat) : node.label.known ≠ .again number := by
  cases node <;> simp [label, Token.known]

theorem label_ne_blockEnd : node.label.known ≠ .blockEnd := by
  cases node <;> simp [label, Token.known]

theorem eq_primitive_of_label {kind : Primitive} (same : node.label.known = .primitive kind) :
    node = .primitive kind := by
  cases node with
  | primitive kind' => exact congrArg Node.primitive (Token.primitive.inj same)
  | _ => cases same

/-- What two nodes with one label have in common if they are no blocks. -/
structure Like (node other : Node) : Prop where
  numbered : node.isNumbered = other.isNumbered
  length_eq : node.children.length = other.children.length
  filler : node.filler = [] ∧ other.filler = []
  closing : node.closing = [] ∧ other.closing = []
  matches_of : ∀ (pool pool' : Pool) (related : TypeId → TypeId → Prop),
    List.Forall₂ related node.children other.children → pool.Matches pool' related node other

theorem like_of_label (same : node.label.known = other.label.known) :
    node.Like other ∨ ∃ params params', node = .block params ∧ other = .block params' := by
  cases node with
  | primitive kind =>
    obtain rfl := eq_primitive_of_label same.symm
    exact .inl ⟨rfl, rfl, ⟨rfl, rfl⟩, ⟨rfl, rfl⟩, fun _ _ _ _ => .primitive kind⟩
  | pointer pointee space qualifiers =>
    cases other with
    | pointer pointee' space' qualifiers' =>
      obtain ⟨rfl, known⟩ := Token.pointer.inj same
      refine .inl ⟨rfl, rfl, ⟨rfl, rfl⟩, ⟨rfl, rfl⟩, fun _ _ _ each => ?_⟩
      exact .pointer space known (List.forall₂_cons.mp each).1
    | _ => cases same
  | vector element length =>
    cases other with
    | vector element' length' =>
      obtain rfl := Token.vector.inj same
      refine .inl ⟨rfl, rfl, ⟨rfl, rfl⟩, ⟨rfl, rfl⟩, fun _ _ _ each => ?_⟩
      exact .vector length (List.forall₂_cons.mp each).1
    | _ => cases same
  | atomic base =>
    cases other with
    | atomic base' =>
      refine .inl ⟨rfl, rfl, ⟨rfl, rfl⟩, ⟨rfl, rfl⟩, fun _ _ _ each => ?_⟩
      exact .atomic (List.forall₂_cons.mp each).1
    | _ => cases same
  | block params =>
    cases other with
    | block params' => exact .inr ⟨params, params', rfl, rfl⟩
    | _ => cases same
  | user name =>
    cases other with
    | user name' =>
      obtain rfl := Token.user.inj same
      exact .inl ⟨rfl, rfl, ⟨rfl, rfl⟩, ⟨rfl, rfl⟩, fun _ _ _ _ => .user name⟩
    | _ => cases same

end Node

/-- The tokens of stops as far as their text tells them. -/
def Stop.written (stops : List Stop) : List Token := (stops.flatMap tokens).map Token.known

theorem Stop.written_enter (id : TypeId) (node : Node) (inner stops : List Stop) :
    written (.enter id node :: inner ++ .leave id node :: stops) =
      node.label.known :: (node.filler ++ (written inner ++ (node.closing ++ written stops))) := by
  simp [written, tokens, node.opening_eq, node.map_known_filler, node.map_known_closing]

/-- What may follow the parameters of a block or of a prototype. -/
def Token.Closed (tokens : List Token) : Prop := tokens = [] ∨ ∃ more, tokens = .blockEnd :: more

namespace Pool

/-- The same number stands for both handles. -/
def Paired (listed listed' : List TypeId) (id id' : TypeId) : Prop :=
  ∃ number : Nat, listed[number]? = some id ∧ listed'[number]? = some id'

/-- Two handles are numbered alike, or are no numbered nodes and agree all the way down to
numbered ones. -/
inductive Similar (pool other : Pool) (listed listed' : List TypeId) : TypeId → TypeId → Prop where
  | numbered {id id' : TypeId} (paired : Paired listed listed' id id') :
      Similar pool other listed listed' id id'
  | node {id id' : TypeId} {node node' : Node} (found : pool.node? id = some node)
      (found' : other.node? id' = some node') (plain : node.isNumbered = false)
      (agree : pool.Matches other (Similar pool other listed listed') node node') :
      Similar pool other listed listed' id id'

/-- The nodes of two handles agree. -/
def Twins (pool other : Pool) (listed listed' : List TypeId) (id id' : TypeId) : Prop :=
  ∃ node node', pool.node? id = some node ∧ other.node? id' = some node' ∧
    pool.Matches other (pool.Similar other listed listed') node node'

/-- From some number on, handles of one number are twins. -/
def TwinsFrom (pool other : Pool) (listed listed' : List TypeId) (start : Nat)
    (last last' : List TypeId) : Prop :=
  ∀ number id id', start ≤ number → last[number]? = some id → last'[number]? = some id' →
    pool.Twins other listed listed' id id'

/-- What two walks agree in: they give numbers to twins, and lead through similar handles. -/
structure Agreement (pool other : Pool) (listed listed' seen ids last ids' last' : List TypeId) :
    Prop where
  length_eq : last.length = last'.length
  similar : List.Forall₂ (pool.Similar other listed listed') ids ids'
  twins : pool.TwinsFrom other listed listed' seen.length last last'

/-- What two nodes agree in when they and the walks below them are written alike. -/
structure NodeAgreement (pool other : Pool) (listed listed' seen middle middle' : List TypeId)
    (node node' : Node) : Prop where
  numbered : node.isNumbered = node'.isNumbered
  length_eq : middle.length = middle'.length
  agree : pool.Matches other (pool.Similar other listed listed') node node'
  twins : pool.TwinsFrom other listed listed' seen.length middle middle'

/-- The numbers of the handles stand for the same handles in the list. -/
def Within (ids listed : List TypeId) : Prop :=
  ∀ (number : Nat) id, ids[number]? = some id → listed[number]? = some id

/-- Whatever walk writes the same tokens agrees with this one. -/
def Determines (pool other : Pool) (listed listed' seen ids : List TypeId) (stops : List Stop)
    (last : List TypeId) : Prop :=
  ∀ ⦃seen' ids' stops' last' rest others⦄, other.Walk seen' ids' stops' last' →
    seen.length = seen'.length → Within last' listed' →
    Stop.written stops ++ rest = Stop.written stops' ++ others →
    ids.length = ids'.length ∨ (Token.Closed rest ∧ Token.Closed others) →
    rest = others ∧ pool.Agreement other listed listed' seen ids last ids' last'

variable {pool other : Pool} {seen seen' ids ids' last last' listed listed' middle middle' :
  List TypeId} {stops stops' inner inner' : List Stop} {id id' : TypeId} {node node' : Node}
  {rest others : List Token}

theorem twinsFrom_length (last last' : List TypeId) :
    pool.TwinsFrom other listed listed' last.length last last' := by
  intro number id id' late place
  rw [List.getElem?_eq_none late] at place
  cases place

theorem Walk.written_eq_cons (walk : pool.Walk seen (id :: ids) stops last) :
    ∃ token more, Stop.written stops = token :: more ∧ token ≠ .blockEnd := by
  cases walk with
  | again _ _ _ _ => exact ⟨_, _, rfl, by simp [Token.known]⟩
  | @enter _ _ _ _ _ node inner stops =>
    exact ⟨_, _, Stop.written_enter id node inner stops, node.label_ne_blockEnd⟩

theorem Walk.ids_eq_nil (walk : pool.Walk seen ids stops last)
    (same : Stop.written stops ++ rest = others) (closed : Token.Closed others) : ids = [] := by
  cases ids with
  | nil => rfl
  | cons id ids =>
    obtain ⟨token, more, shape, open'⟩ := walk.written_eq_cons
    rw [shape] at same
    rcases closed with rfl | ⟨_, rfl⟩
    · cases same
    · exact absurd (List.cons.inj same).1 open'

theorem Walk.of_nil (walk : pool.Walk seen [] stops last) : stops = [] ∧ last = seen := by
  cases walk
  exact ⟨rfl, rfl⟩

/-- Only `void` alone is written as `void` alone. -/
theorem Walk.void_only (walk : pool.Walk seen (id :: ids) stops last)
    (same : Stop.written stops ++ .blockEnd :: rest = .primitive .void :: .blockEnd :: others) :
    ids = [] ∧ pool.node? id = some (.primitive .void) ∧ last = seen ∧ rest = others := by
  cases walk with
  | again _ _ _ _ => cases same
  | @enter _ _ middle _ _ node inner stops found _ inside walk =>
    rw [Stop.written_enter] at same
    obtain ⟨label, follows⟩ := List.cons.inj same
    obtain rfl := Node.eq_primitive_of_label label
    obtain ⟨rfl, rfl⟩ := inside.of_nil
    have ends : Stop.written stops ++ .blockEnd :: rest = .blockEnd :: others := follows
    obtain rfl := walk.ids_eq_nil ends (.inr ⟨_, rfl⟩)
    obtain ⟨rfl, rfl⟩ := walk.of_nil
    exact ⟨rfl, found, by simp [Node.registers, Node.isNumbered], (List.cons.inj ends).2⟩

theorem Within.before (within : Within last listed) (walk : pool.Walk seen ids stops last) :
    Within seen listed :=
  fun number id place => within number id (walk.getElem?_last place)

theorem registers_length (numbered : node.isNumbered = node'.isNumbered)
    (level : seen.length = seen'.length) :
    (seen ++ node.registers id).length = (seen' ++ node'.registers id').length := by
  simp only [Node.registers, numbered, List.length_append, level]
  split <;> rfl

theorem Determines.nodeAgreement
    (determines : pool.Determines other listed listed' (seen ++ node.registers id) node.children
      inner middle)
    (inside : pool.Walk (seen ++ node.registers id) node.children inner middle)
    (inside' : other.Walk (seen' ++ node'.registers id') node'.children inner' middle')
    (level : seen.length = seen'.length) (within' : Within middle' listed')
    (label : node.label.known = node'.label.known)
    (same : node.filler ++ (Stop.written inner ++ (node.closing ++ rest)) =
      node'.filler ++ (Stop.written inner' ++ (node'.closing ++ others))) :
    rest = others ∧ pool.NodeAgreement other listed listed' (seen ++ node.registers id) middle
      middle' node node' := by
  rcases Node.like_of_label label with like | ⟨params, params', rfl, rfl⟩
  · rw [like.filler.1, like.filler.2, like.closing.1, like.closing.2] at same
    obtain ⟨follows, below⟩ := determines inside' (registers_length like.numbered level) within'
      same (.inl like.length_eq)
    have agree := like.matches_of pool other _ below.similar
    exact ⟨follows, like.numbered, below.length_eq, agree, below.twins⟩
  · have closed (tokens : List Token) : Token.Closed (.blockEnd :: tokens) := .inr ⟨tokens, rfl⟩
    have level' : (seen ++ (Node.block params).registers id).length =
        (seen' ++ (Node.block params').registers id').length := registers_length rfl level
    cases params with
    | nil =>
      cases params' with
      | nil =>
        obtain ⟨follows, below⟩ := determines inside' level' within'
          (List.cons.inj same).2 (.inl rfl)
        exact ⟨(List.cons.inj follows).2, rfl, below.length_eq, .block .nil, below.twins⟩
      | cons param' more' =>
        obtain ⟨rfl, rfl⟩ := inside.of_nil
        obtain ⟨rfl, found, rfl, follows⟩ := inside'.void_only same.symm
        exact ⟨follows.symm, rfl, level', .voidRight found, twinsFrom_length _ _⟩
    | cons param more =>
      cases params' with
      | nil =>
        obtain ⟨rfl, rfl⟩ := inside'.of_nil
        obtain ⟨rfl, found, rfl, follows⟩ := inside.void_only same
        exact ⟨follows, rfl, level', .voidLeft found, twinsFrom_length _ _⟩
      | cons param' more' =>
        obtain ⟨follows, below⟩ := determines inside' level' within' same
          (.inr ⟨closed rest, closed others⟩)
        exact ⟨(List.cons.inj follows).2, rfl, below.length_eq, .block below.similar, below.twins⟩

theorem Walk.getElem?_entered (inside : pool.Walk (seen ++ node.registers id) ids stops last)
    (numbered : node.isNumbered = true) : last[seen.length]? = some id := by
  apply inside.getElem?_last
  simp [Node.registers, numbered]

private theorem eq_length_of_registers {number : Nat} (late : seen.length ≤ number)
    (early : number < (seen ++ node.registers id).length) :
    node.isNumbered = true ∧ seen.length = number := by
  cases numbered : node.isNumbered with
  | true =>
    simp only [Node.registers, numbered, ↓reduceIte, List.length_append, List.length_singleton]
      at early
    exact ⟨rfl, by omega⟩
  | false =>
    simp only [Node.registers, numbered, Bool.false_eq_true, ↓reduceIte, List.append_nil] at early
    omega

/-- The numbers given since a node was entered are its own, those given below it and those given
after it. -/
theorem NodeAgreement.cons
    (below : pool.NodeAgreement other listed listed' (seen ++ node.registers id) middle middle'
      node node')
    (after : pool.Agreement other listed listed' middle ids last ids' last')
    (found : pool.node? id = some node) (found' : other.node? id' = some node')
    (inside : pool.Walk (seen ++ node.registers id) node.children inner middle)
    (inside' : other.Walk (seen' ++ node'.registers id') node'.children inner' middle')
    (walk : pool.Walk middle ids stops last) (walk' : other.Walk middle' ids' stops' last')
    (level : seen.length = seen'.length) (within : Within last listed)
    (within' : Within last' listed') :
    pool.Agreement other listed listed' seen (id :: ids) last (id' :: ids') last' := by
  have places (numbered : node.isNumbered = true) :
      middle[seen.length]? = some id ∧ middle'[seen.length]? = some id' := by
    constructor
    · exact inside.getElem?_entered numbered
    · rw [level]
      exact inside'.getElem?_entered (below.numbered ▸ numbered)
  refine ⟨after.length_eq, .cons ?_ after.similar, ?_⟩
  · cases numbered : node.isNumbered with
    | false => exact .node found found' numbered below.agree
    | true =>
      obtain ⟨place, place'⟩ := places numbered
      apply Similar.numbered
      exact ⟨_, within _ _ (walk.getElem?_last place), within' _ _ (walk'.getElem?_last place')⟩
  · intro number first first' late place place'
    by_cases later : middle.length ≤ number
    · exact after.twins number first first' later place place'
    · have early := Nat.lt_of_not_le later
      rw [walk.getElem?_of_lt early] at place
      rw [walk'.getElem?_of_lt (below.length_eq ▸ early)] at place'
      by_cases under : (seen ++ node.registers id).length ≤ number
      · exact below.twins number first first' under place place'
      · obtain ⟨numbered, rfl⟩ := eq_length_of_registers late (Nat.lt_of_not_le under)
        obtain ⟨here, here'⟩ := places numbered
        obtain rfl := Option.some.inj (here.symm.trans place)
        obtain rfl := Option.some.inj (here'.symm.trans place')
        exact ⟨node, node', found, found', below.agree⟩

/-- Walks that write the same tokens agree. -/
theorem Walk.determines (walk : pool.Walk seen ids stops last) (within : Within last listed) :
    pool.Determines other listed listed' seen ids stops last := by
  induction walk with
  | @done seen =>
    intro seen' ids' stops' last' rest others walk' level within' same ends
    have empty : ids' = [] := by
      rcases ends with lengths | ⟨closed, _⟩
      · exact List.length_eq_zero_iff.mp lengths.symm
      · exact walk'.ids_eq_nil same.symm closed
    subst empty
    obtain ⟨rfl, rfl⟩ := walk'.of_nil
    exact ⟨same, level, .nil, twinsFrom_length _ _⟩
  | @again seen ids last id node number stops found numbered place walk ih =>
    intro seen' ids' stops' last' rest others walk' level within' same ends
    cases walk' with
    | done =>
      rcases ends with lengths | ⟨_, closed⟩
      · cases lengths
      · cases (Walk.again found numbered place walk).ids_eq_nil same closed
    | @again _ ids' _ id' _ number' stops' _ _ place' walk' =>
      obtain ⟨head, tail⟩ := List.cons.inj same
      obtain rfl := Token.again.inj head
      obtain ⟨follows, rest⟩ := ih within walk' level within' tail (ends.imp_left Nat.succ.inj)
      refine ⟨follows, rest.length_eq, .cons (.numbered ⟨number, ?_, ?_⟩) rest.similar, rest.twins⟩
      · exact within number id (walk.getElem?_last place)
      · exact within' number id' (walk'.getElem?_last place')
    | enter =>
      rw [Stop.written_enter] at same
      exact absurd (List.cons.inj same).1.symm (Node.label_ne_again number)
  | @enter seen ids middle last id node inner stops found new inside walk ihInside ihRest =>
    intro seen' ids' stops' last' rest others walk' level within' same ends
    cases walk' with
    | done =>
      rcases ends with lengths | ⟨_, closed⟩
      · cases lengths
      · cases (Walk.enter found new inside walk).ids_eq_nil same closed
    | @again _ ids' _ id' _ number' stops' _ _ place' walk' =>
      rw [Stop.written_enter] at same
      exact absurd (List.cons.inj same).1 (Node.label_ne_again number')
    | @enter _ ids' middle' _ id' node' inner' stops' found' new' inside' walk' =>
      rw [Stop.written_enter, Stop.written_enter, List.cons_append, List.cons_append] at same
      obtain ⟨label, same⟩ := List.cons.inj same
      simp only [List.append_assoc] at same
      obtain ⟨same, below⟩ := (ihInside (within.before walk)).nodeAgreement inside inside' level
        (within'.before walk') label same
      obtain ⟨follows, after⟩ := ihRest within walk' below.length_eq within' same
        (ends.imp_left Nat.succ.inj)
      exact ⟨follows, below.cons after found found' inside inside' walk walk' level within within'⟩

end Pool
end SpirSymbol
