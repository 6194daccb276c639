import Mathlib.Data.List.Induction
import SpirSymbol.Proofs.Likeness
import SpirSymbol.Proofs.Prototype

namespace SpirSymbol

/-- The kinds that vectors are made of, one by one. -/
def Primitive.scalars : List Primitive :=
  [bool, uchar, char, ushort, short, uint, int, ulong, long, half, float, double]

theorem Primitive.isScalar_iff (kind : Primitive) : kind.isScalar = true ↔ kind ∈ scalars := by
  cases kind <;> decide

theorem Pool.mem_vectorLengths_iff (length : UInt8) :
    length ∈ vectorLengths ↔ length ∈ ([2, 3, 4, 8, 16] : List UInt8) := Iff.rfl

namespace Pool

/-- What the places of a pool that constructors have made hold. -/
structure Regular (pool : Pool) : Prop where
  primitive_iff : ∀ id kind,
    pool.node? id = some (.primitive kind) ↔ id = TypeId.ofPrimitive kind
  vector : ∀ id element length, pool.node? id = some (.vector element length) →
    length ∈ ([2, 3, 4, 8, 16] : List UInt8) ∧
      ∃ kind ∈ Primitive.scalars, pool.node? element = some (.primitive kind)
  atomic : ∀ id base, pool.node? id = some (.atomic base) → base.index < id.index ∧
    ∃ node, pool.node? base = some node ∧ (node.kind = .primitive ∨ node.kind = .pointer)

/-- What the constructors check before they add a node. -/
def Admits (pool : Pool) : Node → Prop
  | .primitive _ => False
  | .vector element length => length ∈ vectorLengths ∧
      ∃ kind : Primitive, kind.isScalar = true ∧ element = TypeId.ofPrimitive kind
  | .atomic base =>
    ∃ node, pool.node? base = some node ∧ (node.kind = .primitive ∨ node.kind = .pointer)
  | _ => True

/-- Nothing that looks into the pool through handles of the pool is interrupted. -/
structure Answers (pool : Pool) : Prop where
  readable : ∀ id : TypeId, id.index < pool.size → ∃ text, pool.readable id = .ok text
  alike : ∀ left right : TypeId, left.index < pool.size → right.index < pool.size →
    ∃ answer, pool.alike left right = .ok answer
  display : ∀ prototype : Prototype, (∀ param ∈ prototype.params, param.index < pool.size) →
    ∃ text, prototype.display pool = .ok text
  mangle : ∀ (prototype : Prototype) (revision : Revision),
    (∀ param ∈ prototype.params, param.index < pool.size) →
      (∃ text, prototype.mangle pool revision = .ok text) ∨
        ∃ rejection, prototype.mangle pool revision = .error (.rejected rejection)

variable {pool larger : Pool} {node : Node} {id : TypeId}

theorem node?_new_eq_some (found : new.node? id = some node) :
    ∃ kind, node = .primitive kind ∧ id = TypeId.ofPrimitive kind := by
  simp only [Pool.node?, new, List.getElem?_toArray, List.getElem?_map, Option.map_eq_some_iff]
    at found
  obtain ⟨kind, place, rfl⟩ := found
  exact ⟨kind, rfl, TypeId.eq_ofPrimitive place⟩

theorem regular_new : new.Regular := by
  refine ⟨?_, ?_, ?_⟩
  · intro id kind
    constructor
    · intro found
      obtain ⟨other, same, rfl⟩ := node?_new_eq_some found
      rw [Node.primitive.inj same]
    · intro same
      subst same
      exact node?_new kind
  · intro id element length found
    obtain ⟨_, other, _⟩ := node?_new_eq_some found
    cases other
  · intro id base found
    obtain ⟨_, other, _⟩ := node?_new_eq_some found
    cases other

theorem Regular.add (regular : pool.Regular) (admitted : pool.Admits node)
    (added : pool.add node = (.ok id, larger)) : larger.Regular := by
  refine ⟨?_, ?_, ?_⟩
  · intro other kind
    constructor
    · intro found
      rcases node?_add_cases added found with ⟨rfl, rfl⟩ | old
      · exact absurd admitted id
      · exact (regular.primitive_iff other kind).mp old
    · intro same
      exact node?_add_of_some added ((regular.primitive_iff other kind).mpr same)
  · intro other element length found
    rcases node?_add_cases added found with ⟨rfl, rfl⟩ | old
    · obtain ⟨legal, kind, scalar, same⟩ := admitted
      have place := (regular.primitive_iff element kind).mpr same
      exact ⟨(mem_vectorLengths_iff length).mp legal, kind, kind.isScalar_iff.mp scalar,
        node?_add_of_some added place⟩
    · obtain ⟨legal, kind, scalar, place⟩ := regular.vector other element length old
      exact ⟨legal, kind, scalar, node?_add_of_some added place⟩
  · intro other base found
    rcases node?_add_cases added found with ⟨rfl, rfl⟩ | old
    · obtain ⟨node, place, fits⟩ := admitted
      have earlier := index_lt_size place
      exact ⟨index_add added ▸ earlier, node, node?_add_of_some added place, fits⟩
    · obtain ⟨earlier, node, place, fits⟩ := regular.atomic other base old
      exact ⟨earlier, node, node?_add_of_some added place, fits⟩

theorem descending_new : new.Descending := by decide

theorem Descending.add (descending : pool.Descending)
    (inside : ∀ child ∈ node.children, child.index < pool.size)
    (added : pool.add node = (.ok id, larger)) : larger.Descending := by
  intro place bound child member
  simp only [nodes_add added, Array.getElem_push] at member
  split at member
  · rename_i old
    exact descending place old child member
  · rename_i new
    have here := inside child member
    simp only [nodes_add added, Array.size_push] at bound
    simp only [size] at here
    omega

theorem Descending.answers (descending : pool.Descending) : pool.Answers := by
  refine ⟨?_, ?_, ?_, ?_⟩
  · intro id inside
    exact exists_readable (descending.acyclic id) (descending.closed inside)
  · intro left right inside inside'
    exact exists_alike (.inl (descending.acyclic left)) (descending.closed inside)
      (descending.closed inside')
  · intro prototype inside
    exact Prototype.exists_display (fun param _ => descending.acyclic param)
      fun param listed => descending.closed (inside param listed)
  · intro prototype revision inside
    exact Prototype.mangle_ended (fun param _ => descending.acyclic param)
      fun param listed => descending.closed (inside param listed)

end Pool

/-- One call of a constructor. -/
inductive Construction where
  | plainPointer (pointee : TypeId)
  | pointer (pointee : TypeId) (space : AddressSpace) (qualifiers : Qualifiers)
  | vector (element : TypeId) (length : UInt8)
  | atomic (base : TypeId)
  | block (params : List TypeId)
  | user (name : String)

namespace Construction

/-- What the call gives, and the pool after it. -/
def build (pool : Pool) : Construction → Pool.Outcome
  | plainPointer pointee => pool.plainPointer pointee
  | pointer pointee space qualifiers => pool.pointer pointee space qualifiers
  | vector element length => pool.vector element length
  | atomic base => pool.atomic base
  | block params => pool.block params
  | user name => pool.user name

/-- The handles that the call is given. -/
def handles : Construction → List TypeId
  | plainPointer pointee | pointer pointee _ _ => [pointee]
  | vector element _ => [element]
  | atomic base => [base]
  | block params => params
  | user _ => []

/-- The node that the call is for. -/
def node : Construction → Node
  | plainPointer pointee => .pointer pointee .privateMemory ⟨0⟩
  | pointer pointee space qualifiers => .pointer pointee space qualifiers
  | vector element length => .vector element length
  | atomic base => .atomic base
  | block params => .block params
  | user name => .user name

/-- The pool after calls on a new one. A call that is refused does not end the run. -/
def run (calls : List Construction) : Pool :=
  calls.foldl (fun pool call => (call.build pool).2) .new

/-- Every handle that a call is given is one of the pool at that time. -/
def InRange (calls : List Construction) : Prop :=
  ∀ before call after, calls = before ++ call :: after →
    ∀ id ∈ call.handles, id.index < (run before).size

variable {pool larger : Pool} {call : Construction} {calls : List Construction} {id : TypeId}
  {fault : Fault}

theorem children_node (call : Construction) : call.node.children = call.handles := by
  cases call <;> rfl

/-- A call adds its node, which has been checked, or is refused and changes nothing. -/
theorem build_cases (pool : Pool) (call : Construction) :
    (pool.Admits call.node ∧ call.build pool = pool.add call.node) ∨
      ∃ fault, call.build pool = (.error fault, pool) := by
  cases call with
  | plainPointer _ | pointer _ _ _ | block _ | user _ => exact .inl ⟨trivial, rfl⟩
  | vector element length =>
    simp only [build, Pool.vector]
    split
    · exact .inr ⟨_, rfl⟩
    · rename_i legal
      split
      · rename_i scalar
        cases found : element.asPrimitive? with
        | none => simp [found] at scalar
        | some kind =>
          have checked : kind.isScalar = true := by simpa [found] using scalar
          exact .inl ⟨⟨not_not.mp legal, kind, checked, TypeId.eq_ofPrimitive found⟩, rfl⟩
      · exact .inr ⟨_, rfl⟩
  | atomic base =>
    simp only [build, Pool.atomic]
    split
    · rename_i kind
      obtain ⟨node, found, kind⟩ := Option.map_eq_some_iff.mp kind
      exact .inl ⟨⟨node, found, .inl kind⟩, rfl⟩
    · rename_i kind
      obtain ⟨node, found, kind⟩ := Option.map_eq_some_iff.mp kind
      exact .inl ⟨⟨node, found, .inr kind⟩, rfl⟩
    · exact .inr ⟨_, rfl⟩

theorem build_eq_ok (built : call.build pool = (.ok id, larger)) :
    pool.Admits call.node ∧ pool.add call.node = (.ok id, larger) := by
  rcases build_cases pool call with ⟨admitted, same⟩ | ⟨fault, refused⟩
  · exact ⟨admitted, same.symm.trans built⟩
  · cases refused.symm.trans built

theorem build_eq_error (refused : call.build pool = (.error fault, larger)) : larger = pool := by
  rcases build_cases pool call with ⟨_, same⟩ | ⟨_, same⟩
  · exact (Pool.add_eq_error_iff.mp (same.symm.trans refused)).2.2.symm
  · exact (Prod.mk.inj (refused.symm.trans same)).2

theorem build_preserves {holds : Pool → Prop} (start : holds pool)
    (grow : ∀ id larger, pool.Admits call.node → pool.add call.node = (.ok id, larger) →
      holds larger) : holds (call.build pool).2 := by
  cases built : call.build pool with
  | mk result after =>
    cases result with
    | ok id =>
      obtain ⟨admitted, added⟩ := build_eq_ok built
      exact grow id after admitted added
    | error fault => exact build_eq_error built ▸ start

theorem run_append (calls : List Construction) (call : Construction) :
    run (calls ++ [call]) = (call.build (run calls)).2 := by
  rw [run, List.foldl_append]
  rfl

theorem inRange_nil : InRange [] := by
  intro before call after split
  simp at split

/-- The handles of the last call are judged by the pool after the others. -/
theorem inRange_append_iff : InRange (calls ++ [call]) ↔
    InRange calls ∧ ∀ id ∈ call.handles, id.index < (run calls).size := by
  constructor
  · intro inside
    refine ⟨?_, inside calls call [] rfl⟩
    intro before earlier after split
    exact inside before earlier (after ++ [call]) (by rw [split, List.append_assoc]; rfl)
  · rintro ⟨inside, last⟩ before other after split
    rcases List.eq_nil_or_concat after with rfl | ⟨more, final, rfl⟩
    · obtain ⟨rfl, same⟩ := List.append_inj' split rfl
      obtain rfl := List.singleton_inj.mp same
      exact last
    · rw [List.concat_eq_append, ← List.cons_append, ← List.append_assoc] at split
      obtain ⟨rfl, _⟩ := List.append_inj' split rfl
      exact inside before other more rfl

theorem regular_run (calls : List Construction) : (run calls).Regular := by
  induction calls using List.reverseRecOn with
  | nil => exact Pool.regular_new
  | append_singleton calls call ih =>
    rw [run_append]
    exact build_preserves ih fun _ _ admitted added => ih.add admitted added

theorem descending_run (inside : InRange calls) : (run calls).Descending := by
  induction calls using List.reverseRecOn with
  | nil => exact Pool.descending_new
  | append_singleton calls call ih =>
    obtain ⟨earlier, handles⟩ := inRange_append_iff.mp inside
    rw [run_append]
    refine build_preserves (ih earlier) fun _ _ _ added => ?_
    exact (ih earlier).add (fun child member => handles child (call.children_node ▸ member)) added

/-- Every run of calls leaves a regular pool. A call after it puts its node under the next handle
and changes no other node, or is refused and changes nothing; and if every handle was in range when
it was given, each node comes after its children and nothing that looks into the pool is
interrupted. -/
theorem run_invariant (calls : List Construction) :
    (run calls).Regular ∧
      (∀ call id larger, build (run calls) call = (.ok id, larger) →
        id.index = (run calls).size ∧ larger.size = (run calls).size + 1 ∧
          larger.node? id = some call.node ∧
          ∀ other : TypeId, other.index < (run calls).size →
            larger.node? other = (run calls).node? other) ∧
      (∀ call fault after, build (run calls) call = (.error fault, after) → after = run calls) ∧
      (InRange calls → (run calls).Descending ∧ (run calls).Answers) := by
  refine ⟨regular_run calls, ?_, ?_, ?_⟩
  · intro call id larger built
    obtain ⟨_, added⟩ := build_eq_ok built
    exact ⟨Pool.index_add added, Pool.size_add added, Pool.node?_add_self added,
      fun other => Pool.node?_add_of_lt added⟩
  · intro call fault after refused
    exact build_eq_error refused
  · intro inside
    exact ⟨descending_run inside, (descending_run inside).answers⟩

/-- An atomic type of a pointer and a block of both, made around a vector of pointers that is
refused. After them a vector of another length, a vector of `void` and an atomic type of a block are
refused as well. -/
theorem run_invariant_refused :
    ∃ calls, calls = [pointer ⟨10⟩ .globalMemory ⟨4⟩, vector ⟨33⟩ 4, atomic ⟨33⟩,
        block [⟨33⟩, ⟨34⟩, ⟨33⟩]] ∧
      (vector ⟨33⟩ 4).build (run [pointer ⟨10⟩ .globalMemory ⟨4⟩]) =
        (.error .vectorElement, run [pointer ⟨10⟩ .globalMemory ⟨4⟩]) ∧
      (block [⟨33⟩, ⟨34⟩, ⟨33⟩]).build (run [pointer ⟨10⟩ .globalMemory ⟨4⟩, vector ⟨33⟩ 4,
        atomic ⟨33⟩]) = (.ok ⟨35⟩, run calls) ∧
      (run calls).node? ⟨35⟩ = some (.block [⟨33⟩, ⟨34⟩, ⟨33⟩]) ∧
      (vector ⟨10⟩ 5).build (run calls) = (.error (.vectorLength 5), run calls) ∧
      (vector ⟨12⟩ 4).build (run calls) = (.error .vectorElement, run calls) ∧
      (atomic ⟨35⟩).build (run calls) = (.error .atomicBase, run calls) ∧
      InRange calls ∧ (run calls).size = 36 ∧ (run calls).Descending ∧ (run calls).Answers := by
  have first : InRange ([] ++ [pointer ⟨10⟩ .globalMemory ⟨4⟩]) :=
    inRange_append_iff.mpr ⟨inRange_nil, by decide +kernel⟩
  have second : InRange ([pointer ⟨10⟩ .globalMemory ⟨4⟩] ++ [vector ⟨33⟩ 4]) :=
    inRange_append_iff.mpr ⟨first, by decide +kernel⟩
  have third : InRange ([pointer ⟨10⟩ .globalMemory ⟨4⟩, vector ⟨33⟩ 4] ++ [atomic ⟨33⟩]) :=
    inRange_append_iff.mpr ⟨second, by decide +kernel⟩
  have inside : InRange ([pointer ⟨10⟩ .globalMemory ⟨4⟩, vector ⟨33⟩ 4, atomic ⟨33⟩] ++
      [block [⟨33⟩, ⟨34⟩, ⟨33⟩]]) := inRange_append_iff.mpr ⟨third, by decide +kernel⟩
  have refused : (vector ⟨33⟩ 4).build (run [pointer ⟨10⟩ .globalMemory ⟨4⟩]) =
      (.error .vectorElement, run [pointer ⟨10⟩ .globalMemory ⟨4⟩]) := by decide +kernel
  have built : (block [⟨33⟩, ⟨34⟩, ⟨33⟩]).build (run [pointer ⟨10⟩ .globalMemory ⟨4⟩, vector ⟨33⟩ 4,
      atomic ⟨33⟩]) = (.ok ⟨35⟩, run [pointer ⟨10⟩ .globalMemory ⟨4⟩, vector ⟨33⟩ 4, atomic ⟨33⟩,
        block [⟨33⟩, ⟨34⟩, ⟨33⟩]]) := by decide +kernel
  obtain ⟨_, _, node, _⟩ := (run_invariant _).2.1 _ _ _ built
  exact ⟨_, rfl, refused, built, node, by decide +kernel, by decide +kernel, by decide +kernel,
    inside, by decide +kernel, (run_invariant _).2.2.2 inside⟩

end Construction
end SpirSymbol
