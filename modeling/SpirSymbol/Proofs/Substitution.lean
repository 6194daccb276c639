import SpirSymbol.Proofs.Numeral
import SpirSymbol.Proofs.Prototype

/-! Back-references. A symbol is the text of the stops of one walk through the parameters: a
pointer or user type is written in full where it is met first and by its number from then on, the
number being that of the distinct pointers and user types met before it. -/
namespace SpirSymbol

section Text

/-- What a symbol has for a primitive: one or two letters, or a counted vendor name. -/
def Primitive.written : Primitive → String
  | bool => "b"
  | uchar => "h"
  | char => "c"
  | ushort => "t"
  | short => "s"
  | uint => "j"
  | int => "i"
  | ulong => "m"
  | long => "l"
  | half => "Dh"
  | float => "f"
  | double => "d"
  | void => "v"
  | varArg => "z"
  | image1d => "11ocl_image1d"
  | image2d => "11ocl_image2d"
  | image2dDepth => "16ocl_image2ddepth"
  | image2dMsaa => "15ocl_image2dmsaa"
  | image2dMsaaDepth => "20ocl_image2dmsaadepth"
  | image3d => "11ocl_image3d"
  | image1dBuffer => "17ocl_image1dbuffer"
  | image1dArray => "16ocl_image1darray"
  | image2dArray => "16ocl_image2darray"
  | image2dArrayDepth => "21ocl_image2darraydepth"
  | image2dArrayMsaa => "20ocl_image2darraymsaa"
  | image2dArrayMsaaDepth => "25ocl_image2darraymsaadepth"
  | event => "9ocl_event"
  | sampler => "11ocl_sampler"
  | clkEvent => "12ocl_clkevent"
  | pipe => "8ocl_pipe"
  | reserveId => "13ocl_reserveid"
  | queue => "9ocl_queue"
  | ndRange => "9ndrange_t"

/-- What a symbol has for an address space. -/
def AddressSpace.written : AddressSpace → String
  | privateMemory => ""
  | globalMemory => "U3AS1"
  | constantMemory => "U3AS2"
  | localMemory => "U3AS3"
  | genericMemory => "U3AS4"

/-- What a symbol has for qualifiers: `restrict`, `volatile` and `const`, in this order. -/
def Qualifiers.written (qualifiers : Qualifiers) : String :=
  (if qualifiers.bits &&& 1 = 1 then "r" else "") ++
    (if qualifiers.bits &&& 2 = 2 then "V" else "") ++
    (if qualifiers.bits &&& 4 = 4 then "K" else "")

/-- What a symbol has before the children of a node. -/
def Node.openingText : Node → String
  | primitive kind => kind.written
  | pointer _ space qualifiers => "P" ++ qualifiers.written ++ space.written
  | vector _ length => "Dv" ++ toString length.toNat ++ "_"
  | atomic _ => "U7_Atomic"
  | block [] => "U13block_pointerFvv"
  | block _ => "U13block_pointerFv"
  | user name => toString name.utf8ByteSize ++ name

/-- What a symbol has after the children of a node. -/
def Node.closingText : Node → String
  | block _ => "E"
  | _ => ""

namespace Stop

/-- A number in base 36, the first digit counting most. -/
def numeral (number : Nat) : String :=
  String.ofList ((if number = 0 then [0] else (Nat.digits 36 number).reverse).map fun place =>
    "0123456789ABCDEFGHIJKLMNOPQRSTUVWXYZ".toList.getD place '0')

def text : Stop → String
  | enter _ node => node.openingText
  | again _ number => "S" ++ numeral number ++ "_"
  | leave _ node => node.closingText

end Stop

theorem Primitive.code_eq (kind : Primitive) : kind.code = kind.written := by
  cases kind <;> rfl

theorem AddressSpace.code_eq (space : AddressSpace) : space.code = space.written := by
  cases space <;> rfl

theorem Qualifiers.code_eq (qualifiers : Qualifiers) : qualifiers.code = qualifiers.written := by
  have restrict : qualifiers.contains Qualifier.restrict.flag =
      decide (qualifiers.bits &&& 1 = 1) := by simp [contains, inter, Qualifier.flag]
  have volatile : qualifiers.contains Qualifier.volatile.flag =
      decide (qualifiers.bits &&& 2 = 2) := by simp [contains, inter, Qualifier.flag]
  have const : qualifiers.contains Qualifier.const.flag =
      decide (qualifiers.bits &&& 4 = 4) := by simp [contains, inter, Qualifier.flag]
  simp only [code, toList, Qualifier.all, List.filter_cons, List.filter_nil, restrict, volatile,
    const, decide_eq_true_eq, written]
  split <;> split <;> split <;> rfl

theorem Stop.base36_eq (number : Nat) : Numeral.base36 number = numeral number := by
  have digit : ∀ place : Fin 36, Numeral.upperDigit place =
      "0123456789ABCDEFGHIJKLMNOPQRSTUVWXYZ".toList.getD place '0' := by decide
  rw [Numeral.base36, numeral, ← Numeral.digits_eq_reverse (by decide)]
  congr 1
  apply List.map_congr_left
  intro place member
  exact digit ⟨place, Numeral.lt_of_mem_digits (by decide) member⟩

private theorem join_text (token : Token) : String.join ([token].map Token.text) = token.text := by
  rw [List.map_singleton, String.join_cons, String.join_nil, String.append_empty]

theorem Node.join_opening (node : Node) :
    String.join (node.opening.map Token.text) = node.openingText := by
  cases node with
  | primitive kind => exact (join_text _).trans kind.code_eq
  | pointer pointee space qualifiers =>
    calc String.join ((pointer pointee space qualifiers).opening.map Token.text)
        = "P" ++ qualifiers.code ++ space.code := join_text _
      _ = (pointer pointee space qualifiers).openingText := by
        rw [qualifiers.code_eq, space.code_eq, openingText]
  | vector element length =>
    calc String.join ((vector element length).opening.map Token.text)
        = "Dv" ++ Numeral.decimal length.toNat ++ "_" := join_text _
      _ = (vector element length).openingText := by
        rw [Numeral.decimal_eq_toString, openingText]
  | atomic base => exact join_text _
  | block params =>
    cases params with
    | nil => rfl
    | cons param rest => exact join_text _
  | user name =>
    calc String.join ((user name).opening.map Token.text)
        = Numeral.decimal name.utf8ByteSize ++ name := join_text _
      _ = (user name).openingText := by
        rw [Numeral.decimal_eq_toString, openingText]

theorem Stop.join_tokens (stop : Stop) : String.join (stop.tokens.map Token.text) = stop.text := by
  cases stop with
  | enter id node => exact node.join_opening
  | again id number =>
    calc String.join ((again id number).tokens.map Token.text)
        = "S" ++ Numeral.base36 number ++ "_" := join_text _
      _ = (again id number).text := by rw [base36_eq, text]
  | leave id node => cases node <;> rfl

theorem Stop.join_flatMap_tokens (stops : List Stop) :
    String.join ((stops.flatMap tokens).map Token.text) = String.join (stops.map text) := by
  induction stops with
  | nil => rfl
  | cons stop rest ih =>
    rw [List.flatMap_cons, List.map_append, String.join_append, join_tokens, ih, List.map_cons,
      String.join_cons]

end Text

/-- The pointers and user types that the stops go into, in order. -/
def Stop.met : List Stop → List TypeId
  | [] => []
  | enter id (.pointer _ _ _) :: later => id :: met later
  | enter id (.user _) :: later => id :: met later
  | _ :: later => met later

theorem Stop.met_eq (stops : List Stop) : met stops = registered stops := by
  induction stops with
  | nil => rfl
  | cons stop rest ih =>
    cases stop with
    | enter id node => cases node <;> simp [met, registered, ih, Node.registers, Node.isNumbered]
    | again _ _ | leave _ _ => exact ih

/-- A walk, told by the kinds of nodes. It goes below a vector, an atomic type and a block whenever
it comes to one, and below a pointer the first time only; a pointer or user type that it has come
to before has for its number how many distinct ones it came to before that one. -/
inductive Pool.Visits (pool : Pool) :
    List TypeId → List TypeId → List Stop → List TypeId → Prop where
  | done {seen : List TypeId} : Visits pool seen [] [] seen
  | primitive {seen ids last : List TypeId} {stops : List Stop} {id : TypeId} {kind : Primitive}
      (found : pool.nodes[id.raw.toNat]? = some (.primitive kind))
      (rest : Visits pool seen ids stops last) :
      Visits pool seen (id :: ids)
        (.enter id (.primitive kind) :: .leave id (.primitive kind) :: stops) last
  | pointer {seen ids middle last : List TypeId} {inner stops : List Stop} {id pointee : TypeId}
      {space : AddressSpace} {qualifiers : Qualifiers}
      (found : pool.nodes[id.raw.toNat]? = some (.pointer pointee space qualifiers))
      (new : id ∉ seen) (inside : Visits pool (seen ++ [id]) [pointee] inner middle)
      (rest : Visits pool middle ids stops last) :
      Visits pool seen (id :: ids) (.enter id (.pointer pointee space qualifiers) ::
        inner ++ .leave id (.pointer pointee space qualifiers) :: stops) last
  | pointerAgain {seen ids last : List TypeId} {stops : List Stop} {id pointee : TypeId}
      {space : AddressSpace} {qualifiers : Qualifiers} {number : Nat}
      (found : pool.nodes[id.raw.toNat]? = some (.pointer pointee space qualifiers))
      (place : seen[number]? = some id) (rest : Visits pool seen ids stops last) :
      Visits pool seen (id :: ids) (.again id number :: stops) last
  | vector {seen ids middle last : List TypeId} {inner stops : List Stop} {id element : TypeId}
      {length : UInt8} (found : pool.nodes[id.raw.toNat]? = some (.vector element length))
      (inside : Visits pool seen [element] inner middle)
      (rest : Visits pool middle ids stops last) :
      Visits pool seen (id :: ids) (.enter id (.vector element length) ::
        inner ++ .leave id (.vector element length) :: stops) last
  | atomic {seen ids middle last : List TypeId} {inner stops : List Stop} {id base : TypeId}
      (found : pool.nodes[id.raw.toNat]? = some (.atomic base))
      (inside : Visits pool seen [base] inner middle) (rest : Visits pool middle ids stops last) :
      Visits pool seen (id :: ids)
        (.enter id (.atomic base) :: inner ++ .leave id (.atomic base) :: stops) last
  | block {seen ids params middle last : List TypeId} {inner stops : List Stop} {id : TypeId}
      (found : pool.nodes[id.raw.toNat]? = some (.block params))
      (inside : Visits pool seen params inner middle) (rest : Visits pool middle ids stops last) :
      Visits pool seen (id :: ids)
        (.enter id (.block params) :: inner ++ .leave id (.block params) :: stops) last
  | user {seen ids last : List TypeId} {stops : List Stop} {id : TypeId} {name : String}
      (found : pool.nodes[id.raw.toNat]? = some (.user name)) (new : id ∉ seen)
      (rest : Visits pool (seen ++ [id]) ids stops last) :
      Visits pool seen (id :: ids) (.enter id (.user name) :: .leave id (.user name) :: stops) last
  | userAgain {seen ids last : List TypeId} {stops : List Stop} {id : TypeId} {name : String}
      {number : Nat} (found : pool.nodes[id.raw.toNat]? = some (.user name))
      (place : seen[number]? = some id) (rest : Visits pool seen ids stops last) :
      Visits pool seen (id :: ids) (.again id number :: stops) last

section Visits

variable {pool : Pool} {seen ids last : List TypeId} {stops : List Stop}

theorem Pool.Visits.of_nil (visits : pool.Visits seen [] stops last) :
    stops = [] ∧ last = seen := by
  cases visits
  exact ⟨rfl, rfl⟩

theorem Pool.Walk.visits (walk : pool.Walk seen ids stops last) :
    pool.Visits seen ids stops last := by
  induction walk with
  | done => exact .done
  | @again _ _ _ _ node _ _ found numbered place _ ih =>
    cases node with
    | pointer pointee space qualifiers => exact .pointerAgain found place ih
    | user name => exact .userAgain found place ih
    | primitive _ | vector _ _ | atomic _ | block _ => cases numbered
  | @enter seen _ middle _ id node inner _ found new _ _ ihInside ihRest =>
    have plain (unnumbered : node.isNumbered = false) :
        pool.Visits seen node.children inner middle := by
      simpa [Node.registers, unnumbered] using ihInside
    cases node with
    | primitive kind =>
      obtain ⟨rfl, rfl⟩ := (plain rfl).of_nil
      exact .primitive found ihRest
    | pointer pointee space qualifiers => exact .pointer found (new rfl) ihInside ihRest
    | vector element length => exact .vector found (plain rfl) ihRest
    | atomic base => exact .atomic found (plain rfl) ihRest
    | block params => exact .block found (plain rfl) ihRest
    | user name =>
      obtain ⟨rfl, rfl⟩ := ihInside.of_nil
      exact .user found (new rfl) ihRest

theorem Pool.Walk.enter_plain {middle : List TypeId} {inner : List Stop} {node : Node} {id : TypeId}
    (unnumbered : node.isNumbered = false) (found : pool.node? id = some node)
    (inside : pool.Walk seen node.children inner middle) (rest : pool.Walk middle ids stops last) :
    pool.Walk seen (id :: ids) (.enter id node :: inner ++ .leave id node :: stops) last := by
  refine .enter found (fun numbered => ?_) ?_ rest
  · rw [unnumbered] at numbered
    cases numbered
  · simpa [Node.registers, unnumbered] using inside

theorem Pool.Visits.walk (visits : pool.Visits seen ids stops last) :
    pool.Walk seen ids stops last := by
  induction visits with
  | done => exact .done
  | primitive found _ ih => exact .enter_plain rfl found .done ih
  | pointer found new _ _ ihInside ihRest => exact .enter found (fun _ => new) ihInside ihRest
  | pointerAgain found place _ ih => exact .again found rfl place ih
  | vector found _ _ ihInside ihRest => exact .enter_plain rfl found ihInside ihRest
  | atomic found _ _ ihInside ihRest => exact .enter_plain rfl found ihInside ihRest
  | block found _ _ ihInside ihRest => exact .enter_plain rfl found ihInside ihRest
  | user found new _ ih => exact .enter found (fun _ => new) .done ih
  | userAgain found place _ ih => exact .again found rfl place ih

end Visits

/-- Every stop fits the numbered handles that were met before it. -/
def Stop.Fit (pool : Pool) : List TypeId → List Stop → Prop
  | _, [] => True
  | seen, enter id node :: later =>
    (pool.node? id = some node ∧ (node.isNumbered = true → id ∉ seen)) ∧
      Fit pool (seen ++ node.registers id) later
  | seen, again id number :: later =>
    ((∃ node, pool.node? id = some node ∧ node.isNumbered = true) ∧ seen[number]? = some id) ∧
      Fit pool seen later
  | seen, leave _ _ :: later => Fit pool seen later

theorem Stop.fit_append {pool : Pool} {seen : List TypeId} {stops later : List Stop} :
    Fit pool seen (stops ++ later) ↔
      Fit pool seen stops ∧ Fit pool (seen ++ registered stops) later := by
  induction stops generalizing seen with
  | nil => simp [Fit, registered]
  | cons stop rest ih => cases stop <;> simp [Fit, registered, ih, and_assoc]

theorem Pool.Walk.fit {pool : Pool} {seen ids last : List TypeId} {stops : List Stop}
    (walk : pool.Walk seen ids stops last) : Stop.Fit pool seen stops := by
  induction walk with
  | done => trivial
  | again found numbered place _ ih => exact ⟨⟨⟨_, found, numbered⟩, place⟩, ih⟩
  | enter found new inside rest ihInside ihRest =>
    refine Stop.fit_append.mpr ⟨⟨⟨found, new⟩, ihInside⟩, ?_⟩
    rw [inside.last_eq, List.append_assoc] at ihRest
    exact ihRest

/-- The stops of the one walk through the parameters that has met nothing before. A stop that goes
into a pointer or user type is the first that comes to it, and every later one has for its number
how many distinct pointers and user types were met before that first one. -/
structure Pool.Tour (pool : Pool) (params : List TypeId) (stops : List Stop) : Prop where
  visits : pool.Visits [] params stops (Stop.met stops)
  only : ∀ other last, pool.Visits [] params other last → other = stops
  distinct : (Stop.met stops).Nodup
  first : ∀ before id node after, stops = before ++ .enter id node :: after →
    pool.nodes[id.raw.toNat]? = some node ∧
      (∀ pointee space qualifiers, node = .pointer pointee space qualifiers →
        id ∉ Stop.met before) ∧
      ∀ name, node = .user name → id ∉ Stop.met before
  later : ∀ before id number after, stops = before ++ .again id number :: after →
    (Stop.met before)[number]? = some id ∧
      ((∃ pointee space qualifiers,
          pool.nodes[id.raw.toNat]? = some (.pointer pointee space qualifiers)) ∨
        ∃ name, pool.nodes[id.raw.toNat]? = some (.user name))

theorem Pool.Walk.tour {pool : Pool} {params last : List TypeId} {stops : List Stop}
    (walk : pool.Walk [] params stops last) : pool.Tour params stops := by
  have final : last = Stop.met stops := by simpa [Stop.met_eq] using walk.last_eq
  subst final
  refine ⟨walk.visits, ?_, walk.nodup List.nodup_nil, ?_, ?_⟩
  · intro other last second
    exact (walk.unique second.walk List.nodup_nil).1.symm
  · intro before id node after split
    have fit := walk.fit
    rw [split, Stop.fit_append] at fit
    obtain ⟨found, new⟩ := fit.2.1
    rw [Stop.met_eq]
    refine ⟨found, ?_, ?_⟩
    · rintro _ _ _ rfl
      exact new rfl
    · rintro _ rfl
      exact new rfl
  · intro before id number after split
    have fit := walk.fit
    rw [split, Stop.fit_append] at fit
    obtain ⟨⟨node, found, numbered⟩, place⟩ := fit.2.1
    rw [Stop.met_eq]
    refine ⟨place, ?_⟩
    cases node with
    | pointer pointee space qualifiers => exact .inl ⟨_, _, _, found⟩
    | user name => exact .inr ⟨name, found⟩
    | primitive _ | vector _ _ | atomic _ | block _ => cases numbered

/-- No handle is ever given a second number; and where there is a symbol, it is the text of the
stops of the tour through the parameters, whose first meetings were given the numbers from zero
on, one each. -/
theorem Prototype.mangle_tour (prototype : Prototype) (pool : Pool) (revision : Revision) :
    prototype.mangle pool revision ≠ .error (.interrupted (.fault .numberedTwice)) ∧
      ∀ text, prototype.mangle pool revision = .ok text →
        ∃ stops, pool.Tour prototype.params stops ∧
          text = "_Z" ++ toString prototype.name.utf8ByteSize ++ prototype.name ++
            String.join (stops.map Stop.text) ∧
          ∃ draft, prototype.params.foldlM (pool.encodeParam revision) ∅ = .ok draft ∧
            (∀ id number, draft.numbers.find? id = some number ↔
              (Stop.met stops)[number]? = some id) ∧
            ∀ number, (∃ id, draft.numbers.find? id = some number) ↔
              number < (Stop.met stops).length := by
  constructor
  · intro twice
    obtain ⟨_, _, _, _, _, other⟩ := missing_of_mangle twice
    cases other
  · intro text mangled
    obtain ⟨_, draft, run, rfl⟩ := mangle_eq_ok_iff.mp mangled
    obtain ⟨stops, last, walk, lists, tokens, _⟩ := Pool.walk_of_params run
    have final : last = Stop.met stops := by simpa [Stop.met_eq] using walk.last_eq
    subst final
    refine ⟨stops, walk.tour, ?_, draft, run, lists.find?_iff, ?_⟩
    · simp only [Symbol.text, Symbol.lead, Token.counted, tokens, Stop.join_flatMap_tokens,
        Numeral.decimal_eq_toString, String.append_assoc]
    · intro number
      simp only [lists.find?_iff, List.getElem?_eq_some_iff]
      constructor
      · rintro ⟨_, inside, _⟩
        exact inside
      · exact fun inside => ⟨_, inside, rfl⟩

/-- In a block, the pointer is numbered before its pointee, and what the atomic type points with is
numbered after both; all three are met again after the block. -/
theorem Prototype.mangle_tour_shared :
    ∃ (pool : Pool) (text : String) (stops : List Stop),
      pool = ⟨#[.user "ut", .pointer ⟨0⟩ .globalMemory ⟨5⟩, .primitive .float,
        .vector ⟨2⟩ 4, .pointer ⟨2⟩ .genericMemory ⟨2⟩, .atomic ⟨4⟩, .block [⟨1⟩, ⟨3⟩, ⟨5⟩],
        .primitive .image2d]⟩ ∧
      text = "_Z1fU13block_pointerFvPrKU3AS12utDv4_fU7_AtomicPVU3AS4fE" ++
        "11ocl_image2dS1_U7_AtomicS2_S0_" ∧
      (⟨"f", [⟨6⟩, ⟨7⟩, ⟨0⟩, ⟨5⟩, ⟨1⟩]⟩ : Prototype).mangle pool .v2_0 = .ok text ∧
      pool.Tour [⟨6⟩, ⟨7⟩, ⟨0⟩, ⟨5⟩, ⟨1⟩] stops ∧ Stop.met stops = [⟨1⟩, ⟨0⟩, ⟨4⟩] ∧
      text = "_Z" ++ toString "f".utf8ByteSize ++ "f" ++ String.join (stops.map Stop.text) := by
  let pool : Pool := ⟨#[.user "ut", .pointer ⟨0⟩ .globalMemory ⟨5⟩, .primitive .float,
    .vector ⟨2⟩ 4, .pointer ⟨2⟩ .genericMemory ⟨2⟩, .atomic ⟨4⟩, .block [⟨1⟩, ⟨3⟩, ⟨5⟩],
    .primitive .image2d]⟩
  have mangled : (⟨"f", [⟨6⟩, ⟨7⟩, ⟨0⟩, ⟨5⟩, ⟨1⟩]⟩ : Prototype).mangle pool .v2_0 = .ok
      ("_Z1fU13block_pointerFvPrKU3AS12utDv4_fU7_AtomicPVU3AS4fE" ++
        "11ocl_image2dS1_U7_AtomicS2_S0_") := by decide +kernel
  obtain ⟨stops, tour, text, _⟩ := (mangle_tour _ pool .v2_0).2 _ mangled
  let met : List TypeId := [⟨1⟩, ⟨0⟩, ⟨4⟩]
  have user : met[1]? = some ⟨0⟩ := rfl
  have generic : met[2]? = some ⟨4⟩ := rfl
  have global : met[0]? = some ⟨1⟩ := rfl
  obtain ⟨others, visits⟩ : ∃ others, pool.Visits [] [⟨6⟩, ⟨7⟩, ⟨0⟩, ⟨5⟩, ⟨1⟩] others met :=
    ⟨_, .block rfl
      (.pointer rfl (by decide) (.user rfl (by decide) .done)
        (.vector rfl (.primitive rfl .done)
          (.atomic rfl (.pointer rfl (by decide) (.primitive rfl .done) .done) .done)))
      (.primitive rfl (.userAgain rfl user
        (.atomic rfl (.pointerAgain rfl generic .done) (.pointerAgain rfl global .done))))⟩
  obtain rfl := tour.only _ _ visits
  have order : Stop.met others = met := by
    rw [Stop.met_eq]
    exact visits.walk.last_eq.symm
  exact ⟨pool, _, others, rfl, rfl, mangled, tour, order, text⟩

end SpirSymbol
