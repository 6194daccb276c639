import SpirSymbol.Proofs.Spelling
import SpirSymbol.Symbol

/-! Reading tokens. The characters at the front of a token tell what it is, and what follows in it
says where it ends, so the texts of tokens that are written one after another can be cut apart in
one way only. Names have to leave room for that: they do not begin with a digit, and no user type
has the name that stands for a primitive kind. -/
namespace SpirSymbol

namespace Token

variable {token other : Token} {name : String}

def Clear : Token → Prop
  | user name => ClearName name
  | _ => True

/-- The token as far as its text tells it: unknown qualifier bits are not written. -/
def known : Token → Token
  | pointer space qualifiers => .pointer space qualifiers.truncate
  | token => token

/-- The name of a token that is written as a counted name. -/
def name? : Token → Option String
  | primitive kind => kind.vendorName?
  | user name => some name
  | _ => none

/-- The token without what it says about a pointer, a vector or a number. -/
def skeleton : Token → Token
  | pointer _ _ => .pointer default ∅
  | vector _ => .vector 0
  | again _ => .again 0
  | token => token

theorem text_of_name? (named : token.name? = some name) : token.text = counted name := by
  cases token with
  | primitive kind => exact Primitive.code_eq_counted named
  | user name =>
    obtain rfl := Option.some.inj named
    rfl
  | _ => cases named

theorem eq_of_name? (clear : token.Clear) (clear' : other.Clear) (named : token.name? = some name)
    (named' : other.name? = some name) : token = other := by
  cases token with
  | primitive kind =>
    cases other with
    | primitive kind' =>
      have same : kind.code = kind'.code := (text_of_name? named).trans (text_of_name? named').symm
      rw [Primitive.code_inj same]
    | user name' =>
      obtain rfl := Option.some.inj named'
      exact absurd named (clear'.free kind)
    | _ => cases named'
  | user name' =>
    obtain rfl := Option.some.inj named
    cases other with
    | primitive kind' => exact absurd named' (clear.free kind')
    | user name'' =>
      obtain rfl := Option.some.inj named'
      rfl
    | _ => cases named'
  | _ => cases named

theorem stops_of_name? (clear : token.Clear) (named : token.name? = some name) :
    Text.Stops Char.isDigit name.toList := by
  cases token with
  | primitive kind => exact Primitive.stops_vendorName? named
  | user name' =>
    obtain rfl := Option.some.inj named
    exact clear.stops
  | _ => cases named

end Token

/-- What the first characters of a text say about the token there. -/
inductive Lead where
  | name
  | plain (skeleton : Token)

def Token.lead (token : Token) : Lead :=
  if token.name?.isSome then .name else .plain token.skeleton

/-- Reads the characters that a token begins with. -/
def Lead.read? : List Char → Option Lead
  | [] => none
  | char :: rest =>
    if char.isDigit then some .name
    else match char, rest with
      | 'P', _ => some (.plain (.pointer default ∅))
      | 'D', 'v' :: _ => some (.plain (.vector 0))
      | 'D', 'h' :: _ => some (.plain (.primitive .half))
      | 'U', '7' :: _ => some (.plain .atomic)
      | 'U', '1' :: _ => some (.plain .blockStart)
      | 'E', _ => some (.plain .blockEnd)
      | 'S', _ => some (.plain (.again 0))
      | char, _ =>
        (Primitive.all.find? fun kind => kind.code.toList = [char]).map fun kind =>
          .plain (.primitive kind)

theorem Lead.read?_text (token : Token) (rest : List Char) :
    read? (token.text.toList ++ rest) = some token.lead := by
  cases token with
  | primitive kind => cases kind <;> rfl
  | pointer space qualifiers =>
    rw [Token.text, String.toList_append, String.toList_append]
    rfl
  | vector length =>
    rw [Token.text, String.toList_append, String.toList_append]
    rfl
  | atomic => rfl
  | blockStart => rfl
  | blockEnd => rfl
  | user name =>
    obtain ⟨char, tail, shape, digit, _⟩ := Numeral.decimal_eq_cons name.utf8ByteSize
    rw [Token.text, Token.toList_counted, shape]
    simp [read?, digit, Token.lead, Token.name?]
  | again number =>
    rw [Token.text, String.toList_append, String.toList_append]
    rfl

/-- What may follow a token: nothing, or something that begins as a token does. -/
def Token.Ends (rest : List Char) : Prop := rest = [] ∨ ∃ lead, Lead.read? rest = some lead

namespace Token

variable {token other : Token} {rest others : List Char}

theorem ends_flatMap (tokens : List Token) :
    Ends (tokens.flatMap fun token => token.text.toList) := by
  cases tokens with
  | nil => exact .inl rfl
  | cons token tokens => exact .inr ⟨_, Lead.read?_text token _⟩

theorem Ends.stops (ends : Ends rest) : Text.Stops Qualifier.isMark rest := by
  intro char first
  rcases ends with rfl | ⟨lead, read⟩
  · cases first
  · obtain ⟨tail, rfl⟩ := List.head?_eq_some_iff.mp first
    apply Bool.eq_false_iff.mpr
    intro mark
    have marks : char = 'r' ∨ char = 'V' ∨ char = 'K' := by
      simpa [Qualifier.isMark, Qualifier.all, Qualifier.mark] using mark
    rcases marks with rfl | rfl | rfl <;> cases read

theorem Ends.ne_space (ends : Ends rest) (tail : List Char) : rest ≠ 'U' :: '3' :: tail := by
  intro same
  subst same
  rcases ends with empty | ⟨lead, read⟩
  · cases empty
  · cases read

theorem stops_space (ends : Ends rest) (space : AddressSpace) :
    Text.Stops Qualifier.isMark (space.code.toList ++ rest) := by
  cases space with
  | privateMemory => exact ends.stops
  | globalMemory | constantMemory | localMemory | genericMemory => exact Text.stops_cons rfl

theorem space_append_inj {space space' : AddressSpace} (ends : Ends rest) (ends' : Ends others)
    (same : space.code.toList ++ rest = space'.code.toList ++ others) :
    space = space' ∧ rest = others := by
  have none := ends.ne_space
  have none' (tail : List Char) : 'U' :: '3' :: tail ≠ others := (ends'.ne_space tail).symm
  cases space <;> cases space' <;> simp_all [AddressSpace.code]

theorem pointer_append_inj {space space' : AddressSpace} {qualifiers qualifiers' : Qualifiers}
    (ends : Ends rest) (ends' : Ends others)
    (same : (pointer space qualifiers).text.toList ++ rest =
      (pointer space' qualifiers').text.toList ++ others) :
    (space = space' ∧ qualifiers.truncate = qualifiers'.truncate) ∧ rest = others := by
  simp only [text, String.toList_append, List.append_assoc] at same
  obtain ⟨codes, follows⟩ := Text.append_inj_of_stops (fun _ => Qualifiers.isMark_of_mem_code)
    (fun _ => Qualifiers.isMark_of_mem_code) (stops_space ends space) (stops_space ends' space')
    (List.append_cancel_left same)
  obtain ⟨rfl, rest⟩ := space_append_inj ends ends' follows
  exact ⟨⟨rfl, Qualifiers.truncate_eq_of_code codes⟩, rest⟩

theorem vector_append_inj {length length' : UInt8}
    (same : (vector length).text.toList ++ rest = (vector length').text.toList ++ others) :
    length = length' ∧ rest = others := by
  simp only [text, String.toList_append, List.append_assoc] at same
  have stops (rest : List Char) : Text.Stops Char.isDigit ("_".toList ++ rest) :=
    Text.stops_cons rfl
  obtain ⟨number, follows⟩ :=
    Numeral.decimal_append_inj (stops rest) (stops others) (List.append_cancel_left same)
  exact ⟨UInt8.toNat_inj.mp number, List.append_cancel_left follows⟩

theorem again_append_inj {number number' : Nat}
    (same : (again number).text.toList ++ rest = (again number').text.toList ++ others) :
    number = number' ∧ rest = others := by
  simp only [text, String.toList_append, List.append_assoc] at same
  have stops (rest : List Char) : Text.Stops Numeral.isUpper ("_".toList ++ rest) :=
    Text.stops_cons rfl
  obtain ⟨number, follows⟩ :=
    Numeral.base36_append_inj (stops rest) (stops others) (List.append_cancel_left same)
  exact ⟨number, List.append_cancel_left follows⟩

theorem text_append_inj (clear : token.Clear) (clear' : other.Clear) (ends : Ends rest)
    (ends' : Ends others) (same : token.text.toList ++ rest = other.text.toList ++ others) :
    token.known = other.known ∧ rest = others := by
  have lead : token.lead = other.lead := by
    have read := Lead.read?_text token rest
    rw [same, Lead.read?_text] at read
    exact (Option.some.inj read).symm
  cases named : token.name? with
  | some name =>
    cases named' : other.name? with
    | none => simp [Token.lead, named, named'] at lead
    | some name' =>
      rw [text_of_name? named, text_of_name? named'] at same
      obtain ⟨rfl, follows⟩ := counted_append_inj (stops_of_name? clear named)
        (stops_of_name? clear' named') same
      rw [eq_of_name? clear clear' named named']
      exact ⟨rfl, follows⟩
  | none =>
    cases named' : other.name? with
    | some name' => simp [Token.lead, named, named'] at lead
    | none =>
      have skeletons : token.skeleton = other.skeleton := by
        simpa [Token.lead, named, named'] using lead
      cases token with
      | pointer space qualifiers =>
        cases other with
        | pointer space' qualifiers' =>
          obtain ⟨⟨rfl, known⟩, follows⟩ := pointer_append_inj ends ends' same
          exact ⟨congrArg (pointer space) known, follows⟩
        | _ => cases skeletons
      | vector length =>
        cases other with
        | vector length' =>
          obtain ⟨rfl, follows⟩ := vector_append_inj same
          exact ⟨rfl, follows⟩
        | _ => cases skeletons
      | again number =>
        cases other with
        | again number' =>
          obtain ⟨rfl, follows⟩ := again_append_inj same
          exact ⟨rfl, follows⟩
        | _ => cases skeletons
      | primitive _ | atomic | blockStart | blockEnd | user _ =>
        cases other with
        | pointer _ _ | vector _ | again _ => cases skeletons
        | _ => cases skeletons <;> exact ⟨rfl, List.append_cancel_left same⟩

theorem text_ne_nil (token : Token) : token.text.toList ≠ [] := by
  intro empty
  have read := Lead.read?_text token []
  rw [empty] at read
  cases read

private theorem known_eq_of_flatMap {tokens more : List Token}
    (clear : ∀ token ∈ tokens, token.Clear) (clear' : ∀ token ∈ more, token.Clear)
    (same : tokens.flatMap (·.text.toList) = more.flatMap (·.text.toList)) :
    tokens.map known = more.map known := by
  induction tokens generalizing more with
  | nil =>
    cases more with
    | nil => rfl
    | cons token more =>
      rw [List.flatMap_cons] at same
      exact absurd (List.append_eq_nil_iff.mp same.symm).1 token.text_ne_nil
  | cons token tokens ih =>
    cases more with
    | nil =>
      rw [List.flatMap_cons] at same
      exact absurd (List.append_eq_nil_iff.mp same).1 token.text_ne_nil
    | cons other more =>
      rw [List.flatMap_cons, List.flatMap_cons] at same
      obtain ⟨head, tail⟩ := text_append_inj (clear token List.mem_cons_self)
        (clear' other List.mem_cons_self) (ends_flatMap tokens) (ends_flatMap more) same
      rw [List.map_cons, List.map_cons, head]
      congr 1
      apply ih _ _ tail
      · exact fun later member => clear later (List.mem_cons_of_mem _ member)
      · exact fun later member => clear' later (List.mem_cons_of_mem _ member)

/-- The text of several tokens can be cut into tokens in one way only. -/
theorem known_eq_of_texts {tokens more : List Token} (clear : ∀ token ∈ tokens, token.Clear)
    (clear' : ∀ token ∈ more, token.Clear)
    (same : String.join (tokens.map text) = String.join (more.map text)) :
    tokens.map known = more.map known := by
  apply known_eq_of_flatMap clear clear'
  simpa [List.flatMap_map] using congrArg String.toList same

end Token

/-- A symbol is known by its text, up to qualifier bits that are not written. -/
theorem Symbol.text_inj (symbol other : Symbol)
    (stops : Text.Stops Char.isDigit symbol.name.toList)
    (stops' : Text.Stops Char.isDigit other.name.toList)
    (clear : ∀ token ∈ symbol.tokens, token.Clear) (clear' : ∀ token ∈ other.tokens, token.Clear)
    (same : symbol.text = other.text) :
    symbol.name = other.name ∧ symbol.tokens.map Token.known = other.tokens.map Token.known := by
  have chars := congrArg String.toList same
  simp only [text, String.toList_append, List.append_assoc] at chars
  obtain ⟨names, follows⟩ := Token.counted_append_inj stops stops' (List.append_cancel_left chars)
  exact ⟨names, Token.known_eq_of_texts clear clear' (String.toList_injective follows)⟩

end SpirSymbol
