import Mathlib.Data.List.Nodup
import SpirSymbol.Pool.Readable
import SpirSymbol.Proofs.Spelling

namespace SpirSymbol

namespace Text

/-- The characters of words. The others separate words or close a list. -/
def isWord (char : Char) : Bool := char ∉ [' ', ',', '(', ')', '*']

/-- What may follow a spelled type: nothing that goes on with its last word, and no list that would
make a block out of the type `void`. -/
structure Ends (rest : List Char) : Prop where
  stops : Stops isWord rest
  plain : ∀ tail, rest ≠ ' ' :: '(' :: tail

variable {word word' rest others : List Char}

theorem ends_nil : Ends [] := ⟨by simp [Stops], by simp⟩

theorem ends_star (rest : List Char) : Ends (' ' :: '*' :: rest) :=
  ⟨stops_cons rfl, by simp⟩

theorem ends_close (rest : List Char) : Ends (')' :: rest) := ⟨stops_cons rfl, by simp⟩

theorem ends_comma (rest : List Char) : Ends (',' :: rest) := ⟨stops_cons rfl, by simp⟩

theorem isWord_of_isDigit {char : Char} (digit : char.isDigit = true) : isWord char = true := by
  rw [isWord, decide_eq_true_iff]
  intro other
  have table : [' ', ',', '(', ')', '*'].all (fun char => !char.isDigit) = true := by decide
  have none := List.all_eq_true.mp table char other
  rw [digit] at none
  cases none

theorem Ends.stops_isDigit (ends : Ends rest) : Stops Char.isDigit rest := by
  intro char first
  cases digit : char.isDigit with
  | false => rfl
  | true => exact (isWord_of_isDigit digit).symm.trans (ends.stops char first)

/-- The members of a list after its first, as a spelling lists them. -/
def further (texts : List String) : List Char :=
  texts.flatMap fun text => ',' :: ' ' :: text.toList

theorem toList_intercalate_cons (text : String) (texts : List String) :
    (", ".intercalate (text :: texts)).toList = text.toList ++ further texts := by
  rw [String.toList_intercalate, List.map_cons]
  induction texts generalizing text with
  | nil => simp [further]
  | cons next texts ih =>
    rw [List.map_cons, List.intercalate_cons_cons, ih]
    simp [further]

theorem ends_further (texts : List String) (rest : List Char) :
    Ends (further texts ++ ')' :: rest) := by
  cases texts with
  | nil => exact ends_close rest
  | cons text texts => exact ends_comma _

theorem word_append_inj (run : ∀ char ∈ word, isWord char = true)
    (run' : ∀ char ∈ word', isWord char = true)
    (same : word ++ ' ' :: rest = word' ++ ' ' :: others) : word = word' ∧ rest = others := by
  obtain ⟨words, follows⟩ := append_inj_of_stops run run' (stops_cons rfl) (stops_cons rfl) same
  exact ⟨words, (List.cons.inj follows).2⟩

end Text

section Vocabulary

variable {kind kind' : Primitive} {member member' : Qualifier} {space space' : AddressSpace}
  {char : Char}

theorem Primitive.mem_all (kind : Primitive) : kind ∈ all :=
  List.mem_of_getElem? (ofPosition?_position kind)

theorem Primitive.isWord_of_mem_readable (inside : char ∈ kind.readable.toList) :
    Text.isWord char = true := by
  have table : ∀ kind ∈ all, kind.readable.toList.all Text.isWord = true := by decide +kernel
  exact List.all_eq_true.mp (table kind kind.mem_all) char inside

theorem Primitive.readable_inj (same : kind.readable.toList = kind'.readable.toList) :
    kind = kind' := by
  have table : (all.map fun kind => kind.readable.toList).Nodup := by decide +kernel
  exact List.inj_on_of_nodup_map table kind.mem_all kind'.mem_all same

theorem Primitive.not_isDigit_of_scalar (scalar : kind.isScalar = true)
    (inside : char ∈ kind.readable.toList) : char.isDigit = false := by
  have table : ∀ kind ∈ all, kind.isScalar = true →
      kind.readable.toList.all (fun char => !char.isDigit) = true := by decide +kernel
  simpa using List.all_eq_true.mp (table kind kind.mem_all scalar) char inside

theorem Qualifier.isWord_of_mem_readable (inside : char ∈ member.readable.toList) :
    Text.isWord char = true := by
  have table : member.readable.toList.all Text.isWord = true := by cases member <;> decide
  exact List.all_eq_true.mp table char inside

theorem Qualifier.readable_inj (same : member.readable.toList = member'.readable.toList) :
    member = member' := by
  revert same
  cases member <;> cases member' <;> decide

theorem AddressSpace.isWord_of_mem_readable (inside : char ∈ space.readable.toList) :
    Text.isWord char = true := by
  have table : space.readable.toList.all Text.isWord = true := by cases space <;> decide
  exact List.all_eq_true.mp table char inside

theorem AddressSpace.readable_inj (same : space.readable.toList = space'.readable.toList) :
    space = space' := by
  revert same
  cases space <;> cases space' <;> decide

/-- No word is that of a qualifier and of an address space. -/
theorem Qualifier.readable_ne_space (member : Qualifier) (space : AddressSpace) :
    member.readable.toList ≠ space.readable.toList := by
  cases member <;> cases space <;> decide

end Vocabulary

section Pointers

variable {space space' : AddressSpace} {qualifiers qualifiers' : Qualifiers}
  {members members' : List Qualifier} {rest others : List Char}

/-- Qualifiers and the address space after them, with a space after each word. -/
def AddressSpace.words (space : AddressSpace) (members : List Qualifier) (rest : List Char) :
    List Char :=
  members.foldr (fun member rest => member.readable.toList ++ ' ' :: rest)
    (space.readable.toList ++ ' ' :: rest)

theorem Node.toList_pointerWords (space : AddressSpace) (qualifiers : Qualifiers)
    (rest : List Char) : (pointerWords space qualifiers).toList ++ rest =
      space.words qualifiers.toList rest := by
  simp only [pointerWords, Qualifiers.readable, String.toList_join, List.flatMap_map,
    String.toList_append, AddressSpace.words]
  induction qualifiers.toList with
  | nil => simp
  | cons member members ih => simp_all

theorem Node.spell_block {params : List TypeId} (some : params ≠ []) (children : String) :
    (block params).spell children = "void (" ++ children ++ ")*" := by
  cases params with
  | nil => exact absurd rfl some
  | cons _ _ => rfl

/-- The address space is the last word, so the words of pointers are told apart. -/
theorem AddressSpace.words_inj (same : space.words members rest = space'.words members' others) :
    space = space' ∧ members = members' ∧ rest = others := by
  induction members generalizing members' with
  | nil =>
    cases members' with
    | nil =>
      obtain ⟨word, follows⟩ := Text.word_append_inj (fun _ => isWord_of_mem_readable)
        (fun _ => isWord_of_mem_readable) same
      exact ⟨readable_inj word, rfl, follows⟩
    | cons member members' =>
      have word := Text.word_append_inj (fun _ => isWord_of_mem_readable)
        (fun _ => Qualifier.isWord_of_mem_readable) same
      exact absurd word.1.symm (member.readable_ne_space space)
  | cons member members ih =>
    cases members' with
    | nil =>
      have word := Text.word_append_inj (fun _ => Qualifier.isWord_of_mem_readable)
        (fun _ => isWord_of_mem_readable) same
      exact absurd word.1 (member.readable_ne_space space')
    | cons member' members' =>
      obtain ⟨word, follows⟩ := Text.word_append_inj
        (fun _ => Qualifier.isWord_of_mem_readable)
        (fun _ => Qualifier.isWord_of_mem_readable) same
      obtain ⟨spaces, later, follows⟩ := ih follows
      exact ⟨spaces, by rw [Qualifier.readable_inj word, later], follows⟩

end Pointers

namespace Kind

/-- The words that the spelling of a pointer may begin with. -/
def pointerFronts : List (List Char) :=
  Qualifier.all.map (·.readable.toList) ++
    (Named.all : List AddressSpace).map (·.readable.toList)

/-- The kind of node that a word is the first of, if no list follows. -/
def ofWord (word : List Char) : Kind :=
  if "atomic_".toList.isPrefixOf word then atomic
  else if word ∈ pointerFronts then pointer
  else if word.getLast?.any Char.isDigit then vector
  else primitive

/-- The kind of node that a spelling begins with, told by its first word and what follows. -/
def ofFront (word rest : List Char) : Kind :=
  if ofWord word = primitive ∧ [' ', '('].isPrefixOf rest then block else ofWord word

variable {word rest : List Char}

theorem ofWord_readable (kind : Primitive) : ofWord kind.readable.toList = primitive := by
  have table : ∀ kind ∈ Primitive.all, ofWord kind.readable.toList = primitive := by
    decide +kernel
  exact table kind kind.mem_all

theorem ofWord_vector {kind : Primitive} {length : UInt8} (scalar : kind.isScalar = true)
    (legal : length ∈ Pool.vectorLengths) :
    ofWord (kind.readable.toList ++ (Numeral.decimal length.toNat).toList) = vector := by
  have table : ∀ kind ∈ Primitive.all, ∀ length ∈ Pool.vectorLengths, kind.isScalar = true →
      ofWord (kind.readable.toList ++ (Numeral.decimal length.toNat).toList) = vector := by
    decide +kernel
  exact table kind kind.mem_all length legal scalar

theorem ofWord_pointer (front : word ∈ pointerFronts) : ofWord word = pointer := by
  revert word
  decide

theorem ofWord_atomic (word : List Char) : ofWord ("atomic_".toList ++ word) = atomic := by
  simp [ofWord]

theorem ofFront_of_ends {kind : Kind} (first : ofWord word = kind) (ends : Text.Ends rest) :
    ofFront word rest = kind := by
  rw [ofFront, first, if_neg]
  rintro ⟨_, list⟩
  obtain ⟨tail, same⟩ := List.isPrefixOf_iff_prefix.mp list
  exact ends.plain tail same.symm

theorem ofFront_of_ne {kind : Kind} (first : ofWord word = kind) (other : kind ≠ primitive) :
    ofFront word rest = kind := by
  rw [ofFront, first, if_neg fun list => other list.1]

theorem ofFront_list (plain : ofWord word = primitive) (tail : List Char) :
    ofFront word (' ' :: '(' :: tail) = block :=
  if_pos ⟨plain, rfl⟩

end Kind

theorem AddressSpace.exists_front (space : AddressSpace) (members : List Qualifier)
    (rest : List Char) : ∃ word ∈ Kind.pointerFronts, ∃ more,
      space.words members rest = word ++ ' ' :: more ∧ ∀ char ∈ word, Text.isWord char = true := by
  cases members with
  | nil =>
    refine ⟨space.readable.toList, ?_, rest, rfl, fun _ => isWord_of_mem_readable⟩
    cases space <;> simp [Kind.pointerFronts, Named.all]
  | cons member members =>
    refine ⟨member.readable.toList, ?_, _, rfl, fun _ => Qualifier.isWord_of_mem_readable⟩
    cases member <;> simp [Kind.pointerFronts, Qualifier.all]
end SpirSymbol
