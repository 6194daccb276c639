import SpirSymbol.Proofs.Expansion
import SpirSymbol.Proofs.Numeral
import SpirSymbol.Proofs.Sequence
import SpirSymbol.Text.Numeral.Cells

namespace SpirSymbol

namespace Numeral

section Digits

variable {base : Nat} (two : 1 < base)
include two

theorem length_digits_le {number places : Nat} (few : number < base ^ places)
    (room : 0 < places) : (digits base number).length ≤ places := by
  rw [digits_eq_reverse two]
  split
  · exact room
  · rw [List.length_reverse]
    exact (Nat.digits_length_le_iff two number).mpr few

theorem digits_value {places : List Nat} (nonempty : places ≠ [])
    (below : ∀ place ∈ places, place < base) (unpadded : places.head? = some 0 → places = [0]) :
    digits base (value base places) = places := by
  by_cases zero : places = [0]
  · have nothing : value base [0] = 0 := by simp [value]
    rw [zero, nothing, digits_of_lt (Nat.zero_lt_of_lt two)]
  · have last (nonempty' : places.reverse ≠ []) : places.reverse.getLast nonempty' ≠ 0 := by
      rw [List.getLast_reverse]
      intro first
      exact zero (unpadded (List.head?_eq_some_head nonempty ▸ congrArg some first))
    have read : value base places = Nat.ofDigits base places.reverse := by
      rw [← value_reverse, List.reverse_reverse]
    have written : Nat.digits base (value base places) = places.reverse := by
      rw [read]
      exact Nat.digits_ofDigits base two _
        (fun place member => below place (List.mem_reverse.mp member)) last
    have positive : value base places ≠ 0 := by
      rw [← Nat.digits_ne_nil_iff_ne_zero, written]
      exact List.reverse_ne_nil_iff.mpr nonempty
    rw [digits_eq_reverse two, if_neg positive, written, List.reverse_reverse]

end Digits

section Word

variable {number : UInt32}

theorem digits_of_div_eq_zero (last : number / 36 = 0) :
    digits 36 number.toNat = [(number % 36).toNat] := by
  have nothing : number.toNat / 36 = 0 := by simpa using congrArg UInt32.toNat last
  have small := (Nat.div_eq_zero_iff_lt (by decide)).mp nothing
  rw [digits_of_lt small, UInt32.toNat_mod]
  exact congrArg (fun place => [place]) (Nat.mod_eq_of_lt small).symm

theorem digits_of_div_ne_zero (more : ¬number / 36 = 0) :
    digits 36 number.toNat = digits 36 (number / 36).toNat ++ [(number % 36).toNat] := by
  have large : 36 ≤ number.toNat := by
    rw [← UInt32.toNat_inj, UInt32.toNat_div] at more
    exact Nat.le_of_not_lt fun small => more (Nat.div_eq_of_lt small)
  rw [digits_of_le (by decide) large, UInt32.toNat_div, UInt32.toNat_mod]
  rfl

theorem length_digits_word (number : UInt32) : (digits 36 number.toNat).length ≤ wordWidth :=
  length_digits_le (by decide) (Nat.lt_trans number.toNat_lt (by decide)) (by decide)

end Word

section Canonical

variable {number : Nat} {text : List Char}

/-- The text is the numeral of the number in base 36: digits and capital letters, of which the
first counts most, that stand for the number and have no zero in front of others. -/
structure Canonical (number : Nat) (text : List Char) : Prop where
  nonempty : text ≠ []
  upper : ∀ char ∈ text, isUpper char = true
  value_eq : (text.mapM placeOf?).map (value 36) = some number
  unpadded : text.head? = some '0' → text = ['0']

theorem exists_upperDigit {char : Char} (upper : isUpper char = true) :
    ∃ place < 36, upperDigit place = char := by
  have char_eq {base : Nat} (le : base ≤ char.toNat) :
      Char.ofNat (base + (char.toNat - base)) = char := by
    rw [Nat.add_sub_cancel' le, Char.ofNat_toNat]
  rw [isUpper, Bool.or_eq_true] at upper
  rcases upper with digit | letter
  · obtain ⟨low, high⟩ : 48 ≤ char.toNat ∧ char.toNat ≤ 57 := by
      simpa [Char.isDigit, UInt32.le_iff_toNat_le] using digit
    refine ⟨char.toNat - 48, by omega, ?_⟩
    rw [upperDigit, if_pos (by omega), char_eq low]
  · obtain ⟨low, high⟩ : 65 ≤ char.toNat ∧ char.toNat ≤ 90 := of_decide_eq_true letter
    refine ⟨char.toNat - 55, by omega, ?_⟩
    rw [upperDigit, if_neg (by omega), char_eq (by omega)]

theorem exists_map_upperDigit (upper : ∀ char ∈ text, isUpper char = true) :
    ∃ places : List Nat, (∀ place ∈ places, place < 36) ∧ places.map upperDigit = text := by
  induction text with
  | nil => exact ⟨[], by simp, rfl⟩
  | cons char rest ih =>
    obtain ⟨place, small, rfl⟩ := exists_upperDigit (upper char List.mem_cons_self)
    obtain ⟨places, below, rfl⟩ :=
      ih fun other member => upper other (List.mem_cons_of_mem _ member)
    exact ⟨place :: places, List.forall_mem_cons.mpr ⟨small, below⟩, rfl⟩

theorem mapM_placeOf?_upperDigit {places : List Nat} (below : ∀ place ∈ places, place < 36) :
    (places.map upperDigit).mapM placeOf? = some places := by
  have each (place : Nat) (member : place ∈ places) :
      placeOf? (upperDigit place) = some (id place) :=
    placeOf?_upperDigit ⟨place, below place member⟩
  rw [mapM_map_eq_some each, List.map_id]

theorem Canonical.eq_base36 (canonical : Canonical number text) :
    text = (base36 number).toList := by
  obtain ⟨places, below, rfl⟩ := exists_map_upperDigit canonical.upper
  have number_eq := canonical.value_eq
  rw [mapM_placeOf?_upperDigit below, Option.map_some, Option.some.injEq] at number_eq
  have unpadded : places.head? = some 0 → places = [0] := by
    intro zero
    have first : (places.map upperDigit).head? = some '0' := by
      rw [List.head?_map, zero]
      rfl
    have single := congrArg List.length (canonical.unpadded first)
    rw [List.length_map] at single
    obtain ⟨place, rfl⟩ := List.length_eq_one_iff.mp single
    rw [Option.some.inj zero]
  have nonempty : places ≠ [] := fun empty => canonical.nonempty (by rw [empty, List.map_nil])
  rw [base36, String.toList_ofList, ← number_eq, digits_value (by decide) nonempty below unpadded]

theorem canonical_base36 (number : Nat) : Canonical number (base36 number).toList := by
  have below : ∀ place ∈ digits 36 number, place < 36 :=
    fun _ member => lt_of_mem_digits (by decide) member
  refine ⟨?_, fun _ => isUpper_of_mem_base36, ?_, ?_⟩
  · rw [base36, String.toList_ofList, ne_eq, List.map_eq_nil_iff]
    exact digits_ne_nil 36 number
  · rw [base36, String.toList_ofList, mapM_placeOf?_upperDigit below, Option.map_some,
      value_digits (by decide)]
  · intro first
    rw [base36, String.toList_ofList, List.head?_map, Option.map_eq_some_iff] at first
    obtain ⟨place, lead, zero⟩ := first
    rw [upperDigit_eq_zero_iff (below place (List.mem_of_head? lead))] at zero
    have number_eq : number = 0 := by
      by_contra positive
      exact head_digits_ne_zero (by decide) positive (zero ▸ lead)
    rw [number_eq, base36, digits_of_lt (by decide)]
    rfl

/-- A number has one numeral. -/
theorem canonical_iff : Canonical number text ↔ text = (base36 number).toList :=
  ⟨Canonical.eq_base36, fun same => same ▸ canonical_base36 number⟩

theorem Canonical.eq_zero (canonical : Canonical number text) (first : text.head? = some '0') :
    number = 0 := by
  have number_eq := canonical.value_eq
  rw [canonical.unpadded first] at number_eq
  exact (Option.some.inj number_eq).symm

theorem Canonical.underscore_not_mem (canonical : Canonical number text) : '_' ∉ text := by
  intro member
  cases canonical.upper '_' member

end Canonical

namespace Cells

variable {width : Nat} {cells filled : Cells width} {number : UInt32}

theorem position_of_fill? (done : cells.fill? number = some filled) :
    filled.position + (digits 36 number.toNat).length = cells.position := by
  fun_induction fill? cells number with
  | case1 => cases done
  | case2 cells number next pushed last =>
    obtain rfl := Option.some.inj done
    rw [digits_of_div_eq_zero last, List.length_singleton]
    exact position_of_push? pushed
  | case3 cells number next pushed more ih =>
    rw [digits_of_div_ne_zero more, List.length_append, List.length_singleton, ← Nat.add_assoc,
      ih done]
    exact position_of_push? pushed

/-- The digits are written before what was written, the first one in front. -/
theorem written_of_fill? (done : cells.fill? number = some filled) :
    filled.written = (digits 36 number.toNat).map upperDigit ++ cells.written := by
  fun_induction fill? cells number with
  | case1 => cases done
  | case2 cells number next pushed last =>
    obtain rfl := Option.some.inj done
    rw [digits_of_div_eq_zero last, written_of_push? pushed]
    rfl
  | case3 cells number next pushed more ih =>
    rw [digits_of_div_ne_zero more, ih done, written_of_push? pushed, List.map_append,
      List.append_assoc]
    rfl

/-- The cells run out exactly if the number has more digits than there are cells left. -/
theorem fill?_eq_none_iff :
    cells.fill? number = none ↔ cells.position < (digits 36 number.toNat).length := by
  fun_induction fill? cells number with
  | case1 cells number full =>
    have position := push?_eq_none_iff.mp full
    have length := List.length_pos_iff.mpr (digits_ne_nil 36 number.toNat)
    simpa [position] using length
  | case2 cells number next pushed last =>
    have position := position_of_push? pushed
    rw [digits_of_div_eq_zero last, List.length_singleton]
    simp only [reduceCtorEq, false_iff]
    omega
  | case3 cells number next pushed more ih =>
    have position := position_of_push? pushed
    rw [digits_of_div_ne_zero more, List.length_append, List.length_singleton, ih]
    omega

/-- Six cells are too few for the widest number of 32 bits. -/
example : ((blank 6).fill? 4294967295).isNone = true := by decide +kernel

theorem exists_fill?_blank (number : UInt32) :
    ∃ filled, (blank wordWidth).fill? number = some filled ∧
      filled.position + (base36 number.toNat).length = wordWidth ∧
      String.ofList filled.written = base36 number.toNat := by
  cases done : (blank wordWidth).fill? number with
  | none =>
    have more := fill?_eq_none_iff.mp done
    exact absurd (length_digits_word number) (Nat.not_le_of_lt more)
  | some filled =>
    have position := position_of_fill? done
    have written := written_of_fill? done
    rw [written_blank, List.append_nil] at written
    refine ⟨filled, rfl, ?_, ?_⟩
    · rw [base36, String.length_ofList, List.length_map]
      exact position
    · rw [written, base36]

end Cells

theorem appendBase36?_eq (before : String) (number : UInt32) :
    appendBase36? before number = some (before ++ base36 number.toNat) := by
  obtain ⟨filled, done, _, written⟩ := Cells.exists_fill?_blank number
  rw [appendBase36?, done, Option.map_some, written]

theorem base36_inj {number other : Nat} (same : base36 number = base36 other) : number = other := by
  have listed := congrArg String.toList same
  rw [base36, base36, String.toList_ofList, String.toList_ofList] at listed
  exact map_upperDigit_inj (by decide) (by decide) listed

/-- Writing a number of 32 bits never runs out of cells. Any text before it stays as it is, and what
follows is the one numeral of the number: one to seven digits and capital letters, no zero in front
unless the number is zero, and no underscore. No other number is written so. A back-reference has
this numeral between its first and its last character. -/
theorem appendBase36?_canonical (number : UInt32) :
    ∃ text : String,
      (∀ before, appendBase36? before number = some (before ++ text)) ∧
      (∃ filled, (Cells.blank 7).fill? number = some filled ∧ filled.position + text.length = 7) ∧
      1 ≤ text.length ∧ text.length ≤ 7 ∧
      (∀ other, Canonical number.toNat other ↔ other = text.toList) ∧
      (text.toList.head? = some '0' → number = 0) ∧
      '_' ∉ text.toList ∧
      (∀ before other, appendBase36? before other = some (before ++ text) → other = number) ∧
      (Token.again number.toNat).text = "S" ++ text ++ "_" := by
  have canonical := canonical_base36 number.toNat
  obtain ⟨filled, done, position, _⟩ := Cells.exists_fill?_blank number
  have width : filled.position + (base36 number.toNat).length = 7 := position
  have length : 1 ≤ (base36 number.toNat).length := by
    rw [← String.length_toList]
    exact List.length_pos_iff.mpr canonical.nonempty
  refine ⟨base36 number.toNat, fun before => appendBase36?_eq before number,
    ⟨filled, done, width⟩, length, by omega, fun _ => canonical_iff, ?_,
    canonical.underscore_not_mem, ?_, rfl⟩
  · intro first
    exact UInt32.toNat_inj.mp (canonical.eq_zero first)
  · intro before other appended
    rw [appendBase36?_eq, Option.some.injEq] at appended
    have same : base36 other.toNat = base36 number.toNat := by
      apply String.toList_injective
      simpa using congrArg String.toList appended
    exact UInt32.toNat_inj.mp (base36_inj same)

/-- The widest number of 32 bits fills all seven cells, and zero needs one. -/
theorem appendBase36?_canonical_widest :
    appendBase36? "_ZS" 4294967295 = some "_ZS1Z141Z3" ∧ appendBase36? "" 0 = some "0" ∧
      (∃ filled, (Cells.blank 7).fill? 4294967295 = some filled ∧ filled.position = 0) ∧
      (∀ other, Canonical 4294967295 other ↔ other = "1Z141Z3".toList) ∧
      (∀ other, appendBase36? "" other = some "1Z141Z3" → other = 4294967295) ∧
      ∃ text : String, appendBase36? "" 0 = some text ∧ text.toList.head? = some '0' := by
  have widest : appendBase36? "_ZS" 4294967295 = some "_ZS1Z141Z3" := by decide +kernel
  have zero : appendBase36? "" 0 = some "0" := by decide +kernel
  obtain ⟨text, appended, ⟨filled, done, position⟩, _, _, canonical, _, _, distinct, _⟩ :=
    appendBase36?_canonical 4294967295
  have text_eq : text = "1Z141Z3" := by
    have whole : "_ZS" ++ text = "_ZS" ++ "1Z141Z3" :=
      Option.some.inj ((appended "_ZS").symm.trans widest)
    apply String.toList_injective
    simpa using congrArg String.toList whole
  subst text_eq
  refine ⟨widest, zero, ⟨filled, done, ?_⟩, canonical, distinct "", "0", zero, rfl⟩
  exact Nat.add_eq_right.mp position

end Numeral

theorem TypeId.length_le_of_nodup {ids : List TypeId} (distinct : ids.Nodup) :
    ids.length ≤ UInt32.size := by
  have inside : ids.map index ⊆ List.range UInt32.size := by
    intro place member
    obtain ⟨id, _, rfl⟩ := List.mem_map.mp member
    exact List.mem_range.mpr id.raw.toNat_lt
  calc ids.length = (ids.map index).length := List.length_map _ |>.symm
    _ ≤ (List.range UInt32.size).length := (nodup_map_index distinct).length_le_of_subset inside
    _ = UInt32.size := List.length_range

namespace Prototype

variable {prototype : Prototype} {pool : Pool} {revision : Revision} {symbol : Symbol}

theorem exists_draft_of_symbol (done : prototype.symbol pool revision = .ok symbol) :
    ∃ draft, prototype.params.foldlM (pool.encodeParam revision) ∅ = .ok draft ∧
      symbol.tokens = draft.tokens.toList := by
  unfold Prototype.symbol at done
  split at done
  · cases done
  · cases run : prototype.params.foldlM (pool.encodeParam revision) ∅ with
    | error failure =>
      rw [run] at done
      cases done
    | ok draft =>
      rw [run] at done
      obtain rfl := Except.ok.inj done
      exact ⟨draft, rfl, rfl⟩

/-- The number of a back-reference has 32 bits, since it counts distinct handles, and the symbol has
for it what filling the cells writes. -/
theorem exists_word_of_again {place : Nat} (done : prototype.symbol pool revision = .ok symbol)
    (member : .again place ∈ symbol.tokens) :
    ∃ number : UInt32, number.toNat = place ∧
      ∀ before, (Numeral.appendBase36? (before ++ "S") number).map (· ++ "_") =
        some (before ++ (Token.again place).text) := by
  obtain ⟨draft, run, written⟩ := exists_draft_of_symbol done
  obtain ⟨stops, last, walk, _, tokens, _⟩ := Pool.walk_of_params run
  rw [written, tokens] at member
  obtain ⟨id, given⟩ := walk.getElem?_of_again member
  have small : place < UInt32.size :=
    calc place < last.length := (List.getElem?_eq_some_iff.mp given).1
      _ ≤ UInt32.size := TypeId.length_le_of_nodup (walk.nodup List.nodup_nil)
  have word : (UInt32.ofNat place).toNat = place := UInt32.toNat_ofNat_of_lt small
  refine ⟨UInt32.ofNat place, word, fun before => ?_⟩
  rw [Numeral.appendBase36?_eq, word, Option.map_some, Token.text]
  simp only [String.append_assoc]

end Prototype
end SpirSymbol
