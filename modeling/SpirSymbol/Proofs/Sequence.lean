import Mathlib.Control.Monad.Basic
import Mathlib.Data.List.Forall2

namespace SpirSymbol

variable {α β γ δ ε κ : Type}

theorem foldlM_cons_eq_ok {step : β → α → Except ε β} {item : α} {rest : List α} {start last : β} :
    (item :: rest).foldlM step start = .ok last ↔
      ∃ next, step start item = .ok next ∧ rest.foldlM step next = .ok last := by
  rw [List.foldlM_cons]
  cases step start item <;> simp [bind, Except.bind]

/-- A fold that fails has taken some steps before the one that fails. -/
theorem exists_of_foldlM_eq_error {step : β → α → Except ε β} {items : List α} {start : β}
    {cause : ε} (failed : items.foldlM step start = .error cause) :
    ∃ before item after next, items = before ++ item :: after ∧
      before.foldlM step start = .ok next ∧ step next item = .error cause := by
  induction items generalizing start with
  | nil => cases failed
  | cons item rest ih =>
    rw [List.foldlM_cons] at failed
    cases first : step start item with
    | error other =>
      rw [first] at failed
      cases failed
      exact ⟨[], item, rest, start, rfl, rfl, first⟩
    | ok next =>
      rw [first] at failed
      obtain ⟨before, failing, after, reached, same, taken, stopped⟩ := ih failed
      refine ⟨item :: before, failing, after, reached, by rw [same]; rfl, ?_, stopped⟩
      exact foldlM_cons_eq_ok.mpr ⟨next, first, taken⟩

/-- Steps that copy every success copy a sequence that succeeds. -/
theorem foldlM_eq_ok_of_imp {step other : β → α → Except ε β} {items : List α} {start last : β}
    (copies : ∀ state item next, step state item = .ok next → other state item = .ok next)
    (run : items.foldlM step start = .ok last) : items.foldlM other start = .ok last := by
  induction items generalizing start with
  | nil => exact run
  | cons item rest ih =>
    obtain ⟨next, first, later⟩ := foldlM_cons_eq_ok.mp run
    exact foldlM_cons_eq_ok.mpr ⟨next, copies start item next first, ih later⟩

theorem foldlM_eq_error_of_split {step : β → α → Except ε β} {before after : List α} {item : α}
    {start : β} {cause : ε}
    (stopped : before.foldlM step start = .error cause ∨
      ∃ next, before.foldlM step start = .ok next ∧ step next item = .error cause) :
    (before ++ item :: after).foldlM step start = .error cause := by
  rw [List.foldlM_append]
  rcases stopped with failed | ⟨next, taken, failed⟩
  · rw [failed]
    rfl
  · rw [taken]
    simp only [bind, Except.bind, List.foldlM_cons, failed]

theorem mapM_cons_eq_ok {step : α → Except ε β} {item : α} {rest : List α} {results : List β} :
    (item :: rest).mapM step = .ok results ↔
      ∃ first others, step item = .ok first ∧ rest.mapM step = .ok others ∧
        results = first :: others := by
  rw [List.mapM_cons]
  cases step item with
  | error cause => simp [bind, Except.bind]
  | ok first =>
    cases rest.mapM step <;> simp [bind, Except.bind, pure, Except.pure, eq_comm]

theorem exists_of_mapM_eq_error {step : α → Except ε β} {items : List α} {cause : ε}
    (failed : items.mapM step = .error cause) :
    ∃ before item after results, items = before ++ item :: after ∧
      before.mapM step = .ok results ∧ step item = .error cause := by
  induction items with
  | nil => cases failed
  | cons item rest ih =>
    rw [List.mapM_cons] at failed
    cases first : step item with
    | error other =>
      rw [first] at failed
      cases failed
      exact ⟨[], item, rest, [], rfl, rfl, first⟩
    | ok result =>
      cases others : rest.mapM step with
      | ok results =>
        rw [first, others] at failed
        cases failed
      | error other =>
        rw [first, others] at failed
        cases failed
        obtain ⟨before, failing, after, results, same, taken, stopped⟩ := ih others
        refine ⟨item :: before, failing, after, result :: results, by rw [same]; rfl, ?_, stopped⟩
        exact mapM_cons_eq_ok.mpr ⟨result, results, first, taken, rfl⟩

theorem exists_of_mapM_eq_ok {step : α → Except ε β} {items : List α} {results : List β}
    (taken : items.mapM step = .ok results) : ∀ item ∈ items, ∃ result, step item = .ok result := by
  induction items generalizing results with
  | nil => simp
  | cons item rest ih =>
    obtain ⟨first, others, found, later, rfl⟩ := mapM_cons_eq_ok.mp taken
    intro other member
    rcases List.mem_cons.mp member with rfl | listed
    · exact ⟨first, found⟩
    · exact ih later other listed

theorem exists_mapM_eq_ok {step : α → Except ε β} {items : List α}
    (each : ∀ item ∈ items, ∃ result, step item = .ok result) :
    ∃ results, items.mapM step = .ok results := by
  cases run : items.mapM step with
  | ok results => exact ⟨results, rfl⟩
  | error cause =>
    obtain ⟨before, item, after, _, split, _, failed⟩ := exists_of_mapM_eq_error run
    obtain ⟨result, taken⟩ := each item (by simp [split])
    rw [failed] at taken
    cases taken

/-- Steps that agree wherever the first ones do not give up agree on a list that does not. -/
theorem mapM_eq_of_ne {step other : α → Except ε β} {items : List α} {gaveUp : ε}
    (agree : ∀ item, step item ≠ .error gaveUp → other item = step item)
    (ended : items.mapM step ≠ .error gaveUp) : items.mapM other = items.mapM step := by
  induction items with
  | nil => rfl
  | cons item rest ih =>
    simp only [List.mapM_cons] at ended ⊢
    cases first : step item with
    | error cause =>
      have known : other item = .error cause := by
        rw [agree item fun same => ended (by rw [same]; rfl), first]
      rw [known]
      rfl
    | ok result =>
      rw [first] at ended
      rw [agree item (by simp [first]), first, ih]
      intro stopped
      rw [stopped] at ended
      exact ended rfl

theorem mapM_congr_left {step other : α → Except ε β} {items : List α}
    (same : ∀ item ∈ items, step item = other item) : items.mapM step = items.mapM other := by
  induction items with
  | nil => rfl
  | cons item rest ih =>
    rw [List.mapM_cons, List.mapM_cons, same item (by simp),
      ih fun later member => same later (by simp [member])]

theorem mapM_eq_error_of_split {step : α → Except ε β} {before after : List α} {item : α}
    {results : List β} {cause : ε} (taken : before.mapM step = .ok results)
    (stopped : step item = .error cause) :
    (before ++ item :: after).mapM step = .error cause := by
  rw [List.mapM_append, List.mapM_cons, taken, stopped]
  rfl

/-- How failures are reported does not matter to a sequence that succeeds. -/
theorem mapM_mapError_eq_ok {step : α → Except ε β} {report : α → ε → κ} {items : List α}
    {results : List β} (taken : items.mapM step = .ok results) :
    items.mapM (fun item => (step item).mapError (report item)) = .ok results := by
  induction items generalizing results with
  | nil =>
    cases taken
    rfl
  | cons item rest ih =>
    obtain ⟨first, others, found, later, rfl⟩ := mapM_cons_eq_ok.mp taken
    refine mapM_cons_eq_ok.mpr ⟨first, others, ?_, ih later, rfl⟩
    rw [found]
    rfl

/-- What is written item by item is read item by item. -/
theorem mapM_map_eq_some {write : α → β} {read : β → Option γ} {meaning : α → γ} {items : List α}
    (each : ∀ item ∈ items, read (write item) = some (meaning item)) :
    (items.map write).mapM read = some (items.map meaning) := by
  induction items with
  | nil => rfl
  | cons item rest ih =>
    have first := each item List.mem_cons_self
    have later := ih fun other member => each other (List.mem_cons_of_mem _ member)
    rw [List.map_cons, List.mapM_cons, first, later]
    rfl

theorem exists_of_forall₂_left {linked : α → δ → Prop} {items : List α} {items' : List δ} {item : α}
    (each : List.Forall₂ linked items items') (member : item ∈ items) :
    ∃ item' ∈ items', linked item item' := by
  induction each with
  | nil => cases member
  | cons head _ ih =>
    rcases List.mem_cons.mp member with rfl | later
    · exact ⟨_, List.mem_cons_self, head⟩
    · obtain ⟨item', listed, link⟩ := ih later
      exact ⟨item', List.mem_cons_of_mem _ listed, link⟩

theorem exists_of_forall₂_right {linked : α → δ → Prop} {items : List α} {items' : List δ}
    {item' : δ} (each : List.Forall₂ linked items items') (member : item' ∈ items') :
    ∃ item ∈ items, linked item item' :=
  exists_of_forall₂_left each.flip member

theorem exists_forall₂ {linked : α → δ → Prop} {items : List α}
    (each : ∀ item ∈ items, ∃ item', linked item item') :
    ∃ items', List.Forall₂ linked items items' := by
  induction items with
  | nil => exact ⟨[], .nil⟩
  | cons item rest ih =>
    obtain ⟨item', head⟩ := each item List.mem_cons_self
    obtain ⟨rest', tail⟩ := ih fun other member => each other (List.mem_cons_of_mem _ member)
    exact ⟨item' :: rest', .cons head tail⟩

/-- A list is read exactly where each of its items is, place by place. -/
theorem mapM_eq_some_iff {read : α → Option β} {items : List α} {results : List β} :
    items.mapM read = some results ↔
      List.Forall₂ (fun item result => read item = some result) items results := by
  induction items generalizing results with
  | nil => simp [eq_comm]
  | cons item rest ih =>
    rw [List.mapM_cons, List.forall₂_cons_left_iff]
    simp only [Option.bind_eq_bind, Option.bind_eq_some_iff, Option.pure_def, Option.some.injEq, ih]
    constructor
    · rintro ⟨first, head, others, tail, rfl⟩
      exact ⟨first, others, head, tail, rfl⟩
    · rintro ⟨first, others, head, tail, rfl⟩
      exact ⟨first, head, others, tail, rfl⟩

/-- Two steps fail for one cause, or succeed with results that are related. -/
inductive Agrees (related : β → γ → Prop) : Except ε β → Except ε γ → Prop where
  | ok {result : β} {result' : γ} (linked : related result result') :
    Agrees related (.ok result) (.ok result')
  | error (cause : ε) : Agrees related (.error cause) (.error cause)

namespace Agrees

variable {related : β → γ → Prop} {linked : α → δ → Prop} {left : Except ε β} {right : Except ε γ}

theorem eq_error_iff {cause : ε} (agrees : Agrees related left right) :
    left = .error cause ↔ right = .error cause := by
  cases agrees <;> simp

theorem symm {finer : γ → β → Prop} (agrees : Agrees related left right)
    (turned : ∀ result result', related result result' → finer result' result) :
    Agrees finer right left := by
  cases agrees with
  | ok linked => exact .ok (turned _ _ linked)
  | error cause => exact .error cause

theorem map {α' δ' : Type} {finer : α' → δ' → Prop} {view : β → α'} {view' : γ → δ'}
    (agrees : Agrees related left right)
    (views : ∀ result result', related result result' → finer (view result) (view' result')) :
    Agrees finer (left.map view) (right.map view') := by
  cases agrees with
  | ok linked => exact .ok (views _ _ linked)
  | error cause => exact .error cause

theorem mapError (agrees : Agrees related left right) (report : ε → κ) :
    Agrees related (left.mapError report) (right.mapError report) := by
  cases agrees with
  | ok linked => exact .ok linked
  | error cause => exact .error (report cause)

theorem of_eq {left right : Except ε β} (same : left = right) : Agrees Eq left right := by
  subst same
  cases left with
  | ok result => exact .ok rfl
  | error cause => exact .error cause

theorem eq {left right : Except ε β} (agrees : Agrees Eq left right) : left = right := by
  cases agrees with
  | ok same => rw [same]
  | error cause => rfl

theorem bind {α' δ' : Type} {finer : α' → δ' → Prop} {next : β → Except ε α'}
    {next' : γ → Except ε δ'} (agrees : Agrees related left right)
    (later : ∀ result result', related result result' →
      Agrees finer (next result) (next' result')) :
    Agrees finer (left >>= next) (right >>= next') := by
  cases agrees with
  | ok linked => exact later _ _ linked
  | error cause => exact .error cause

theorem foldlM {items : List α} {items' : List δ} {step : β → α → Except ε β}
    {step' : γ → δ → Except ε γ} {start : β} {start' : γ}
    (each : List.Forall₂ linked items items')
    (steps : ∀ state state' item item', related state state' → linked item item' →
      Agrees related (step state item) (step' state' item'))
    (first : related start start') :
    Agrees related (items.foldlM step start) (items'.foldlM step' start') := by
  induction each generalizing start start' with
  | nil => exact .ok first
  | @cons item item' _ _ head _ ih =>
    rw [List.foldlM_cons, List.foldlM_cons]
    exact (steps start start' item item' first head).bind fun _ _ next => ih next

/-- Steps that agree one by one wherever the first ones do not give up agree as sequences that do
not. -/
theorem foldlM_of_ne {items : List α} {items' : List δ} {step : β → α → Except ε β}
    {step' : γ → δ → Except ε γ} {start : β} {start' : γ} {gaveUp : ε}
    (each : List.Forall₂ linked items items')
    (steps : ∀ state state' item item', related state state' → linked item item' →
      step state item ≠ .error gaveUp → Agrees related (step state item) (step' state' item'))
    (first : related start start') (ended : items.foldlM step start ≠ .error gaveUp) :
    Agrees related (items.foldlM step start) (items'.foldlM step' start') := by
  induction each generalizing start start' with
  | nil => exact .ok first
  | @cons item item' _ _ head _ ih =>
    rw [List.foldlM_cons] at ended
    rw [List.foldlM_cons, List.foldlM_cons]
    have here : Agrees related (step start item) (step' start' item') := by
      refine steps start start' item item' first head fun stopped => ended ?_
      rw [stopped]
      rfl
    cases taken : step start item with
    | error cause =>
      rw [here.eq_error_iff.mp taken]
      exact .error cause
    | ok next =>
      rw [taken] at here ended
      generalize step' start' item' = reached at here ⊢
      cases here with
      | ok link => exact ih link ended

/-- Two walks that settle agree where they have settled, if what either of them ends with at some
depth the other agrees with at another. -/
theorem of_ended {walk : Nat → Except ε β} {walk' : Nat → Except ε γ} {enough enough' : Nat}
    {gaveUp : ε}
    (forth : ∀ depth, walk depth ≠ .error gaveUp →
      ∃ deeper, Agrees related (walk depth) (walk' deeper))
    (back : ∀ depth, walk' depth ≠ .error gaveUp →
      ∃ deeper, Agrees related (walk deeper) (walk' depth))
    (settled : ∀ depth, walk depth ≠ .error gaveUp → walk enough = walk depth)
    (settled' : ∀ depth, walk' depth ≠ .error gaveUp → walk' enough' = walk' depth) :
    Agrees related (walk enough) (walk' enough') := by
  by_cases ended : walk enough = .error gaveUp
  · by_cases ended' : walk' enough' = .error gaveUp
    · rw [ended, ended']
      exact .error gaveUp
    · obtain ⟨deeper, agrees⟩ := back enough' ended'
      rw [settled deeper fun stopped => ended' (agrees.eq_error_iff.mp stopped)]
      exact agrees
  · obtain ⟨deeper, agrees⟩ := forth enough ended
    rw [settled' deeper fun stopped => ended (agrees.eq_error_iff.mpr stopped)]
    exact agrees

/-- Two walks that agree at every depth agree at depths from which on they change no more. -/
theorem of_deep {walk : Nat → Except ε β} {walk' : Nat → Except ε γ} {enough enough' : Nat}
    {gaveUp : ε} (each : ∀ depth, Agrees related (walk depth) (walk' depth))
    (settled : ∀ depth, walk depth ≠ .error gaveUp → walk enough = walk depth)
    (settled' : ∀ depth, walk' depth ≠ .error gaveUp → walk' enough' = walk' depth) :
    Agrees related (walk enough) (walk' enough') :=
  of_ended (fun depth _ => ⟨depth, each depth⟩) (fun depth _ => ⟨depth, each depth⟩) settled settled'

end Agrees

/-- Where a walk does not give up at some depth, greater depths change nothing. -/
def Settling (gaveUp : ε) (walk : Nat → Except ε β) : Prop :=
  ∀ depth deeper, depth ≤ deeper → walk depth ≠ .error gaveUp → walk deeper = walk depth

namespace Settling

variable {gaveUp : ε} {walk : Nat → Except ε β} {first second : Nat}

/-- Depths at which a walk does not give up give one result. -/
theorem unique (settling : Settling gaveUp walk) (ended : walk first ≠ .error gaveUp)
    (ended' : walk second ≠ .error gaveUp) : walk first = walk second := by
  rcases Nat.le_total first second with order | order
  · exact (settling first second order ended).symm
  · exact settling second first order ended'

theorem foldlM {step : Nat → β → α → Except ε β}
    (each : ∀ state item, Settling gaveUp fun depth => step depth state item) (items : List α)
    (start : β) : Settling gaveUp fun depth => items.foldlM (step depth) start := by
  intro depth deeper order ended
  have same : List.Forall₂ Eq items items := List.forall₂_refl items
  refine (Agrees.foldlM_of_ne same ?_ rfl ended).eq.symm
  rintro state _ item _ rfl rfl ended
  exact .of_eq (each state item depth deeper order ended).symm

theorem mapM {step : Nat → α → Except ε β}
    (each : ∀ item, Settling gaveUp fun depth => step depth item) (items : List α) :
    Settling gaveUp fun depth => items.mapM (step depth) := by
  intro depth deeper order ended
  exact mapM_eq_of_ne (fun item => each item depth deeper order) ended

end Settling

theorem mapM_eq_of_forall₂ {linked : α → δ → Prop} {items : List α} {items' : List δ}
    {step : α → Except ε β} {step' : δ → Except ε β} (each : List.Forall₂ linked items items')
    (same : ∀ item item', linked item item' → step item = step' item') :
    items.mapM step = items'.mapM step' := by
  induction each with
  | nil => rfl
  | cons head _ ih => rw [List.mapM_cons, List.mapM_cons, same _ _ head, ih]

end SpirSymbol
