import SpirSymbol.Named

namespace SpirSymbol

/-- A target revision. Revision 2.0 adds atomics, blocks, pipes, device-side enqueue handles
and the generic address space. -/
inductive Revision where
  | v1_2
  | v2_0
deriving DecidableEq

namespace Revision

/-- The oldest revision is the default one. -/
instance : Inhabited Revision := ⟨.v1_2⟩

/-- The place in time, counted from the oldest revision. -/
def rank : Revision → Nat
  | .v1_2 => 0
  | .v2_0 => 1

instance : Ord Revision := ⟨fun left right => compare left.rank right.rank⟩

instance : LE Revision := ⟨fun left right => left.rank ≤ right.rank⟩

instance (left right : Revision) : Decidable (left ≤ right) :=
  inferInstanceAs (Decidable (left.rank ≤ right.rank))

instance : Named Revision where
  all := [.v1_2, .v2_0]
  name
    | .v1_2 => "V1_2"
    | .v2_0 => "V2_0"
  find_name item := by cases item <;> decide +kernel

/-- The bare number of the revision. -/
def number : Revision → String
  | .v1_2 => "1.2"
  | .v2_0 => "2.0"

/-- The wording of the revision in diagnostics. -/
def label (revision : Revision) : String := "SPIR " ++ revision.number

theorem le_refl (revision : Revision) : revision ≤ revision := Nat.le_refl _

theorem le_trans {first second third : Revision} (left : first ≤ second) (right : second ≤ third) :
    first ≤ third := Nat.le_trans left right

theorem v1_2_le (revision : Revision) : .v1_2 ≤ revision := Nat.zero_le _

theorem le_v2_0 (revision : Revision) : revision ≤ .v2_0 := by cases revision <;> decide

end Revision

/-- Something that a revision may lack. -/
class Dated (α : Type) where
  since : α → Revision

/-- A revision accepts what is at least as old as itself. -/
def Revision.supports {α : Type} [Dated α] (revision : Revision) (item : α) : Bool :=
  Dated.since item ≤ revision

theorem Revision.supports_mono {α : Type} [Dated α] {item : α} {earlier later : Revision}
    (order : earlier ≤ later) (accepted : earlier.supports item = true) :
    later.supports item = true := by
  simp only [Revision.supports, decide_eq_true_eq] at accepted ⊢
  exact Revision.le_trans accepted order

theorem Revision.supports_v2_0 {α : Type} [Dated α] (item : α) :
    Revision.v2_0.supports item = true := by
  simpa [Revision.supports] using Revision.le_v2_0 (Dated.since item)

end SpirSymbol
