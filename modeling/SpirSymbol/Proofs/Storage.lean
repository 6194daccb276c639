import SpirSymbol.Datum.Storage
import SpirSymbol.Proofs.Qualifiers

namespace SpirSymbol

/-- No record in the datum has two fields of one name. -/
inductive Datum.Proper : Datum → Prop where
  | null : Proper .null
  | bool (value : Bool) : Proper (.bool value)
  | whole (value : Nat) : Proper (.whole value)
  | number (literal : String) : Proper (.number literal)
  | text (value : String) : Proper (.text value)
  | list {items : List Datum} (each : ∀ item ∈ items, Proper item) : Proper (.list items)
  | record {fields : List (String × Datum)} (distinct : (fields.map Prod.fst).Nodup)
      (each : ∀ field ∈ fields, Proper field.2) : Proper (.record fields)

theorem Datum.wholeBelow?_of_lt {limit value : Nat} (small : value < limit) :
    (whole value).wholeBelow? limit = some value := if_pos small

/-- A type whose members are read back from their stored forms, which are proper. -/
class Persistent (α : Type) [Stored α] : Prop where
  load?_store : ∀ item : α, Stored.load? (Stored.store item) = some item
  proper_store : ∀ item : α, (Stored.store item).Proper

namespace Persistent

attribute [simp] load?_store proper_store

instance (priority := low) {α : Type} [Named α] : Persistent α where
  load?_store := Named.ofName?_name
  proper_store _ := .text _

instance {α : Type} [Stored α] [Persistent α] : Persistent (List α) where
  load?_store items := by
    have each : (items.map Stored.store).mapM Stored.load? = some items := by
      rw [mapM_map_eq_some fun item _ => load?_store item, List.map_id']
    exact each
  proper_store items := by
    refine .list fun datum member => ?_
    obtain ⟨item, _, rfl⟩ := List.mem_map.mp member
    exact proper_store item

instance : Persistent String where
  load?_store _ := rfl
  proper_store := .text

instance : Persistent UInt8 where
  load?_store value := by
    simp [Stored.load?, Stored.store, Datum.wholeBelow?_of_lt value.toNat_lt_size]
  proper_store _ := .whole _

instance : Persistent TypeId where
  load?_store id := by
    simp [Stored.load?, Stored.store, TypeId.index, Datum.wholeBelow?_of_lt id.raw.toNat_lt_size]
  proper_store _ := .whole _

instance : Persistent Qualifiers where
  load?_store := Qualifiers.ofText?_toText
  proper_store _ := .text _

end Persistent

namespace Node

theorem loadContents?_storeContents (node : Node) :
    loadContents? node.kind node.storeContents = some node := by
  cases node <;>
    simp [loadContents?, kind, storeContents, Datum.fields?, Datum.record?, List.lookup_cons]

theorem proper_storeContents (node : Node) : node.storeContents.Proper := by
  cases node with
  | primitive kind => exact Persistent.proper_store kind
  | _ => exact .record (by simp) (by simp)

end Node

namespace Persistent

instance : Persistent Node where
  load?_store node := by
    simp [Stored.load?, Stored.store, Named.ofName?_name, node.loadContents?_storeContents]
  proper_store node := .record (by simp) (by simp [node.proper_storeContents])

instance : Persistent Prototype where
  load?_store prototype := by
    have columns : (Stored.store prototype).columns? ["name", "params"] =
        some [Stored.store prototype.name, Stored.store prototype.params] := rfl
    refine (congrArg (· >>= _) columns).trans ?_
    simp
  proper_store prototype := .record (by simp) (by simp)

instance : Persistent Pool where
  load?_store pool := by
    have columns : (Stored.store pool).columns? ["types"] =
        some [Stored.store pool.nodes.toList] := rfl
    refine (congrArg (· >>= _) columns).trans ?_
    simp
  proper_store pool := .record (by simp) (by simp)

end Persistent

namespace Stored

/-- The form in which what a datum stands for is stored. -/
def canonical? (α : Type) [Stored α] (datum : Datum) : Option Datum :=
  (load? datum : Option α).map store

/-- What is read from a datum is stored in a proper form, which stands for the same and is stored
as itself. -/
def Normalizes (α : Type) [Stored α] : Prop :=
  ∀ datum form, canonical? α datum = some form →
    form.Proper ∧ (load? form : Option α) = load? datum ∧ canonical? α form = some form

theorem normalizes_of_persistent (α : Type) [Stored α] [Persistent α] : Normalizes α := by
  intro datum form stored
  obtain ⟨item, read, rfl⟩ := Option.map_eq_some_iff.mp stored
  have again := Persistent.load?_store item
  exact ⟨Persistent.proper_store item, again.trans read.symm, by rw [canonical?, again]; rfl⟩

/-- Pools and prototypes are read back as they were stored, and every form that is read as a pool,
a prototype, a node or a qualifier set settles. -/
theorem persistence :
    (∀ pool : Pool, load? (store pool) = some pool) ∧
      (∀ prototype : Prototype, load? (store prototype) = some prototype) ∧
      Normalizes Pool ∧ Normalizes Prototype ∧ Normalizes Node ∧ Normalizes Qualifiers :=
  ⟨Persistent.load?_store, Persistent.load?_store, normalizes_of_persistent _,
    normalizes_of_persistent _, normalizes_of_persistent _, normalizes_of_persistent _⟩

/-- A pool in the form of a list, where members of vocabularies are records, a field has no meaning
and the qualifiers stand in another order, twice, and with a sign. -/
theorem persistence_list :
    ∃ datum, ∃ pool : Pool,
      datum = .list [.list [
        .record [("Pointer", .record [("note", .null), ("qualifiers", .text " CONST |0x+0F8|CONST"),
          ("address_space", .record [("Global", .null)]), ("pointee", .whole 4294967295)])],
        .record [("Primitive", .record [("Int", .null)])]]] ∧
      load? datum = some pool ∧
      pool = ⟨#[.pointer ⟨4294967295⟩ .globalMemory ⟨252⟩, .primitive .int]⟩ ∧
      (store pool).Proper ∧ load? (store pool) = some pool ∧
      canonical? Pool (store pool) = some (store pool) := by
  let pool : Pool := ⟨#[.pointer ⟨4294967295⟩ .globalMemory ⟨252⟩, .primitive .int]⟩
  let datum : Datum := .list [.list [
    .record [("Pointer", .record [("note", .null), ("qualifiers", .text " CONST |0x+0F8|CONST"),
      ("address_space", .record [("Global", .null)]), ("pointee", .whole 4294967295)])],
    .record [("Primitive", .record [("Int", .null)])]]]
  have read : load? datum = some pool := by decide +kernel
  have stored : canonical? Pool datum = some (store pool) := by rw [canonical?, read]; rfl
  obtain ⟨proper, same, settled⟩ := persistence.2.2.1 datum (store pool) stored
  exact ⟨datum, pool, rfl, read, rfl, proper, same.trans read, settled⟩

end Stored
end SpirSymbol
