import SpirSymbol.Datum
import SpirSymbol.Prototype
import SpirSymbol.Qualifiers.Text

/-! Storage forms: what each type of the library is stored as and read back from. Reading checks
the shape of the data and the width of numbers, never the contracts of a pool. -/
namespace SpirSymbol

/-- A type with a storage form. -/
class Stored (α : Type) where
  store : α → Datum
  load? : Datum → Option α

/-- A member of a vocabulary is stored by its name. A record of that name and nothing is read
as well. -/
instance (priority := low) {α : Type} [Named α] : Stored α where
  store item := .text (Named.name item)
  load?
    | .text name => Named.ofName? name
    | .record [(name, .null)] => Named.ofName? name
    | _ => none

instance {α : Type} [Stored α] : Stored (List α) where
  store items := .list (items.map Stored.store)
  load? datum := datum.list? >>= fun items => items.mapM Stored.load?

instance : Stored String where
  store := .text
  load? := Datum.text?

instance : Stored UInt8 where
  store value := .whole value.toNat
  load? datum := (datum.wholeBelow? UInt8.size).map UInt8.ofNat

instance : Stored TypeId where
  store id := .whole id.index
  load? datum := (datum.wholeBelow? UInt32.size).map fun index => ⟨UInt32.ofNat index⟩

instance : Stored Qualifiers where
  store qualifiers := .text qualifiers.toText
  load? datum := datum.text? >>= Qualifiers.ofText?

namespace Node

/-- The contents of a node, without its kind. -/
def storeContents : Node → Datum
  | primitive kind => Stored.store kind
  | pointer pointee space qualifiers =>
    .record [("pointee", Stored.store pointee), ("address_space", Stored.store space),
      ("qualifiers", Stored.store qualifiers)]
  | vector element length =>
    .record [("element", Stored.store element), ("length", Stored.store length)]
  | atomic base => .record [("base", Stored.store base)]
  | block params => .record [("params", Stored.store params)]
  | user name => .record [("name", Stored.store name)]

/-- Reads the contents of a node of that kind. -/
def loadContents? (kind : Kind) (contents : Datum) : Option Node :=
  match kind with
  | .primitive => primitive <$> Stored.load? contents
  | .pointer => do
    let [pointee, space, qualifiers] ←
      contents.fields? ["pointee", "address_space", "qualifiers"] | none
    return pointer (← Stored.load? pointee) (← Stored.load? space) (← Stored.load? qualifiers)
  | .vector => do
    let [element, length] ← contents.fields? ["element", "length"] | none
    return vector (← Stored.load? element) (← Stored.load? length)
  | .atomic => do
    let [base] ← contents.fields? ["base"] | none
    return atomic (← Stored.load? base)
  | .block => do
    let [params] ← contents.fields? ["params"] | none
    return block (← Stored.load? params)
  | .user => do
    let [name] ← contents.fields? ["name"] | none
    return user (← Stored.load? name)

/-- A node is stored as a record of its kind alone. -/
instance : Stored Node where
  store node := .record [(Named.name node.kind, node.storeContents)]
  load?
    | .record [(name, contents)] => do
      let kind ← Named.ofName? name
      loadContents? kind contents
    | _ => none

end Node

instance : Stored Prototype where
  store prototype :=
    .record [("name", Stored.store prototype.name), ("params", Stored.store prototype.params)]
  load? datum := do
    let [name, params] ← datum.columns? ["name", "params"] | none
    return ⟨← Stored.load? name, ← Stored.load? params⟩

instance : Stored Pool where
  store pool := .record [("types", Stored.store pool.nodes.toList)]
  load? datum := do
    let [nodes] ← datum.columns? ["types"] | none
    let nodes ← (Stored.load? nodes : Option (List Node))
    return ⟨nodes.toArray⟩

end SpirSymbol
