namespace SpirSymbol

/-- A stored value. The names in a record are distinct; a number that is negative or written
with a point or an exponent is never whole. -/
inductive Datum where
  | null
  | bool (value : Bool)
  | whole (value : Nat)
  | number (literal : String)
  | text (value : String)
  | list (items : List Datum)
  | record (fields : List (String × Datum))

namespace Datum

def text? : Datum → Option String
  | text value => some value
  | _ => none

def list? : Datum → Option (List Datum)
  | list items => some items
  | _ => none

def record? : Datum → Option (List (String × Datum))
  | record fields => some fields
  | _ => none

/-- A whole number below a limit. -/
def wholeBelow? (limit : Nat) : Datum → Option Nat
  | whole value => if value < limit then some value else none
  | _ => none

/-- The values of these fields, in this order; other fields are ignored. -/
def fields? (names : List String) (datum : Datum) : Option (List Datum) :=
  datum.record? >>= fun fields => names.mapM (fields.lookup ·)

/-- A structure is a record, or a list of exactly its fields in their order. -/
def columns? (names : List String) : Datum → Option (List Datum)
  | list items => if items.length = names.length then some items else none
  | datum => datum.fields? names

end Datum
end SpirSymbol
