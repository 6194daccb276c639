namespace SpirSymbol

/-- A finite vocabulary with one name for each member. Looking a member up by its name finds
that member, so no two members share a name and none is missing from the list. -/
class Named (α : Type) where
  all : List α
  name : α → String
  find_name : ∀ item, all.find? (fun other => name other == name item) = some item

/-- The member of that name; names are told apart by case. -/
def Named.ofName? {α : Type} [Named α] (name : String) : Option α :=
  (Named.all : List α).find? fun item => Named.name item == name

theorem Named.ofName?_name {α : Type} [Named α] (item : α) :
    Named.ofName? (Named.name item) = some item := Named.find_name item

theorem Named.name_ofName? {α : Type} [Named α] {name : String} {item : α}
    (found : Named.ofName? name = some item) : Named.name item = name := by
  simpa using List.find?_some found

end SpirSymbol
