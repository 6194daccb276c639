import SpirSymbol.Revision

namespace SpirSymbol

inductive AddressSpace where
  | privateMemory
  | globalMemory
  | constantMemory
  | localMemory
  /-- Any of the named regions; there is no such space before revision 2.0. -/
  | genericMemory
deriving DecidableEq

namespace AddressSpace

/-- A pointer without an address space points into private memory. -/
instance : Inhabited AddressSpace := ⟨.privateMemory⟩

instance : Named AddressSpace where
  all := [.privateMemory, .globalMemory, .constantMemory, .localMemory, .genericMemory]
  name
    | .privateMemory => "Private"
    | .globalMemory => "Global"
    | .constantMemory => "Constant"
    | .localMemory => "Local"
    | .genericMemory => "Generic"
  find_name item := by cases item <;> decide +kernel

instance : Dated AddressSpace where
  since
    | .genericMemory => .v2_0
    | _ => .v1_2

/-- The vendor qualifier written in symbols; private memory has none. -/
def code : AddressSpace → String
  | .privateMemory => ""
  | .globalMemory => "U3AS1"
  | .constantMemory => "U3AS2"
  | .localMemory => "U3AS3"
  | .genericMemory => "U3AS4"

/-- The keyword used in diagnostics. -/
def readable : AddressSpace → String
  | .privateMemory => "__private"
  | .globalMemory => "__global"
  | .constantMemory => "__constant"
  | .localMemory => "__local"
  | .genericMemory => "__generic"

end AddressSpace
end SpirSymbol
