import SpirSymbol.Pool.Readable

namespace SpirSymbol

/-- A prototype. One handle may stand for several parameters; without a name the prototype is
the null one, which stands for no function. -/
structure Prototype where
  name : String
  params : List TypeId
deriving DecidableEq

namespace Prototype

/-- The text that stands for the null prototype. -/
def nullText : String := "<invalid>"

/-- No function at all. -/
def null : Prototype := ⟨"", []⟩

def isNull (prototype : Prototype) : Bool := prototype.name.isEmpty

/-- The prototype with one parameter more. -/
def push (prototype : Prototype) (param : TypeId) : Prototype :=
  { prototype with params := prototype.params ++ [param] }

/-- The prototype as diagnostics spell it. -/
def display (prototype : Prototype) (pool : Pool) : Except Interruption String :=
  if prototype.isNull then .ok nullText
  else do
    let params ← prototype.params.mapM pool.readable
    return prototype.name ++ "(" ++ ", ".intercalate params ++ ")"

end Prototype
end SpirSymbol
