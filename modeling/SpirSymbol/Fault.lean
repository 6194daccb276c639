import SpirSymbol.Text.Numeral

namespace SpirSymbol

/-- A broken contract of a pool or of something that looks into one. -/
inductive Fault where
  /-- A handle was looked up in a pool of that size and is not one of its handles. -/
  | outOfRange (size index : Nat)
  | vectorLength (length : UInt8)
  | vectorElement
  | atomicBase
  | poolFull
  /-- A number was about to be given to a handle that has one. -/
  | numberedTwice
deriving DecidableEq

def Fault.message : Fault → String
  | outOfRange size index =>
    "index out of bounds: the len is " ++ Numeral.decimal size ++ " but the index is " ++
      Numeral.decimal index
  | vectorLength length => "invalid vector length " ++ Numeral.decimal length.toNat
  | vectorElement => "vector element must be a scalar primitive"
  | atomicBase => "atomic base must be a primitive or pointer"
  | poolFull => "type pool overflow"
  | numberedTwice => "substitution already exists"

/-- Why a walk over a type gives no result: a broken contract, or a type that contains itself
where the walk never ends. -/
inductive Interruption where
  | fault (cause : Fault)
  | endless
deriving DecidableEq

end SpirSymbol
