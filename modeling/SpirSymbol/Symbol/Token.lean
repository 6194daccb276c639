import SpirSymbol.Node
import SpirSymbol.Text.Numeral

namespace SpirSymbol

/-- One part of the parameter list of a symbol. -/
inductive Token where
  | primitive (kind : Primitive)
  /-- Opens a pointer; the tokens of the pointee follow. -/
  | pointer (space : AddressSpace) (qualifiers : Qualifiers)
  /-- Opens a vector; the tokens of the element follow. -/
  | vector (length : UInt8)
  /-- Opens an atomic type; the tokens of its base follow. -/
  | atomic
  /-- Opens the parameter list of a block. -/
  | blockStart
  | blockEnd
  | user (name : String)
  /-- Stands for the pointer or user type that was given this number. -/
  | again (number : Nat)
deriving DecidableEq

namespace Token

/-- A text after its length in bytes. -/
def counted (name : String) : String := Numeral.decimal name.utf8ByteSize ++ name

def text : Token → String
  | primitive kind => kind.code
  | pointer space qualifiers => "P" ++ qualifiers.code ++ space.code
  | vector length => "Dv" ++ Numeral.decimal length.toNat ++ "_"
  | atomic => "U7_Atomic"
  | blockStart => "U13block_pointerFv"
  | blockEnd => "E"
  | user name => counted name
  | again number => "S" ++ Numeral.base36 number ++ "_"

end Token

namespace Node

/-- What is written before the children of a node. A block without parameters is written as if
it had one of type `void`. -/
def opening : Node → List Token
  | primitive kind => [.primitive kind]
  | pointer _ space qualifiers => [.pointer space qualifiers]
  | vector _ length => [.vector length]
  | atomic _ => [.atomic]
  | block [] => [.blockStart, .primitive .void]
  | block _ => [.blockStart]
  | user name => [.user name]

/-- What is written after the children of a node. -/
def closing : Node → List Token
  | block _ => [.blockEnd]
  | _ => []

end Node
end SpirSymbol
