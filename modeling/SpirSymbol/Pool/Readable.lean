import SpirSymbol.Pool

namespace SpirSymbol

/-- What is written before a pointee: each qualifier and the address space, with a space after
each word. -/
def Node.pointerWords (space : AddressSpace) (qualifiers : Qualifiers) : String :=
  String.join ((qualifiers.readable ++ [space.readable]).map (· ++ " "))

/-- The spelling of a node around the spelling of its children. A block without parameters is
spelled as if it had one of type `void`. -/
def Node.spell (children : String) : Node → String
  | primitive kind => kind.readable
  | pointer _ space qualifiers => pointerWords space qualifiers ++ children ++ " *"
  | vector _ length => children ++ Numeral.decimal length.toNat
  | atomic _ => "atomic_" ++ children
  | block [] => "void (" ++ Primitive.void.readable ++ ")*"
  | block _ => "void (" ++ children ++ ")*"
  | user name => name

namespace Pool

/-- The spelling of a type, going down at most `depth` nodes. -/
def readableWithin (pool : Pool) : Nat → TypeId → Except Interruption String
  | 0, _ => .error .endless
  | depth + 1, id =>
    match pool.node id with
    | .error fault => .error (.fault fault)
    | .ok node => do
      let children ← node.children.mapM (pool.readableWithin depth)
      return node.spell (", ".intercalate children)

/-- The spelling of a type. A way down from a node to nodes below it that is longer than the
pool meets one node twice and never ends, so the size of the pool bounds the depth. -/
def readable (pool : Pool) (id : TypeId) : Except Interruption String :=
  pool.readableWithin (pool.size + 1) id

end Pool
end SpirSymbol
