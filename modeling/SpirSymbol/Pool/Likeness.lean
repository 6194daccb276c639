import SpirSymbol.Pool

namespace SpirSymbol.Pool

/-- Whether two lists of one length match place by place. The first pair that does not match
ends the comparison. -/
def alikeEach {ε : Type} (alike : TypeId → TypeId → Except ε Bool) :
    List TypeId → List TypeId → Except ε Bool
  | left :: lefts, right :: rights =>
    match alike left right with
    | .ok true => alikeEach alike lefts rights
    | other => other
  | _, _ => .ok true

/-- Likeness of two types, going down at most `depth` pairs of nodes. Equal handles are alike
without being looked up, and of two handles the left one is looked up first. -/
def alikeWithin (pool : Pool) : Nat → TypeId → TypeId → Except Interruption Bool
  | 0, _, _ => .error .endless
  | depth + 1, left, right =>
    if left = right then .ok true
    else match pool.node left with
      | .error fault => .error (.fault fault)
      | .ok node =>
        match pool.node right with
        | .error fault => .error (.fault fault)
        | .ok other =>
          if node.shape = other.shape then
            alikeEach (pool.alikeWithin depth) node.children other.children
          else .ok false

/-- Likeness of two types. A way down through more pairs than the pool has meets one pair twice
and never ends, so the number of pairs bounds the depth. -/
def alike (pool : Pool) (left right : TypeId) : Except Interruption Bool :=
  pool.alikeWithin (pool.size * pool.size + 1) left right

end SpirSymbol.Pool
