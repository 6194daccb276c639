import SpirSymbol.Pool
import SpirSymbol.Symbol.Substitutions
import SpirSymbol.Symbol.Token

/-! Encoding: the tokens of a type for one revision. Pointers and user types are numbered when
they are first met, a pointer before its pointee, and are written by their number afterwards. -/
namespace SpirSymbol

/-- Why a type has no tokens: the revision lacks a part of it, or the walk was interrupted. -/
inductive Obstacle where
  | unsupported
  | interrupted (cause : Interruption)
deriving DecidableEq

/-- The tokens written so far, and the numbers that are in use after them. -/
structure Draft where
  tokens : Array Token
  numbers : Substitutions

namespace Draft

/-- Nothing is written and no number is in use. -/
instance : EmptyCollection Draft := ⟨⟨#[], ∅⟩⟩

@[simp]
theorem tokens_empty : (∅ : Draft).tokens = #[] := rfl

@[simp]
theorem numbers_empty : (∅ : Draft).numbers = ∅ := rfl

/-- Writes tokens at the end. -/
def write (draft : Draft) (tokens : List Token) : Draft :=
  ⟨draft.tokens ++ tokens, draft.numbers⟩

/-- The number of a node that was written before. -/
def numberOf? (draft : Draft) (node : Node) (id : TypeId) : Option Nat :=
  if node.isNumbered then draft.numbers.find? id else none

/-- Gives a number to a node on its first visit if nodes like it have one. -/
def visit (draft : Draft) (node : Node) (id : TypeId) : Except Fault Draft :=
  if node.isNumbered then (draft.numbers.register id).map (⟨draft.tokens, ·⟩) else .ok draft

end Draft

/-- The draft after a type, going down at most `depth` nodes. A node that has a number is written
without being judged or looked into again; all others are judged before their children. -/
def Pool.encodeWithin (pool : Pool) (revision : Revision) :
    Nat → Draft → TypeId → Except Obstacle Draft
  | 0, _, _ => .error (.interrupted .endless)
  | depth + 1, draft, id =>
    match pool.node id with
    | .error fault => .error (.interrupted (.fault fault))
    | .ok node =>
      match draft.numberOf? node id with
      | some number => .ok (draft.write [.again number])
      | none =>
        if revision.supports node then
          match (draft.write node.opening).visit node id with
          | .error fault => .error (.interrupted (.fault fault))
          | .ok opened =>
            (node.children.foldlM (pool.encodeWithin revision depth) opened).map
              (·.write node.closing)
        else .error .unsupported

/-- Enough depth for every walk that ends: a way down passes each pointer at most once, since
after that it has a number, and between two pointers no other node twice. -/
def Pool.encodingDepth (pool : Pool) : Nat := (pool.size + 1) * (pool.size + 1)

/-- The draft after a type. -/
def Pool.encode (pool : Pool) (revision : Revision) (draft : Draft) (id : TypeId) :
    Except Obstacle Draft :=
  pool.encodeWithin revision pool.encodingDepth draft id

namespace Draft

variable (draft : Draft)

theorem numberOf?_eq_some_iff {node : Node} {id : TypeId} {number : Nat} :
    draft.numberOf? node id = some number ↔
      node.isNumbered = true ∧ draft.numbers.find? id = some number := by
  cases numbered : node.isNumbered <;> simp [numberOf?, numbered]

theorem find?_eq_none_of_numberOf? {node : Node} {id : TypeId} (numbered : node.isNumbered = true)
    (new : draft.numberOf? node id = none) : draft.numbers.find? id = none := by
  simpa [numberOf?, numbered] using new

end Draft
end SpirSymbol
