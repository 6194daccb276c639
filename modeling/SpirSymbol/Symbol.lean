import SpirSymbol.Prototype
import SpirSymbol.Symbol.Encoding

/-! Symbols: the linker names of prototypes. A symbol is the lead, the counted function name and
the tokens of the parameters, which share one set of numbers. -/
namespace SpirSymbol

/-- A mangled prototype. -/
structure Symbol where
  name : String
  tokens : List Token
deriving DecidableEq

/-- Why a revision has no symbol for a prototype. -/
inductive Rejection where
  | nullPrototype
  /-- The first parameter with something that the revision lacks, as diagnostics spell it. -/
  | unsupported (type : String) (revision : Revision)
deriving DecidableEq

/-- The diagnostic that takes the place of the symbol. -/
def Rejection.message : Rejection → String
  | nullPrototype => Prototype.nullText
  | unsupported type revision =>
    "Type " ++ type ++ " is not supported in " ++ revision.label

/-- Why there is no symbol. -/
inductive Failure where
  | rejected (rejection : Rejection)
  | interrupted (cause : Interruption)
deriving DecidableEq

/-- What every symbol starts with. -/
def Symbol.lead : String := "_Z"

def Symbol.text (symbol : Symbol) : String :=
  lead ++ Token.counted symbol.name ++ String.join (symbol.tokens.map Token.text)

/-- What an obstacle in a parameter makes of the prototype. A parameter with something that the
revision lacks is reported by its spelling, and spelling it may be interrupted in turn. -/
def Pool.failure (pool : Pool) (revision : Revision) (param : TypeId) : Obstacle → Failure
  | .interrupted cause => .interrupted cause
  | .unsupported =>
    match pool.readable param with
    | .ok type => .rejected (.unsupported type revision)
    | .error cause => .interrupted cause

/-- The draft after one parameter. -/
def Pool.encodeParam (pool : Pool) (revision : Revision) (draft : Draft) (param : TypeId) :
    Except Failure Draft :=
  (pool.encode revision draft param).mapError (pool.failure revision param)

namespace Prototype

/-- The symbol of a prototype. The null prototype is rejected before any type is looked at. -/
def symbol (prototype : Prototype) (pool : Pool) (revision : Revision) : Except Failure Symbol :=
  if prototype.isNull then .error (.rejected .nullPrototype)
  else (prototype.params.foldlM (pool.encodeParam revision) ∅).map fun draft =>
    ⟨prototype.name, draft.tokens.toList⟩

/-- The text of the symbol of a prototype. -/
def mangle (prototype : Prototype) (pool : Pool) (revision : Revision) : Except Failure String :=
  (prototype.symbol pool revision).map Symbol.text

end Prototype

section

variable {pool : Pool} {revision : Revision} {draft result : Draft} {param : TypeId}
  {prototype : Prototype} {failure : Failure}

theorem Pool.encodeParam_of_ok (run : pool.encode revision draft param = .ok result) :
    pool.encodeParam revision draft param = .ok result := by
  rw [encodeParam, run]
  rfl

theorem Pool.encodeParam_of_error {obstacle : Obstacle}
    (run : pool.encode revision draft param = .error obstacle) :
    pool.encodeParam revision draft param = .error (pool.failure revision param obstacle) := by
  rw [encodeParam, run]
  rfl

theorem Pool.encodeParam_eq_ok_iff :
    pool.encodeParam revision draft param = .ok result ↔
      pool.encode revision draft param = .ok result := by
  cases run : pool.encode revision draft param with
  | ok next => simp [encodeParam_of_ok run]
  | error obstacle => simp [encodeParam_of_error run]

theorem Pool.encodeParam_eq_error_iff :
    pool.encodeParam revision draft param = .error failure ↔
      ∃ obstacle, pool.encode revision draft param = .error obstacle ∧
        pool.failure revision param obstacle = failure := by
  cases run : pool.encode revision draft param with
  | ok next => simp [encodeParam_of_ok run]
  | error obstacle => simp [encodeParam_of_error run]

/-- A prototype with a name has the symbol that its parameters give it. -/
theorem Prototype.mangle_eq_map (named : prototype.isNull = false) :
    prototype.mangle pool revision =
      (prototype.params.foldlM (pool.encodeParam revision) ∅).map fun draft =>
        Symbol.text ⟨prototype.name, draft.tokens.toList⟩ := by
  cases run : prototype.params.foldlM (pool.encodeParam revision) ∅ <;>
    simp [mangle, symbol, named, run, Except.map]

theorem Prototype.mangle_eq_error_iff (named : prototype.isNull = false) :
    prototype.mangle pool revision = .error failure ↔
      prototype.params.foldlM (pool.encodeParam revision) ∅ = .error failure := by
  rw [mangle_eq_map named]
  cases prototype.params.foldlM (pool.encodeParam revision) ∅ <;> simp [Except.map]

theorem Prototype.mangle_eq_ok_iff {text : String} :
    prototype.mangle pool revision = .ok text ↔
      prototype.isNull = false ∧
        ∃ draft, prototype.params.foldlM (pool.encodeParam revision) ∅ = .ok draft ∧
          Symbol.text ⟨prototype.name, draft.tokens.toList⟩ = text := by
  cases named : prototype.isNull with
  | true => simp [mangle, symbol, named, Except.map]
  | false =>
    rw [mangle_eq_map named]
    cases prototype.params.foldlM (pool.encodeParam revision) ∅ <;> simp [Except.map]

end
end SpirSymbol
