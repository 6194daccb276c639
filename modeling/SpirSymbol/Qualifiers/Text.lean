import SpirSymbol.Qualifiers
import SpirSymbol.Text.Blank
import SpirSymbol.Text.Numeral
import SpirSymbol.Text.Pieces

/-! The text form of a qualifier set: pieces between bars, each a flag name or a hexadecimal
number of up to eight bits. Writing gives the names of the known bits and then one number for
the unknown ones; reading takes pieces in any order, repeated, and padded with blanks. -/
namespace SpirSymbol

/-- The name of the qualifier's bit in the text form. -/
def Qualifier.flagName : Qualifier → String
  | .restrict => "RESTRICT"
  | .volatile => "VOLATILE"
  | .const => "CONST"

namespace Qualifiers

/-- The written pieces: known names in order, then the unknown bits if there are any. -/
def writtenPieces (qualifiers : Qualifiers) : List String :=
  qualifiers.toList.map Qualifier.flagName ++
    if qualifiers.unknown.isEmpty then []
    else ["0x" ++ Numeral.lowerHex qualifiers.unknown.bits.toNat]

def toText (qualifiers : Qualifiers) : String := " | ".intercalate qualifiers.writtenPieces

/-- A hexadecimal number below 256, after at most one plus sign. -/
def readBits? (digits : List Char) : Option Qualifiers := do
  let digits := match digits with
    | '+' :: rest => rest
    | digits => digits
  let number ← Numeral.readHex? digits
  if number < 256 then some ⟨UInt8.ofNat number⟩ else none

/-- One trimmed piece: a number after `0x`, or else a flag name. -/
def readPiece? : List Char → Option Qualifiers
  | '0' :: 'x' :: digits => readBits? digits
  | name => (Qualifier.all.find? fun member => member.flagName.toList = name).map Qualifier.flag

/-- A blank text is the empty set; otherwise every piece has to be readable. -/
def ofText? (text : String) : Option Qualifiers :=
  if text.toList.all Text.isBlank then some ∅
  else do
    let sets ← (Text.pieces '|' text.toList).mapM fun piece => readPiece? (Text.trim piece)
    some (sets.foldl union ∅)

/-- The set as diagnostics of the set itself show it. -/
def describe (qualifiers : Qualifiers) : String :=
  if qualifiers.isEmpty then "Qualifiers(0x0)" else "Qualifiers(" ++ qualifiers.toText ++ ")"

end Qualifiers
end SpirSymbol
