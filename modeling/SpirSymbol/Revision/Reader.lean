import SpirSymbol.Revision
import SpirSymbol.Text.Blank

namespace SpirSymbol

/-- A text that names no revision, kept as it was given. -/
structure UnknownRevision where
  text : String
deriving DecidableEq

def UnknownRevision.message (unknown : UnknownRevision) : String :=
  "unknown SPIR version `" ++ unknown.text ++ "`, expected `1.2` or `2.0`"

namespace Revision

/-- What is left for the number: a leading label and the blanks after it are dropped. -/
def dropLabel : List Char → List Char
  | 'S' :: 'P' :: 'I' :: 'R' :: rest => Text.trimStart rest
  | text => text

/-- Accepts a number or a label, padded with blanks at both ends. -/
def parse (text : String) : Except UnknownRevision Revision :=
  let number := dropLabel (Text.trim text.toList)
  match (Named.all : List Revision).find? (fun revision => revision.number.toList = number) with
  | some revision => .ok revision
  | none => .error ⟨text⟩

end Revision
end SpirSymbol
