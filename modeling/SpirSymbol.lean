import SpirSymbol.Datum.Storage
import SpirSymbol.Pool.Likeness
import SpirSymbol.Revision.Reader
import SpirSymbol.Symbol
import SpirSymbol.Proofs.Encoding
import SpirSymbol.Proofs.Readable
import SpirSymbol.Proofs.Walk
import SpirSymbol.Proofs.Prototype
import SpirSymbol.Proofs.Substitution
import SpirSymbol.Proofs.Gating
import SpirSymbol.Proofs.Expansion
import SpirSymbol.Proofs.Numeral
import SpirSymbol.Proofs.Reading
import SpirSymbol.Proofs.Identity
import SpirSymbol.Proofs.Succession
import SpirSymbol.Proofs.Likeness
import SpirSymbol.Proofs.Construction
import SpirSymbol.Proofs.Ending
import SpirSymbol.Proofs.Renaming
import SpirSymbol.Proofs.Respelling
import SpirSymbol.Proofs.Qualifiers
import SpirSymbol.Proofs.Storage
import SpirSymbol.Proofs.Nesting
import SpirSymbol.Proofs.Interruption
import SpirSymbol.Proofs.Unfolding
import SpirSymbol.Proofs.Canonical
import SpirSymbol.Proofs.Legibility
import SpirSymbol.Proofs.Concatenation
import SpirSymbol.Proofs.Padding
import SpirSymbol.Proofs.RevisionGrammar
import SpirSymbol.Proofs.QualifierGrammar
import SpirSymbol.Proofs.CanonicalNumeral
