import CubeScript.Proofs.Reading.Completeness

/-!
# The reader of the standard dialect

Readers go through a text from left to right and decide at every token what to read next. On the
standard dialect nothing is lost by that: a text is read exactly if its tokens have a derivation,
unless statements are nested more deeply than the reader allows. A text of no more tokens than that
cannot be.
-/

namespace CubeScript

open Lexeme (mark)

namespace Reader

/-- The reader of the standard dialect, with its limits. -/
def standard (size : Size) (depth nesting : Nat) : Reader where
  dialect := (Lexicon.standard size).dialect
  maxShorthandDepth := depth
  maxNesting := nesting

variable {size : Size} {depth nesting : Nat} {text : String}

theorem isStandard_standard (size : Size) (depth nesting : Nat) :
    (standard size depth nesting).dialect.IsStandard size :=
  Dialect.isStandard_standard size

end Reader

end CubeScript
