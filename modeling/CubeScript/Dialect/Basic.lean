import CubeScript.Dialect.SymbolSet
import CubeScript.Text.Lexer
import CubeScript.Turn

/-!
# Dialects

A dialect says how scripts are written: what each token means, where the tokens of each construct
stand, which texts the shorthands abbreviate, and what is skipped between tokens. It is given by
its answers to these questions, so that reading a script does not depend on how the answers are
kept.
-/

namespace CubeScript

/-- The characters that are skipped unless a dialect says otherwise. -/
def Dialect.defaultBlanks : List Char := [' ', '\t', '\n', '\r', '\x0b', '\x0c', '\u00a0']

/-- How scripts for cubes of some number of layers are written. -/
structure Dialect where
  layers : Nat
  /-- Everything a token may mean. -/
  symbols : String → SymbolSet
  /-- Whether a construct may be written with a placement. -/
  allows : Symbol → Placement → Bool
  /-- Whether a symbol can be written at all. -/
  supports : Symbol → Bool
  /-- The text that a shorthand abbreviates. -/
  expansion? : String → Option String
  /-- The turn that a token means. -/
  turn? : String → Option Turn
  /-- Every token that means something. -/
  keywords : List String
  /-- A token that has a given meaning, for advice. -/
  tokenFor? : Symbol → Option String := fun _ => none
  /-- The characters that are skipped. -/
  blanks : List Char := Dialect.defaultBlanks
  /-- What starts a comment that goes to the end of the line. -/
  lineComment : Option String := none
  /-- What starts and ends a comment of any length. -/
  blockComment : Option (String × String) := none

namespace Dialect

/-- The lexer for texts in a dialect. -/
def lexer (d : Dialect) : Lexer where
  keywords := .ofList d.keywords
  blanks := d.blanks
  lineComment := d.lineComment.map String.toList
  blockComment := d.blockComment.map fun (start, stop) => (start.toList, stop.toList)

/-- Everything a token of a text means. Only keywords mean anything. -/
def symbolsOf (d : Dialect) (t : Token) : SymbolSet :=
  if t.kind = .keyword then d.symbols t.text else .empty

/-- Whether a construct can be written with a placement. -/
def accepts (d : Dialect) (c : Construct) (p : Placement) : Bool :=
  d.supports (.construct c) && d.allows (.construct c) p

end Dialect

end CubeScript
