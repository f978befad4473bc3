import CubeScript.Text.Range

/-!
# Tokens

A token is a piece of a text with the kind of thing it is. What a keyword means is up to the
dialect a script is written in; all other tokens mean what their kind says.
-/

namespace CubeScript

/-- The kinds of tokens: a keyword, a run of digits, a run of other word characters, any
other single character, or the end of the text. -/
inductive Token.Kind where
  | keyword
  | number
  | word
  | special
  | eof
  deriving DecidableEq, Repr, Inhabited

/-- A token, its text, and where it stands. -/
structure Token where
  kind : Token.Kind
  text : String
  range : Range
  deriving DecidableEq, Repr, Inhabited

namespace Token

/-- The name of a kind. -/
def Kind.name : Kind → String
  | .keyword => "keyword"
  | .number => "number"
  | .word => "word"
  | .special => "special"
  | .eof => "eof"

/-- The token at the end of a text of `stop` bytes. -/
def atEnd (stop : Nat) : Token := ⟨.eof, "", ⟨stop, stop⟩⟩

/-- Whether a token is the end of the text. -/
def isEnd (t : Token) : Bool := t.kind = .eof

/-- The value of a run of decimal digits. -/
def decimal (digits : List Char) : Nat :=
  digits.foldl (fun value c => 10 * value + (c.toNat - '0'.toNat)) 0

/-- The value of a number token, if it has at most 32 binary digits. -/
def number? (t : Token) : Option Nat :=
  if t.kind = .number then
    let value := decimal t.text.toList
    if value < 0x100000000 then some value else none
  else none

end Token

end CubeScript
