import CubeScript.Diagnostic.Basic
import CubeScript.Dialect.Basic
import CubeScript.Script.Statement

/-!
# Reading statements: sequences and operands

A text is read as a list of tokens. Each reading function takes the tokens that are left, and gives
what it has read with the tokens left after it, which are a suffix of those before. Nothing
has to be undone when an attempt fails: the next one starts from the same list.

Statements contain statements. The functions here take the one that reads a statement as
an argument, `Nested`, and are tied together where the depth of the nesting is counted.
-/

namespace CubeScript

/-- What can be left of some tokens when reading has gone on. -/
abbrev Suffix (ts : List Token) := { rest : List Token // rest <:+ ts }

namespace Suffix

/-- Nothing has been read yet. -/
def all (ts : List Token) : Suffix ts := ⟨ts, List.suffix_refl ts⟩

/-- What is left of what is left. -/
def ofTail {ts : List Token} {t : Token} (rest : Suffix ts) : Suffix (t :: ts) :=
  ⟨rest.1, rest.2.trans (List.suffix_cons t ts)⟩

/-- A suffix without its first token. -/
def tail {ts : List Token} {t : Token} {rest : List Token} (h : t :: rest <:+ ts) : Suffix ts :=
  ⟨rest, (List.suffix_cons t rest).trans h⟩

/-- What is left of a suffix is left of the whole. -/
def trans {ts : List Token} (rest : Suffix ts) (later : Suffix rest.1) : Suffix ts :=
  ⟨later.1, later.2.trans rest.2⟩

end Suffix

/-- What is read from some tokens: a value and the tokens behind it, or what is wrong. -/
abbrev Reading (α : Type) (ts : List Token) := Except Diagnostic (α × Suffix ts)

/-- The text that is being read, as far as it matters to its tokens. -/
structure Scope where
  /-- The length of the text. -/
  textEnd : Nat
  /-- The number of shorthands whose texts are being read around it. -/
  depth : Nat
  deriving DecidableEq, Repr

/-- A way to read a statement that begins with a given token. -/
abbrev Nested := Scope → Diagnostic.Context → (first : Token) → (rest : List Token) →
  Reading Statement rest

/-- What has been fixed before a text is read: how it is written, how it is split into tokens, and
how deeply shorthands and statements may be nested. -/
structure Reader where
  dialect : Dialect
  lexer : Lexer := dialect.lexer
  maxShorthandDepth : Nat := 32
  maxNesting : Nat := 64

namespace Scope

/-- The next token, which is the end of the text if none is left. -/
def peek (scope : Scope) (ts : List Token) : Token := ts.headD (.atEnd scope.textEnd)

end Scope

namespace Diagnostic

/-- A token that cannot stand where it does. -/
def unexpected (t : Token) (context : Context) : Diagnostic where
  problem := .unexpected t.text context
  range := t.range

/-- What is being read between brackets that may be those of some constructs. -/
def Context.ofCandidates : List Construct → Context
  | [.grouping] => .grouping
  | [.commutation] => .commutation
  | [.conjugation] => .conjugation
  | [.rotation] => .rotation
  | _ => .compound

/-- Several constructs fit what stands in a range. -/
def ambiguous (candidates : List Construct) (range : Range) : Diagnostic where
  problem := .ambiguous candidates
  range := range

end Diagnostic

namespace Construct

/-- The pairing that a construct with two operands makes of them. -/
def pairing : Construct → Pairing
  | .commutation => .commutation
  | .conjugation => .conjugation
  | _ => .rotation

end Construct

namespace Reader

open Diagnostic

/-- Advice to write something that means a symbol. -/
def adviceFor (r : Reader) (s : Symbol) : Advice :=
  match r.dialect.tokenFor? s with
  | some token => .addToken token
  | none => .addMeaning s

/-- A bracket that is never closed. -/
def unclosed (r : Reader) (scope : Scope) (candidates : List Construct) (bracket : Token) :
    Diagnostic where
  problem := .unclosed bracket.text candidates
  range := ⟨bracket.range.start, scope.textEnd⟩
  notes := [⟨"opened here", bracket.range⟩]
  advice := (candidates.head?.bind Construct.end?).map r.adviceFor

/-- The count that a number token gives. -/
def repeatCount (t : Token) : Except Diagnostic Nat :=
  match t.number? with
  | some count => .ok count
  | none => .error { problem := .countOutOfRange, range := t.range }

/-- Read statements up to the end of the text or a token that means one of the symbols in `stop`. -/
def readSequence (r : Reader) (nested : Nested) (scope : Scope) (context : Context)
    (stop : SymbolSet) (ts : List Token) : Reading (List Statement) ts :=
  match ts with
  | [] => .ok ([], .all [])
  | t :: ts =>
    if (r.dialect.symbolsOf t).intersects stop then .ok ([], .all (t :: ts))
    else do
      let (statement, rest) ← nested scope context t ts
      let (statements, later) ← readSequence r nested scope context stop rest.1
      return (statement :: statements, (rest.trans later).ofTail)
termination_by ts.length
decreasing_by exact Nat.lt_succ_of_le rest.2.length_le

/-- Read the statement behind an operator. -/
def readOperand (nested : Nested) (scope : Scope) (operator : Range) :
    (ts : List Token) → Reading Statement ts
  | [] => .error { problem := .missingOperand, range := ⟨operator.start, scope.textEnd⟩ }
  | t :: ts => do
    let (statement, rest) ← nested scope .operand t ts
    return (statement, rest.ofTail)

end Reader

end CubeScript
