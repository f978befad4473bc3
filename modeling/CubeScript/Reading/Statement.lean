import CubeScript.Reading.Behind
import CubeScript.Reading.Cycle

/-!
# Reading statements

The first token of a statement tells how the statement may begin. Often there is one way, but a
bracket may open a group or a cycle, and a letter may be a turn or a face. The ways are tried in
a fixed order and the first that succeeds is taken. If none does, the attempt that got furthest
says what is wrong.

`Reader.readStatement` ties the knot: a statement that may contain `levels + 1` levels of
statements reads the ones inside it with `levels`, and with none left there is an error. This also
bounds shorthands that contain themselves, whose texts never end.
-/

namespace CubeScript

/-- A way in which a statement may begin. -/
inductive Start where
  | turn
  | nop
  | shorthand
  | compound (candidates : List Construct)
  | cycle
  | signedCycle
  | inversion
  | reflection
  | repetition
  deriving DecidableEq, Repr

namespace Dialect

/-- The constructs that a token may be the opening bracket of, at the beginning of a statement. -/
def opened (d : Dialect) (t : Token) : List Construct :=
  Construct.compounds.filter fun c =>
    Reader.has (d.symbolsOf t) c.begin? &&
      (d.accepts c .around || (c.isBinary && d.accepts c .aroundFirst))

/-- The ways in which a statement that begins with a token may begin, in the order in which they
are tried. -/
def starts (d : Dialect) (t : Token) : List Start :=
  if t.kind = .number then
    if d.accepts .repetition .before || d.accepts .repetition .betweenLeft then [.repetition]
    else []
  else
    let symbols := d.symbolsOf t
    (if symbols.contains .move && (d.turn? t.text).isSome then [.turn] else []) ++
    (if symbols.contains .nop then [.nop] else []) ++
    (if symbols.contains .shorthand then [.shorthand] else []) ++
    (if (d.opened t).isEmpty then [] else [.compound (d.opened t)]) ++
    (if symbols.contains .permutationBegin && d.supports (.construct .permutation) then [.cycle]
      else []) ++
    (if symbols.sign?.isSome && d.accepts .permutation .before then [.signedCycle] else []) ++
    (if symbols.contains .inversionOperator && d.accepts .inversion .before then [.inversion]
      else []) ++
    (if symbols.contains .reflectionOperator && d.accepts .reflection .before then [.reflection]
      else [])

end Dialect

namespace Reader

open Diagnostic

/-- Read a shorthand that has been read as a token: look up its text and read that. -/
def readShorthand (r : Reader) (nested : Nested) (scope : Scope) (context : Context) (t : Token)
    (ts : List Token) : Reading Statement ts :=
  match r.dialect.expansion? t.text with
  | none => .error (unexpected t context)
  | some text =>
    if r.maxShorthandDepth ≤ scope.depth then
      .error { problem := .shorthandTooDeep t.text r.maxShorthandDepth, range := t.range }
    else
      let inside : Scope := ⟨text.utf8ByteSize, scope.depth + 1⟩
      match r.readSequence nested inside .shorthand .empty (r.lexer.tokens text) with
      | .error cause =>
        .error { problem := .shorthandBody t.text, range := t.range, cause := some cause }
      | .ok (body, _) => .ok (.wrapped (.shorthand t.text) body t.range, .all ts)

/-- Read a cycle behind its sign. -/
def readSignedCycle (r : Reader) (scope : Scope) (t : Token) (ts : List Token) :
    Reading Statement ts :=
  let sign := ((r.dialect.symbolsOf t).sign?.getD .none, t.range)
  match ts with
  | [] => .error (unexpected (.atEnd scope.textEnd) .permutation)
  | next :: ts =>
    if (r.dialect.symbolsOf next).contains .permutationBegin then do
      let (statement, rest) ← r.readCycle scope (some sign) next ts
      return (statement, rest.ofTail)
    else .error (unexpected next .permutation)

/-- Read the statement that an operator before it wraps. -/
def readWrapped (nested : Nested) (scope : Scope) (w : Wrapper) (operator : Range)
    (ts : List Token) : Reading Statement ts := do
  let (operand, rest) ← readOperand nested scope operator ts
  return (.wrapped w [operand] (operator.cover operand.range), rest)

/-- Read the statement that a count before it repeats, behind the count. There may have to be an
operator in between. -/
def readRepeated (r : Reader) (nested : Nested) (scope : Scope) (count : Nat) (range : Range)
    (ts : List Token) : Reading Statement ts :=
  let repetition := Wrapper.repetition count
  let missingOperator : Diagnostic :=
    { unexpected (scope.peek ts) .operand with advice := some (r.adviceFor .repetitionOperator) }
  match ts with
  | [] =>
    if r.dialect.accepts .repetition .before then readWrapped nested scope repetition range []
    else .error missingOperator
  | t :: ts =>
    if r.countsNext t then do
      let (statement, rest) ← readWrapped nested scope repetition range ts
      return (statement, rest.ofTail)
    else if r.dialect.accepts .repetition .before then
      readWrapped nested scope repetition range (t :: ts)
    else .error missingOperator

/-- Read the beginning of a statement in one of the ways in which it may begin. -/
def readStart (r : Reader) (nested : Nested) (scope : Scope) (context : Context) (t : Token)
    (ts : List Token) : Start → Reading Statement ts
  | .turn =>
    match r.dialect.turn? t.text with
    | some turn => .ok (.atom (.turn turn) t.range, .all ts)
    | none => .error (unexpected t context)
  | .nop => .ok (.atom .nop t.range, .all ts)
  | .shorthand => r.readShorthand nested scope context t ts
  | .compound candidates => r.readCompound nested scope candidates t ts
  | .cycle => r.readCycle scope none t ts
  | .signedCycle => r.readSignedCycle scope t ts
  | .inversion => readWrapped nested scope .inversion t.range ts
  | .reflection => readWrapped nested scope .reflection t.range ts
  | .repetition => do r.readRepeated nested scope (← repeatCount t) t.range ts

/-- The first of some attempts that succeeds. If all fail, the one that got furthest tells what is
wrong, and the earliest of those that got equally far. -/
def firstSuccess {α β : Type} (attempt : α → Except Diagnostic β) (a : α) :
    List α → Except Diagnostic β
  | [] => attempt a
  | b :: rest =>
    match attempt a with
    | .ok result => .ok result
    | .error d => (firstSuccess attempt b rest).mapError d.furthest

/-- What is wrong with a token that no statement begins with. -/
def noStart (t : Token) (context : Context) : Diagnostic :=
  { unexpected t context with
    advice := if t.kind = .word then some (.unknownWord t.text) else none }

/-- Read the beginning of a statement in any of the ways in which it may begin. -/
def readBeginning (r : Reader) (nested : Nested) (scope : Scope) (context : Context) (t : Token)
    (ts : List Token) : Reading Statement ts :=
  match r.dialect.starts t with
  | [] => .error (noStart t context)
  | start :: starts => firstSuccess (r.readStart nested scope context t ts) start starts

/-- Read a statement in which statements may be nested up to a number of levels, itself
included. -/
def readStatement (r : Reader) : (levels : Nat) → Nested
  | 0, _, _, t, _ => .error { problem := .nestedTooDeeply r.maxNesting, range := t.range }
  | levels + 1, scope, context, t, ts => do
    let nested := r.readStatement levels
    let (beginning, rest) ← r.readBeginning nested scope context t ts
    let (statement, later) ← r.readBehind nested scope context beginning rest.1
    return (statement, rest.trans later)

/-- Read the statements of a text. -/
def readStatements (r : Reader) (text : String) : Except Diagnostic (List Statement) := do
  let scope : Scope := ⟨text.utf8ByteSize, 0⟩
  let (statements, _) ←
    r.readSequence (r.readStatement r.maxNesting) scope .script .empty (r.lexer.tokens text)
  return statements

/-- Read a script. -/
def read (r : Reader) (text : String) : Except Diagnostic Script := do
  return .ofStatements (← r.readStatements text) text.utf8ByteSize r.dialect.layers

end Reader

end CubeScript
