import CubeScript.Reading.Compound

/-!
# Reading what follows a statement

A statement goes on as long as the tokens behind it take it as an operand: an operator
or a count, a delimiter with a second operand, or brackets around one. Each turns the statement
into a larger one that begins at the same place. The first token that does none of this is left to
whoever reads on.
-/

namespace CubeScript

namespace Reader

open Diagnostic

/-- What a token behind a statement makes of it. -/
inductive Behind where
  /-- It is undone or reflected. -/
  | wrap (w : Wrapper)
  /-- It is repeated as often as the token says. -/
  | count
  /-- It is repeated as often as the next token says. -/
  | countNext
  /-- It is the first operand of one of the candidates, whose second operand is between brackets. -/
  | bracket (candidates : List Construct)
  /-- It is the first operand of one of the candidates, and the second one follows. -/
  | delimiter (candidates : List Construct)
  deriving DecidableEq, Repr

/-- The constructs with two operands that a token may be the opening bracket of, between them. -/
def openedBehind (r : Reader) (t : Token) : List Construct :=
  Construct.binaries.filter fun c =>
    has (r.dialect.symbolsOf t) c.begin? && r.dialect.accepts c .aroundSecond

/-- The constructs with two operands that a token may be the delimiter of, without brackets. -/
def delimitedBehind (r : Reader) (t : Token) : List Construct :=
  Construct.binaries.filter fun c =>
    has (r.dialect.symbolsOf t) c.delimiter? &&
      (r.dialect.accepts c .betweenLeft || r.dialect.accepts c .betweenRight)

/-- Whether a token between a count and a statement makes the count belong to that statement. -/
def countsNext (r : Reader) (t : Token) : Bool :=
  (r.dialect.symbolsOf t).contains .repetitionOperator &&
    r.dialect.accepts .repetition .betweenLeft

/-- What a token makes of the statement before it, with a given token behind it, if anything. A
count that belongs to the next statement makes nothing of this one. -/
def behind? (r : Reader) (t next : Token) : Option Behind :=
  let symbols := r.dialect.symbolsOf t
  if symbols.contains .inversionOperator && r.dialect.accepts .inversion .after then
    some (.wrap .inversion)
  else if symbols.contains .reflectionOperator && r.dialect.accepts .reflection .after then
    some (.wrap .reflection)
  else if t.kind = .number && r.dialect.accepts .repetition .after then
    if r.countsNext next then none else some .count
  else if symbols.contains .repetitionOperator &&
      r.dialect.accepts .repetition .betweenRight then
    some .countNext
  else if !(r.openedBehind t).isEmpty then some (.bracket (r.openedBehind t))
  else if !(r.delimitedBehind t).isEmpty then some (.delimiter (r.delimitedBehind t))
  else none

/-- Read the count behind an operator. -/
def readCountBehind (scope : Scope) (context : Context) (ts : List Token) :
    Reading (Nat × Token) ts :=
  match ts with
  | [] =>
    .error { unexpected (.atEnd scope.textEnd) context with advice := some .giveCount }
  | t :: ts =>
    if t.kind ≠ .number then .error { unexpected t context with advice := some .giveCount }
    else do return ((← repeatCount t, t), (Suffix.all ts).ofTail)

/-- Read the second operand of a statement and the bracket that closes it. -/
def readBracketBehind (r : Reader) (nested : Nested) (scope : Scope) (candidates : List Construct)
    (first : Statement) (opening : Token) (ts : List Token) : Reading Statement ts := do
  let context := Context.ofCandidates candidates
  let (second, rest) ← r.readSequence nested scope context (closings candidates) ts
  match rest with
  | ⟨[], _⟩ => .error (r.unclosed scope candidates opening)
  | ⟨t :: _, h⟩ =>
    let candidates := candidates.filter fun c => has (r.dialect.symbolsOf t) c.end?
    let construct ← oneLeft candidates context t ⟨opening.range.start, t.range.stop⟩
    return (.paired construct.pairing [first] second ⟨first.range.start, t.range.stop⟩,
      Suffix.tail h)

/-- Read the second operand of a statement behind a delimiter. -/
def readDelimiterBehind (nested : Nested) (scope : Scope) (candidates : List Construct)
    (first : Statement) (delimiter : Token) (ts : List Token) : Reading Statement ts := do
  let range : Range := ⟨first.range.start, delimiter.range.stop⟩
  match candidates with
  | [construct] =>
    let (second, rest) ← readOperand nested scope delimiter.range ts
    return (.paired construct.pairing [first] [second] (range.cover second.range), rest)
  | candidates => .error (ambiguous candidates range)

/-- Read what a token makes of the statement before it. -/
def extendBy (r : Reader) (nested : Nested) (scope : Scope) (context : Context)
    (statement : Statement) (t : Token) (ts : List Token) : Behind → Reading Statement ts
  | .wrap w => .ok (.wrapped w [statement] ⟨statement.range.start, t.range.stop⟩, .all ts)
  | .count => do
    let count ← repeatCount t
    return (.wrapped (.repetition count) [statement] ⟨statement.range.start, t.range.stop⟩, .all ts)
  | .countNext => do
    let ((count, number), rest) ← readCountBehind scope context ts
    let range : Range := ⟨statement.range.start, number.range.stop⟩
    return (.wrapped (.repetition count) [statement] range, rest)
  | .bracket candidates => r.readBracketBehind nested scope candidates statement t ts
  | .delimiter candidates => readDelimiterBehind nested scope candidates statement t ts

/-- Go on reading as long as a step applies. A step is given what has been read and the next token,
and may read on from there. -/
def readWhile {α : Type} (step : α → (t : Token) → (ts : List Token) → Option (Reading α ts))
    (a : α) (ts : List Token) : Reading α ts :=
  match ts with
  | [] => .ok (a, .all [])
  | t :: ts =>
    match step a t ts with
    | none => .ok (a, .all (t :: ts))
    | some reading => do
      let (b, rest) ← reading
      let (c, later) ← readWhile step b rest.1
      return (c, (rest.trans later).ofTail)
termination_by ts.length
decreasing_by exact Nat.lt_succ_of_le rest.2.length_le

/-- Read what the next token makes of the statement before it, if anything. -/
def extend? (r : Reader) (nested : Nested) (scope : Scope) (context : Context)
    (statement : Statement) (t : Token) (ts : List Token) : Option (Reading Statement ts) :=
  (r.behind? t (scope.peek ts)).map (r.extendBy nested scope context statement t ts)

/-- Read everything behind a statement that takes it as an operand. -/
def readBehind (r : Reader) (nested : Nested) (scope : Scope) (context : Context)
    (statement : Statement) (ts : List Token) : Reading Statement ts :=
  readWhile (r.extend? nested scope context) statement ts

end Reader

end CubeScript
