import CubeScript.Reading.Basic

/-!
# Reading bracketed statements

A bracket may open several constructs. Which of them it is shows later, at the delimiter and at the
closing bracket: `A` between brackets, `A` and `B` between brackets with a delimiter, or `A` between
brackets and `B` behind them. The candidates are narrowed down on the way. A construct is only
taken if it is the last candidate left.
-/

namespace CubeScript

namespace Reader

open Diagnostic

/-- The symbols that may end the first operand between the brackets of some constructs: their
closing brackets, and the delimiters of those that have both operands between brackets. -/
def firstStops (r : Reader) (candidates : List Construct) : SymbolSet :=
  .ofList (candidates.flatMap fun c =>
    c.end?.toList ++ if r.dialect.accepts c .around then c.delimiter?.toList else [])

/-- The closing brackets of some constructs. -/
def closings (candidates : List Construct) : SymbolSet :=
  .ofList (candidates.filterMap Construct.end?)

/-- The closing brackets and the delimiters of all constructs that have brackets. -/
def allClosings : SymbolSet :=
  .ofList ((Construct.permutation :: Construct.compounds).flatMap fun c =>
    c.end?.toList ++ c.delimiter?.toList)

/-- Whether one of the symbols a construct may have is in a set. -/
def has (set : SymbolSet) (symbol : Option Symbol) : Bool := symbol.any set.contains

/-- The candidates whose operands the token between them may separate. -/
def delimitedBy (r : Reader) (t : Token) (candidates : List Construct) : List Construct :=
  candidates.filter fun c =>
    c.isBinary && r.dialect.accepts c .around && has (r.dialect.symbolsOf t) c.delimiter?

/-- The candidates that a bracket may close, after one operand or after two. -/
def closedBy (r : Reader) (t : Token) (hasSecond : Bool) (candidates : List Construct) :
    List Construct :=
  candidates.filter fun c =>
    has (r.dialect.symbolsOf t) c.end? &&
      (hasSecond || r.dialect.accepts c (if c.isBinary then .aroundFirst else .around))

/-- The one candidate that is left at a closing bracket. -/
def oneLeft (candidates : List Construct) (context : Context) (closing : Token) (range : Range) :
    Except Diagnostic Construct :=
  match candidates with
  | [construct] => .ok construct
  | [] => .error (unexpected closing context)
  | candidates => .error (ambiguous candidates range)

/-- Read the second operand of a construct whose brackets only enclose the first one. -/
def readSecond (r : Reader) (nested : Nested) (scope : Scope) (construct : Construct)
    (first : List Statement) (closed : Range) (ts : List Token) : Reading Statement ts :=
  let next := scope.peek ts
  let missing : Diagnostic :=
    { problem := .missingSecondOperand construct, range := ⟨closed.start, next.range.stop⟩ }
  match ts with
  | [] => .error missing
  | t :: ts =>
    if (r.dialect.symbolsOf t).intersects allClosings then .error missing
    else do
      let (second, rest) ← nested scope .operand t ts
      return (.paired construct.pairing first [second] (closed.cover second.range), rest.ofTail)

/-- Finish a bracketed statement at its closing bracket. -/
def closeCompound (r : Reader) (nested : Nested) (scope : Scope) (candidates : List Construct)
    (context : Context) (opening : Token) (first : List Statement)
    (second : Option (List Statement)) (closing : Token) (ts : List Token) :
    Reading Statement ts := do
  let closed : Range := ⟨opening.range.start, closing.range.stop⟩
  let candidates := r.closedBy closing second.isSome candidates
  let construct ← oneLeft candidates context closing closed
  match construct, second with
  | .grouping, none => return (.wrapped .grouping first closed, .all ts)
  | .inversion, none => return (.wrapped .inversion first closed, .all ts)
  | .reflection, none => return (.wrapped .reflection first closed, .all ts)
  | construct, some second => return (.paired construct.pairing first second closed, .all ts)
  | construct, none => r.readSecond nested scope construct first closed ts

/-- Read a bracketed statement whose opening bracket has been read and may be that of the
candidates. -/
def readCompound (r : Reader) (nested : Nested) (scope : Scope) (candidates : List Construct)
    (opening : Token) (ts : List Token) : Reading Statement ts := do
  let context := Context.ofCandidates candidates
  let (first, rest) ← r.readSequence nested scope context (r.firstStops candidates) ts
  match rest with
  | ⟨[], _⟩ => .error (r.unclosed scope candidates opening)
  | ⟨t :: left, hleft⟩ =>
    let afterFirst := Suffix.tail hleft
    match r.delimitedBy t candidates with
    | [] =>
      let (statement, later) ←
        r.closeCompound nested scope candidates context opening first none t left
      return (statement, afterFirst.trans later)
    | delimited =>
      let (second, rest) ←
        r.readSequence nested scope (.ofCandidates delimited) (closings delimited) left
      match rest with
      | ⟨[], _⟩ => .error (r.unclosed scope delimited opening)
      | ⟨t :: left, hleft⟩ =>
        let afterSecond := afterFirst.trans (Suffix.tail hleft)
        let (statement, later) ←
          r.closeCompound nested scope delimited context opening first (some second) t left
        return (statement, afterSecond.trans later)

end Reader

end CubeScript
