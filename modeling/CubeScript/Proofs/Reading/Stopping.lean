import CubeScript.Reading.Statement

/-!
# Readers that stop at some errors

A way to begin a statement that fails is given up, and the next way is tried. A reader can also be
made to stop there: if the error is one of some kind, it is the error of the whole reading. Unless
there is such an error, both readers do the same. If there are none of that kind, they are the same.

A reader that stops at the errors of limits tells whether a text comes up against the limits
anywhere, in the attempts that are given up, too (`Reader.ReachesLimit`).
-/

namespace CubeScript

namespace Diagnostic

/-- Whether a limit is at fault, of the text itself or of that of a shorthand in it. -/
def reachesLimit : Diagnostic → Bool
  | { problem := .nestedTooDeeply _, .. } => true
  | { problem := .shorthandTooDeep _ _, .. } => true
  | { cause := some cause, .. } => cause.reachesLimit
  | _ => false

end Diagnostic

namespace Reader

open Diagnostic

variable (stops : Diagnostic → Bool)

/-- The first of some attempts that succeeds, unless one before it stops. -/
def firstSuccessUnless {α β : Type} (attempt : α → Except Diagnostic β) (a : α) :
    List α → Except Diagnostic β
  | [] => attempt a
  | b :: rest =>
    match attempt a with
    | .ok result => .ok result
    | .error d =>
      if stops d then .error d
      else (firstSuccessUnless attempt b rest).mapError fun e =>
        if stops e then e else d.furthest e

/-- Read the beginning of a statement, unless an attempt stops. -/
def readBeginningUnless (r : Reader) (nested : Nested) (scope : Scope) (context : Context)
    (t : Token) (ts : List Token) : Reading Statement ts :=
  match r.dialect.starts t with
  | [] => .error (noStart t context)
  | start :: starts =>
    firstSuccessUnless stops (r.readStart nested scope context t ts) start starts

/-- Read a statement, unless an attempt stops. -/
def readStatementUnless (r : Reader) : (levels : Nat) → Nested
  | 0, _, _, t, _ => .error { problem := .nestedTooDeeply r.maxNesting, range := t.range }
  | levels + 1, scope, context, t, ts => do
    let nested := readStatementUnless r levels
    let (beginning, rest) ← readBeginningUnless stops r nested scope context t ts
    let (statement, later) ← r.readBehind nested scope context beginning rest.1
    return (statement, rest.trans later)

/-- Read the statements of a text, unless an attempt stops. -/
def readStatementsUnless (r : Reader) (text : String) : Except Diagnostic (List Statement) := do
  let scope : Scope := ⟨text.utf8ByteSize, 0⟩
  let (statements, _) ← r.readSequence (readStatementUnless stops r r.maxNesting) scope .script
    .empty (r.lexer.tokens text)
  return statements

/-- Whether reading a text comes up against a limit, and be it in an attempt that is given up. -/
def ReachesLimit (r : Reader) (text : String) : Prop :=
  ∃ d, readStatementsUnless reachesLimit r text = .error d ∧ d.reachesLimit

/-! ### Readers that never stop -/

theorem firstSuccessUnless_never {α β : Type} (attempt : α → Except Diagnostic β) (a : α)
    (others : List α) : firstSuccessUnless (fun _ => false) attempt a others =
      firstSuccess attempt a others := by
  induction others generalizing a with
  | nil => rfl
  | cons b others ih =>
    rw [firstSuccessUnless, firstSuccess]
    cases attempt a with
    | ok result => rfl
    | error d =>
      dsimp only
      rw [if_neg Bool.false_ne_true, ih]
      rfl

theorem readBeginningUnless_never (r : Reader) (nested : Nested) (scope : Scope)
    (context : Context) (t : Token) (ts : List Token) :
    readBeginningUnless (fun _ => false) r nested scope context t ts =
      r.readBeginning nested scope context t ts := by
  rw [readBeginningUnless, readBeginning]
  cases r.dialect.starts t with
  | nil => rfl
  | cons start starts => exact firstSuccessUnless_never _ start starts

theorem readStatementUnless_never (r : Reader) (levels : Nat) :
    readStatementUnless (fun _ => false) r levels = r.readStatement levels := by
  induction levels with
  | zero => rfl
  | succ levels ih =>
    funext scope context t ts
    rw [readStatementUnless, readStatement, ih]
    simp only [readBeginningUnless_never]

theorem readStatementsUnless_never (r : Reader) (text : String) :
    readStatementsUnless (fun _ => false) r text = r.readStatements text := by
  rw [readStatementsUnless, readStatements, readStatementUnless_never]

end Reader

end CubeScript
