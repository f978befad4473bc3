import CubeScript.Cycle
import CubeScript.Diagnostic.Code
import CubeScript.Dialect.Symbol
import CubeScript.Text.Position

/-!
# Diagnostics

A diagnostic says what is wrong with a script, and where. It may come with a piece of advice,
with notes on other places of the text, and, when the text of a shorthand is at fault, with
the diagnostic of that text, whose ranges are counted there.

What is wrong is one of the causes in `Diagnostic.Problem`; the code and the wording follow from
it. Only what a caller reports in words of its own brings them along.
-/

namespace CubeScript

namespace Diagnostic

/-- What can be wrong with a script. -/
inductive Problem where
  /-- A token that cannot stand where it does. An empty one is the end of the text. -/
  | unexpected (found : String) (context : Context)
  | countOutOfRange
  | partNumberOutOfRange
  /-- A bracket that is never closed, and what it may have opened. -/
  | unclosed (bracket : String) (candidates : List Construct)
  | missingOperand
  | missingSecondOperand (construct : Construct)
  | nestedTooDeeply (limit : Nat)
  | ambiguous (candidates : List Construct)
  | illegalSign (sign : Cycle.Sign) (kind : PieceKind)
  | repeatedPart (name : String)
  | mixedKinds (expected found : PieceKind)
  /-- A cycle that cannot be made for a reason of its own. -/
  | cycle (fault : Cycle.Fault)
  /-- Cycles need a cube, and there is none of that size. -/
  | noCube (fault : Cube.Fault)
  | numberNotAllowed (layers : Nat)
  | secondSign
  | shorthandBody (name : String)
  | shorthandTooDeep (name : String) (limit : Nat)
  /-- What a caller found wrong. -/
  | reported (code : Code) (message : String)
  deriving DecidableEq, Repr

namespace Problem

/-- The code of a fault of a cycle. -/
def codeOfCycle : Cycle.Fault → Code
  | .illegalSign .. => .illegalSign
  | .repeatedPlace _ => .repeatedPart
  | .mixedKinds .. => .mixedKinds
  | .part (.noSuchPart _) => .numberOutOfRange
  | .part _ => .noSuchPart
  | .noItems => .unexpectedToken

/-- The code of a problem. -/
def code : Problem → Code
  | .unexpected found _ => if found = "" then .unexpectedEnd else .unexpectedToken
  | .countOutOfRange => .numberOutOfRange
  | .partNumberOutOfRange => .numberOutOfRange
  | .unclosed .. => .unclosed
  | .missingOperand => .missingOperand
  | .missingSecondOperand _ => .missingOperand
  | .nestedTooDeeply _ => .nestedTooDeeply
  | .ambiguous _ => .ambiguous
  | .illegalSign .. => .illegalSign
  | .repeatedPart _ => .repeatedPart
  | .mixedKinds .. => .mixedKinds
  | .cycle fault => codeOfCycle fault
  | .noCube _ => .noSuchPart
  | .numberNotAllowed _ => .numberNotAllowed
  | .secondSign => .secondSign
  | .shorthandBody _ => .shorthandBody
  | .shorthandTooDeep .. => .shorthandTooDeep
  | .reported code _ => code

/-- The wording of a problem. -/
def message : Problem → String
  | .unexpected found context =>
    let what := if found = "" then "end of input" else s!"'{found}'"
    s!"unexpected {what} {context.description}, expected {context.expected}"
  | .countOutOfRange => "repetition count out of range"
  | .partNumberOutOfRange => "part number out of range"
  | .unclosed bracket candidates => s!"unclosed '{bracket}' ({Construct.oneOf candidates})"
  | .missingOperand => "missing operand at end of input"
  | .missingSecondOperand construct => s!"missing second operand of {construct.name}"
  | .nestedTooDeeply limit => s!"statements nested more than {limit} levels deep"
  | .ambiguous candidates => s!"ambiguous statement, could be {Construct.oneOf candidates}"
  | .illegalSign sign kind => s!"sign '{sign}' is not allowed for {kind} parts"
  | .repeatedPart name => s!"part '{name}' appears more than once"
  | .mixedKinds expected found => s!"cannot mix {expected} and {found} parts in one cycle"
  | .cycle fault => fault.message
  | .noCube fault => fault.message
  | .numberNotAllowed layers =>
    s!"part numbers need more than 3 layers, this cube has {layers}"
  | .secondSign => "a permutation cycle takes at most one sign"
  | .shorthandBody name => s!"error in macro '{name}'"
  | .shorthandTooDeep name limit => s!"macro '{name}' nested more than {limit} levels deep"
  | .reported _ message => message

end Problem

/-- How a problem might be mended. -/
inductive Advice where
  | unknownWord (word : String)
  | addToken (token : String)
  | addMeaning (symbol : Symbol)
  | giveCount
  | givePart
  /-- Advice in the words of a caller. -/
  | other (text : String)
  deriving DecidableEq, Repr

/-- The wording of a piece of advice. -/
def Advice.text : Advice → String
  | .unknownWord word => s!"'{word}' is not a move or macro"
  | .addToken token => s!"add '{token}'"
  | .addMeaning symbol => s!"add a {symbol.name} token"
  | .giveCount => "expected a repetition count"
  | .givePart => "expected a part such as 'ubr'"
  | .other text => text

/-- Another place of the text that has to do with a problem. -/
structure Note where
  message : String
  range : Range
  deriving DecidableEq, Repr

end Diagnostic

/-- What is wrong with a script, and where. -/
structure Diagnostic where
  problem : Diagnostic.Problem
  range : Range
  advice : Option Diagnostic.Advice := none
  notes : List Diagnostic.Note := []
  /-- What is wrong with the text of the shorthand at the range. -/
  cause : Option Diagnostic := none

namespace Diagnostic

/-- The code of the problem. -/
def code (d : Diagnostic) : Code := d.problem.code

/-- The wording of the problem. -/
def message (d : Diagnostic) : String := d.problem.message

/-- The problem in one line. -/
def headline (d : Diagnostic) : String := s!"{d.code}: {d.message}"

/-- The lines and columns of the problem in the text it was found in. -/
def spanIn (d : Diagnostic) (text : String) : Span := .ofRange text d.range

/-- The line for a note. -/
def Note.text (n : Note) : String :=
  s!"\n  note: {n.message} at {n.range.start}..{n.range.stop}"

/-- The problem in full: its headline, the advice, the notes and the cause. -/
def report (d : Diagnostic) : String :=
  d.headline ++
  ((d.advice.map fun a => s!"\n  hint: {a.text}").getD "") ++
  String.join (d.notes.map Note.text) ++
  match d with
  | { cause := none, .. } => ""
  | { cause := some cause, .. } => s!"\n  caused by {cause.report}"

/-- Of two diagnostics, the one whose range ends later, and the first if they end together. -/
def furthest (d e : Diagnostic) : Diagnostic :=
  if d.range.stop < e.range.stop then e else d

end Diagnostic

end CubeScript
