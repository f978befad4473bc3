import CubeScript.Reading.Basic

/-!
# Reading cycles of pieces

Between the brackets of a cycle stand its parts, each written as one to three faces, and a number
on cubes that have several pieces with the same faces. A sign may stand before the first part,
behind the last one, before the brackets or behind them, as far as the dialect accepts the
placement, and there is at most one.

A `CycleDraft` holds what has been read so far. Every token either extends the part
that is being written, completes it, or is an error at once.
-/

namespace CubeScript

/-- A cycle that has been read in part. -/
structure CycleDraft where
  /-- The sign, and where it stands. -/
  sign : Option (Cycle.Sign × Range) := none
  /-- The parts that are complete. -/
  items : List Cycle.Item := []
  /-- The faces of the part that is being written. -/
  faces : List Face := []
  /-- The number of the part that is being written. -/
  number : Option Nat := none
  /-- Where the part that is being written starts, once it has a face. -/
  start : Option Nat := none
  /-- Where the last face or number ends. -/
  stop : Nat := 0

namespace CycleDraft

/-- The draft with the part that is being written completed as an item. -/
def complete (draft : CycleDraft) (item : Cycle.Item) : CycleDraft where
  sign := draft.sign
  items := draft.items ++ [item]
  stop := draft.stop

/-- The draft with one more face. -/
def addFace (draft : CycleDraft) (face : Face) (range : Range) : CycleDraft :=
  { draft with
    faces := draft.faces ++ [face]
    start := some (draft.start.getD range.start)
    stop := range.stop }

/-- The draft with a number behind the faces. -/
def setNumber (draft : CycleDraft) (number : Nat) (range : Range) : CycleDraft :=
  { draft with number := some number, stop := range.stop }

/-- What is wrong with an item as the next part of a cycle, if something is. -/
def itemProblem? (draft : CycleDraft) (item : Cycle.Item) : Option Diagnostic.Problem :=
  match draft.items.head? with
  | none => none
  | some first =>
    if first.kind ≠ item.kind then some (.mixedKinds first.kind item.kind)
    else if draft.items.any (·.place = item.place) then some (.repeatedPart item.name)
    else none

/-- The item that the faces and the number of the part being written name, as the next part of
the cycle. -/
def item (draft : CycleDraft) (size : Size) (range : Range) : Except Diagnostic Cycle.Item :=
  match Cycle.Item.ofFaces size draft.faces draft.number with
  | .error fault => .error { problem := .cycle fault, range }
  | .ok item =>
    match draft.itemProblem? item with
    | some problem => .error { problem, range }
    | none => .ok item

end CycleDraft

namespace Reader

open Diagnostic

/-- Whether a sign may stand where the draft has got to, with a given token behind it. -/
def signAllowed (r : Reader) (draft : CycleDraft) (next : Token) : Bool :=
  (draft.items.isEmpty && draft.faces.isEmpty && r.dialect.accepts .permutation .aroundFirst) ||
    (!draft.faces.isEmpty && r.dialect.accepts .permutation .aroundSecond &&
      (r.dialect.symbolsOf next).contains .permutationEnd)

/-- Put a sign into a draft. -/
def addSign (r : Reader) (draft : CycleDraft) (sign : Cycle.Sign) (t next : Token) :
    Except Diagnostic CycleDraft :=
  if !r.signAllowed draft next then .error (unexpected t .permutation)
  else if draft.sign.isSome then .error { problem := .secondSign, range := t.range }
  else .ok { draft with sign := some (sign, t.range) }

/-- Put a number into a draft. -/
def addNumber (size : Size) (draft : CycleDraft) (t : Token) : Except Diagnostic CycleDraft :=
  if draft.faces.isEmpty || draft.number.isSome then .error (unexpected t .permutation)
  else if size.layers ≤ 3 then
    .error { problem := .numberNotAllowed size.layers, range := t.range }
  else
    match t.number? with
    | none => .error { problem := .partNumberOutOfRange, range := t.range }
    | some number => .ok (draft.setNumber number t.range)

/-- Put a face into a draft. -/
def addFace (draft : CycleDraft) (face : Face) (t : Token) : Except Diagnostic CycleDraft :=
  if draft.faces.length = 3 || draft.number.isSome then .error (unexpected t .permutation)
  else .ok (draft.addFace face t.range)

/-- Complete the part that is being written at a token that separates parts or ends the cycle. -/
def completePart (r : Reader) (size : Size) (draft : CycleDraft) (t : Token) :
    Except Diagnostic CycleDraft :=
  let symbols := r.dialect.symbolsOf t
  if !symbols.contains .permutationDelimiter && !symbols.contains .permutationEnd then
    .error (unexpected t .permutation)
  else
    match draft.start with
    | none => .error { unexpected t .permutation with advice := some .givePart }
    | some start => return draft.complete (← draft.item size ⟨start, draft.stop⟩)

/-- Take one token of a cycle into a draft, with a given token behind it. Tells whether the cycle
ends there. -/
def extendCycle (r : Reader) (size : Size) (draft : CycleDraft) (t next : Token) :
    Except Diagnostic (CycleDraft × Bool) :=
  let symbols := r.dialect.symbolsOf t
  match symbols.sign? with
  | some sign => return (← r.addSign draft sign t next, false)
  | none =>
    if t.kind = .number then return (← addNumber size draft t, false)
    else
      match symbols.faces.head? with
      | some face => return (← addFace draft face t, false)
      | none => return (← r.completePart size draft t, symbols.contains .permutationEnd)

/-- Read the parts of a cycle up to the bracket that ends it. Gives where that bracket ends, too. -/
def readParts (r : Reader) (scope : Scope) (size : Size) (bracket : Token) :
    CycleDraft → (ts : List Token) → Reading (CycleDraft × Nat) ts
  | _, [] => .error (r.unclosed scope [.permutation] bracket)
  | draft, t :: ts => do
    let (draft, ended) ← r.extendCycle size draft t (scope.peek ts)
    if ended then return ((draft, t.range.stop), (Suffix.all ts).ofTail)
    else
      let (result, rest) ← readParts r scope size bracket draft ts
      return (result, rest.ofTail)

/-- Read a sign behind a cycle, if one may stand there and the draft has none. Gives the draft
and where the cycle ends. -/
def readSignBehind (r : Reader) (draft : CycleDraft) (stop : Nat) :
    (ts : List Token) → (CycleDraft × Nat) × Suffix ts
  | [] => ((draft, stop), .all [])
  | t :: ts =>
    match (r.dialect.symbolsOf t).sign? with
    | some sign =>
      if draft.sign.isNone && r.dialect.accepts .permutation .after then
        (({ draft with sign := some (sign, t.range) }, t.range.stop), (Suffix.all ts).ofTail)
      else ((draft, stop), .all (t :: ts))
    | none => ((draft, stop), .all (t :: ts))

/-- Make the cycle that a complete draft describes. -/
def makeCycle (draft : CycleDraft) (range : Range) : Except Diagnostic Cycle :=
  let (sign, signRange) := draft.sign.getD (.none, range)
  match Cycle.make draft.items sign with
  | .ok cycle => .ok cycle
  | .error (.illegalSign _ kind) =>
    .error { problem := .illegalSign sign kind, range, notes := [⟨"sign here", signRange⟩] }
  | .error fault => .error { problem := .cycle fault, range }

/-- Read a cycle whose opening bracket has been read, and whose sign may have been read before
it. -/
def readCycle (r : Reader) (scope : Scope) (sign : Option (Cycle.Sign × Range)) (bracket : Token)
    (ts : List Token) : Reading Statement ts := do
  let start := match sign with
    | some (_, range) => range.start
    | none => bracket.range.start
  match Size.ofNat? r.dialect.layers with
  | .error fault => .error { problem := .noCube fault, range := bracket.range }
  | .ok size =>
    let ((draft, stop), rest) ←
      r.readParts scope size bracket { sign, stop := bracket.range.stop } ts
    let ((draft, stop), later) := r.readSignBehind draft stop rest.1
    let range : Range := ⟨start, stop⟩
    let cycle ← makeCycle draft range
    return (.atom (.cycle cycle) range, rest.trans later)

end Reader

end CubeScript
