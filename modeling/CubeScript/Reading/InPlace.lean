import CubeScript.Reading.Session
import CubeScript.Reading.Statement

/-!
# Reading in place

Scripts are read here as in `Reader.read`, with the same choices at the same tokens, but by actions
on a session. A statement is not a tree but the number of its node, and what is to be read next is
in the tokenizer. A token that turns out to belong to something else is given back, and an attempt
to read the beginning of a statement that fails is undone.

`InPlace.Nested` is the way in which statements inside others are read. As in `Reader` it is an
argument, and `InPlace.statement` ties the knot.
-/

namespace CubeScript

namespace InPlace

open CubeScript.Action
open Diagnostic (Context unexpected ambiguous)

/-- A way to read a statement. -/
abbrev Nested := Context → Action Nat

/-! ### Sequences and operands -/

/-- Stop with a bracket that is never closed. -/
def failUnclosed {α : Type} (r : Reader) (candidates : List Construct) (bracket : Token) :
    Action α := do
  let scope ← scope
  let _ ← range bracket.range.start scope.textEnd
  fail (r.unclosed scope candidates bracket)

/-- Read statements behind those with the numbers `ids`, up to the end of the text or a token that
means one of the symbols in `stop`. -/
def sequenceFrom (r : Reader) (nested : Nested) (context : Context) (stop : SymbolSet) :
    (ids : List Nat) → Action (List Nat) :=
  loop fun ids => do
    let t ← peek
    if t.isEnd || (r.dialect.symbolsOf t).intersects stop then return .inr ids
    else return .inl (ids ++ [← nested context])

/-- Read statements up to the end of the text or a token that means one of the symbols in `stop`. -/
def sequence (r : Reader) (nested : Nested) (context : Context) (stop : SymbolSet) :
    Action (List Nat) :=
  sequenceFrom r nested context stop []

/-- Read the statement behind an operator. -/
def operand (nested : Nested) (operator : Range) : Action Nat := do
  let t ← peek
  if t.isEnd then
    let range ← range operator.start t.range.stop
    fail { problem := .missingOperand, range }
  else nested .operand

/-! ### Brackets -/

/-- Add a pairing of operands. -/
def pair (construct : Construct) (first second : List Nat) (range : Range) : Action Nat := do
  let a ← wrap first
  let b ← wrap second
  add (.group (.pairing construct.pairing) [a, b]) range

/-- The one candidate that is left at a closing bracket. -/
def oneLeft (candidates : List Construct) (context : Context) (opening closing : Token) :
    Action Construct :=
  match candidates with
  | [construct] => return construct
  | [] => fail (unexpected closing context)
  | candidates => do fail (ambiguous candidates (← range opening.range.start closing.range.stop))

/-- Read the second operand of a construct whose brackets only enclose the first one. -/
def second (r : Reader) (nested : Nested) (construct : Construct) (first : List Nat)
    (closed : Range) : Action Nat := do
  let t ← peek
  if t.isEnd || (r.dialect.symbolsOf t).intersects Reader.allClosings then
    let range ← range closed.start t.range.stop
    fail { problem := .missingSecondOperand construct, range }
  else
    let operand ← nested .operand
    let range ← cover closed operand
    pair construct first [operand] range

/-- Finish a bracketed statement at its closing bracket. -/
def close (r : Reader) (nested : Nested) (candidates : List Construct) (context : Context)
    (opening : Token) (first : List Nat) (others : Option (List Nat)) (closing : Token) :
    Action Nat := do
  let construct ← oneLeft (r.closedBy closing others.isSome candidates) context opening closing
  let closed ← range opening.range.start closing.range.stop
  match construct, others with
  | .grouping, none => add (.group (.wrapper .grouping) first) closed
  | .inversion, none => add (.group (.wrapper .inversion) first) closed
  | .reflection, none => add (.group (.wrapper .reflection) first) closed
  | construct, some others => pair construct first others closed
  | construct, none => second r nested construct first closed

/-- Read a bracketed statement whose opening bracket may be that of the candidates. -/
def compound (r : Reader) (nested : Nested) (candidates : List Construct) : Action Nat := do
  let opening ← next
  let context := Context.ofCandidates candidates
  let first ← sequence r nested context (r.firstStops candidates)
  let t ← next
  if t.isEnd then failUnclosed r candidates opening
  else
    match r.delimitedBy t candidates with
    | [] => close r nested candidates context opening first none t
    | delimited => do
      let others ← sequence r nested (.ofCandidates delimited) (Reader.closings delimited)
      let t ← next
      if t.isEnd then failUnclosed r delimited opening
      else close r nested delimited context opening first (some others) t

/-! ### Cycles -/

/-- Complete the part that is being written at a token that separates parts or ends the cycle. -/
def completePart (r : Reader) (size : Size) (draft : CycleDraft) (t : Token) :
    Action CycleDraft := do
  let symbols := r.dialect.symbolsOf t
  if !symbols.contains .permutationDelimiter && !symbols.contains .permutationEnd then
    fail (unexpected t .permutation)
  else
    match draft.start with
    | none => fail { unexpected t .permutation with advice := some .givePart }
    | some start =>
      let range ← range start draft.stop
      return draft.complete (← check (draft.item size range))

/-- Whether it depends on the next token if a sign may stand where the draft has got to. -/
def signNeedsNext (r : Reader) (draft : CycleDraft) : Bool :=
  !(draft.items.isEmpty && draft.faces.isEmpty && r.dialect.accepts .permutation .aroundFirst) &&
    (!draft.faces.isEmpty && r.dialect.accepts .permutation .aroundSecond)

/-- Take one token of a cycle into a draft. Tells whether the cycle ends there. -/
def extendCycle (r : Reader) (size : Size) (draft : CycleDraft) (t : Token) :
    Action (CycleDraft × Bool) := do
  let symbols := r.dialect.symbolsOf t
  match symbols.sign? with
  | some sign =>
    let next ← peekIf (signNeedsNext r draft) t
    return (← check (r.addSign draft sign t next), false)
  | none =>
    if t.kind = .number then return (← check (Reader.addNumber size draft t), false)
    else
      match symbols.faces.head? with
      | some face => return (← check (Reader.addFace draft face t), false)
      | none => return (← completePart r size draft t, symbols.contains .permutationEnd)

/-- Read the parts of a cycle up to the bracket that ends it. Gives where that bracket ends, too. -/
def parts (r : Reader) (size : Size) (bracket : Token) : CycleDraft → Action (CycleDraft × Nat) :=
  loop fun draft => do
    let t ← next
    if t.isEnd then failUnclosed r [.permutation] bracket
    else
      let (draft, ended) ← extendCycle r size draft t
      return if ended then .inr (draft, t.range.stop) else .inl draft

/-- Read a sign behind a cycle, if one may stand there and the draft has none. Gives the draft
and the range of the cycle. -/
def signBehind (r : Reader) (draft : CycleDraft) (around : Range) :
    Action (CycleDraft × Range) :=
  if draft.sign.isNone && r.dialect.accepts .permutation .after then do
    let c ← checkpoint
    let t ← next
    match (r.dialect.symbolsOf t).sign? with
    | some sign =>
      let range ← range around.start t.range.stop
      return ({ draft with sign := some (sign, t.range) }, range)
    | none =>
      restore c
      return (draft, around)
  else return (draft, around)

/-- Read a cycle whose sign may have been read before it. -/
def cycle (r : Reader) (sign : Option (Cycle.Sign × Range)) : Action Nat := do
  let bracket ← next
  let start := match sign with
    | some (_, range) => range.start
    | none => bracket.range.start
  let size ← cubeSize r.dialect.layers bracket.range
  let (draft, stop) ← parts r size bracket { sign, stop := bracket.range.stop }
  let closed ← range start stop
  let (draft, range) ← signBehind r draft closed
  let cycle ← check (Reader.makeCycle draft range)
  add (.atom (.cycle cycle)) range

/-! ### The beginning of a statement -/

/-- Read all statements of a text. -/
def whole (r : Reader) (nested : Nested) (context : Context) : Action (List Nat) := do
  let ids ← sequence r nested context .empty
  let t ← next
  if t.isEnd then return ids else fail (unexpected t context)

/-- Read a shorthand: look up its text and read that. All nodes of the text are put where the
shorthand stands. -/
def shorthand (r : Reader) (nested : Nested) (context : Context) : Action Nat := do
  let t ← next
  match r.dialect.expansion? t.text with
  | none => fail (unexpected t context)
  | some text =>
    let scope ← scope
    if r.maxShorthandDepth ≤ scope.depth then
      fail { problem := .shorthandTooDeep t.text r.maxShorthandDepth, range := t.range }
    else
      let because (cause : Diagnostic) : Diagnostic :=
        { problem := .shorthandBody t.text, range := t.range, cause := some cause }
      let body ← gatherAt t.range (mapProblem because
        (inside (.start r.lexer text) (whole r nested .shorthand)))
      add (.group (.wrapper (.shorthand t.text)) body) t.range

/-- Read a cycle behind its sign. -/
def signedCycle (r : Reader) : Action Nat := do
  let t ← next
  let sign := ((r.dialect.symbolsOf t).sign?.getD .none, t.range)
  let bracket ← peek
  if (r.dialect.symbolsOf bracket).contains .permutationBegin then cycle r (some sign)
  else
    let _ ← next
    fail (unexpected bracket .permutation)

/-- Read the statement that an operator before it wraps. -/
def wrapped (nested : Nested) (w : Wrapper) (operator : Range) : Action Nat := do
  let operand ← operand nested operator
  let range ← cover operator operand
  add (.group (.wrapper w) [operand]) range

/-- Read a statement behind a count. There may have to be an operator in between. -/
def repeated (r : Reader) (nested : Nested) : Action Nat := do
  let number ← next
  let count ← check (Reader.repeatCount number)
  let t ← peek
  if r.countsNext t then
    let _ ← next
    wrapped nested (.repetition count) number.range
  else if r.dialect.accepts .repetition .before then
    wrapped nested (.repetition count) number.range
  else
    let _ ← next
    fail { unexpected t .operand with advice := some (r.adviceFor .repetitionOperator) }

/-- Read the beginning of a statement in one of the ways in which it may begin. -/
def start (r : Reader) (nested : Nested) (context : Context) : Start → Action Nat
  | .turn => do
    let t ← next
    match r.dialect.turn? t.text with
    | some turn => add (.atom (.turn turn)) t.range
    | none => fail (unexpected t context)
  | .nop => do
    let t ← next
    add (.atom .nop) t.range
  | .shorthand => shorthand r nested context
  | .compound candidates => compound r nested candidates
  | .cycle => cycle r none
  | .signedCycle => signedCycle r
  | .inversion => do
    let t ← next
    wrapped nested .inversion t.range
  | .reflection => do
    let t ← next
    wrapped nested .reflection t.range
  | .repetition => repeated r nested

/-- Try some ways to read on, one after the other, each from a checkpoint and with so many nodes.
The first that succeeds is taken. If none does, the attempt that got furthest says what is wrong,
or an earlier attempt that got at least as far. -/
def tryEach {α β : Type} (attempt : α → Action β) (context : Context) (c : Checkpoint)
    (count : Nat) : (furthest : Option Diagnostic) → List α → Action β
  | furthest, [] => do
    let t ← peek
    fail (furthest.getD (unexpected t context))
  | furthest, a :: others => fun s =>
    match attempt a s with
    | (.error (.problem d), t) =>
      tryEach attempt context c count (some (furthest.elim d (·.furthest d))) others
        { t with tokens := t.tokens.restore c, arena := t.arena.truncate count }
    | outcome => outcome

/-- Try some ways to read on, one after the other. What a failed attempt has done is undone. -/
def alternatives {α β : Type} (attempt : α → Action β) (context : Context) (ways : List α) :
    Action β := do
  let s ← get
  tryEach attempt context s.tokens.checkpoint s.arena.size none ways

/-- Read the beginning of a statement in any of the ways in which it may begin. -/
def beginning (r : Reader) (nested : Nested) (context : Context) (t : Token) : Action Nat :=
  match r.dialect.starts t with
  | [] => fail (Reader.noStart t context)
  | [way] => start r nested context way
  | ways => alternatives (start r nested context) context ways

/-! ### What follows a statement -/

/-- Read the second operand of a statement and the bracket that closes it. -/
def bracketBehind (r : Reader) (nested : Nested) (candidates : List Construct) (id begins : Nat)
    (opening : Token) : Action Nat := do
  let context := Context.ofCandidates candidates
  let others ← sequence r nested context (Reader.closings candidates)
  let t ← next
  if t.isEnd then failUnclosed r candidates opening
  else
    let candidates := candidates.filter fun c => Reader.has (r.dialect.symbolsOf t) c.end?
    let construct ← oneLeft candidates context opening t
    let range ← range begins t.range.stop
    pair construct [id] others range

/-- Read the second operand of a statement behind a delimiter, where `through` is the range of the
statement and the delimiter. -/
def delimiterBehind (nested : Nested) (candidates : List Construct) (id : Nat)
    (delimiter through : Range) : Action Nat :=
  match candidates with
  | [construct] => do
    let other ← operand nested delimiter
    let range ← cover through other
    pair construct [id] [other] range
  | candidates => fail (ambiguous candidates through)

/-- Read what a token makes of the statement before it, which begins at some byte. -/
def extendBy (r : Reader) (nested : Nested) (context : Context) (id : Nat) (t : Token)
    (through : Range) : Reader.Behind → Action Nat
  | .wrap w => add (.group (.wrapper w) [id]) through
  | .count => do
    let count ← check (Reader.repeatCount t)
    add (.group (.wrapper (.repetition count)) [id]) through
  | .countNext => do
    let number ← next
    if number.kind ≠ .number then
      fail { unexpected number context with advice := some .giveCount }
    else
      let count ← check (Reader.repeatCount number)
      let range ← range through.start number.range.stop
      add (.group (.wrapper (.repetition count)) [id]) range
  | .bracket candidates => bracketBehind r nested candidates id through.start t
  | .delimiter candidates => delimiterBehind nested candidates id t.range through

/-- Read on behind a token that makes something of the statement before it. If it makes nothing, it
is given back, and the statement is finished. -/
def extendOrStop (r : Reader) (nested : Nested) (context : Context) (id : Nat) (c : Checkpoint)
    (t : Token) (through : Range) : Option Reader.Behind → Action (Nat ⊕ Nat)
  | none => do
    restore c
    return .inr id
  | some behind => return .inl (← extendBy r nested context id t through behind)

/-- Read what the next token makes of the statement before it. Gives the larger statement, or the
same one as the result. -/
def extend (r : Reader) (nested : Nested) (context : Context) (id : Nat) :
    Action (Nat ⊕ Nat) := do
  let c ← checkpoint
  let t ← next
  if t.isEnd then
    restore c
    return .inr id
  else
    let begins := (← rangeOf id).elim t.range.start Range.start
    let through ← range begins t.range.stop
    let next ← peekIf (t.kind = .number && r.dialect.accepts .repetition .after) t
    extendOrStop r nested context id c t through (r.behind? t next)

/-- Read everything behind a statement that takes it as an operand. -/
def behind (r : Reader) (nested : Nested) (context : Context) : (id : Nat) → Action Nat :=
  loop (extend r nested context)

/-! ### Statements and scripts -/

/-- Read a statement in which there are at most `levels` levels of statements, itself included, or
less if it is deep inside others. -/
def statement (r : Reader) : (levels : Nat) → Nested
  | 0, _ => throw .endless
  | levels + 1, context => do
    let t ← peek
    if t.isEnd then fail (unexpected t context)
    else if r.maxNesting ≤ (← get).nesting then
      fail { problem := .nestedTooDeeply r.maxNesting, range := t.range }
    else nest do
      let id ← beginning r (statement r levels) context t
      behind r (statement r levels) context id

/-- Read the statements of a text and make them the root of a script. -/
def script (r : Reader) (text : String) : Action Script := do
  let ids ← whole r (statement r (r.maxNesting + 1)) .script
  let range ← range 0 text.utf8ByteSize
  let root ← add (.group .sequence ids) range
  return ⟨(← get).arena, root, r.dialect.layers⟩

/-- Read a script. -/
def read (r : Reader) (text : String) : Except Halt Script :=
  (script r text { tokens := .start r.lexer text }).1

end InPlace

end CubeScript
