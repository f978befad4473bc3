import CubeScript.Reading.Basic
import CubeScript.Text.Tokenizer

/-!
# Sessions

A script can also be read without lists of tokens and trees of statements: tokens are taken from a
tokenizer, and nodes are added to an arena as soon as they are known. Both are kept in a session,
with what has to be counted on the way. All that happens to a session is an action on it. A step
that turns out to be wrong has to be undone, by taking the tokenizer back to a checkpoint and
forgetting the new nodes.

Besides a problem with the script there are two things that must not happen, and an action stops if
they do: a range that would end before it starts, and a loop that goes on without taking a token.
-/

namespace CubeScript

/-- The state of reading a script in place. -/
structure Session where
  /-- The text that is being read, and how far. -/
  tokens : Tokenizer
  /-- The nodes of what has been read. -/
  arena : Arena := #[]
  /-- The number of statements that are being read, one inside the other. -/
  nesting : Nat := 0
  /-- The number of shorthands whose texts are being read, one inside the other. -/
  depth : Nat := 0
  /-- The size of the cube, once it has been looked up. -/
  size? : Option Size := none

/-- Why reading in place stops. -/
inductive Halt where
  /-- Something is wrong with the script. -/
  | problem (d : Diagnostic)
  /-- A range would end before it starts. -/
  | badRange (start stop : Nat)
  /-- A loop goes on without taking a token. -/
  | endless

/-- What reading does to a session. -/
abbrev Action (α : Type) := ExceptT Halt (StateM Session) α

namespace Action

variable {α β : Type}

/-- Stop with a problem. -/
def fail (d : Diagnostic) : Action α := throw (.problem d)

/-- Go on with what has been found, or stop with what is wrong with it. -/
def check : Except Diagnostic α → Action α
  | .ok a => pure a
  | .error d => fail d

/-- Make a range. -/
def range (start stop : Nat) : Action Range :=
  if start ≤ stop then pure ⟨start, stop⟩ else throw (.badRange start stop)

/-! ### Tokens -/

/-- Take the next token. -/
def next : Action Token :=
  modifyGet fun s => (s.tokens.next.1, { s with tokens := s.tokens.next.2 })

/-- Look at the next token. -/
def peek : Action Token :=
  modifyGet fun s => (s.tokens.peek.1, { s with tokens := s.tokens.peek.2 })

/-- Look at the next token if it matters, and give another one if not. -/
def peekIf (matters : Bool) (other : Token) : Action Token :=
  if matters then peek else pure other

/-- Where the tokenizer has got to. -/
def checkpoint : Action Checkpoint := return (← get).tokens.checkpoint

/-- Take the tokenizer back to where it has been. -/
def restore (c : Checkpoint) : Action Unit :=
  modify fun s => { s with tokens := s.tokens.restore c }

/-- The text that is being read, as far as it matters to its tokens. -/
def scope : Action Scope := return ⟨(← get).tokens.textEnd, (← get).depth⟩

/-! ### Nodes -/

/-- Add a node. Gives its number. -/
def add (content : Content) (range : Range) : Action Nat :=
  modifyGet fun s =>
    ((s.arena.add content range).1, { s with arena := (s.arena.add content range).2 })

/-- The range of a node. -/
def rangeOf (id : Nat) : Action (Option Range) := return (← get).arena.range? id

/-- The smallest range that holds another one and that of a node. -/
def cover (range : Range) (id : Nat) : Action Range :=
  return (← rangeOf id).elim range range.cover

/-- Add a sequence of nodes, from the start of the first to the end of the last. -/
def wrap (ids : List Nat) : Action Nat := do
  add (.group .sequence ids) (.spanning (ids.filterMap (← get).arena.range?))

/-- Do something, and put all nodes that it adds in one range. -/
def gatherAt (range : Range) (m : Action α) : Action α := do
  let first := (← get).arena.size
  let a ← m
  modify fun s => { s with arena := s.arena.setRangesFrom first range }
  return a

/-! ### Inside something -/

/-- Do something inside a statement. -/
def nest (m : Action α) : Action α := fun s =>
  let (result, s) := m { s with nesting := s.nesting + 1 }
  (result, { s with nesting := s.nesting - 1 })

/-- Do something with the tokens of a shorthand's text. Then those of the text around it are back
where they were. -/
def inside (tokens : Tokenizer) (m : Action α) : Action α := fun outer =>
  let (result, s) := m { outer with tokens, depth := outer.depth + 1 }
  (result, { s with tokens := outer.tokens, depth := s.depth - 1 })

/-- Report a problem in other words. -/
def mapProblem (f : Diagnostic → Diagnostic) (m : Action α) : Action α := fun s =>
  match m s with
  | (.error (.problem d), s) => (.error (.problem (f d)), s)
  | outcome => outcome

/-- The size of the cube. It is looked up once. -/
def cubeSize (layers : Nat) (range : Range) : Action Size := do
  match (← get).size? with
  | some size => return size
  | none =>
    match Size.ofNat? layers with
    | .ok size =>
      modify fun s => { s with size? := some size }
      return size
    | .error fault => fail { problem := .noCube fault, range }

/-- Take steps until one of them gives a result. Every other step has to take a token. -/
def loop (step : α → Action (α ⊕ β)) (a : α) : Action β := fun s =>
  match step a s with
  | (.error halt, t) => (.error halt, t)
  | (.ok (.inr b), t) => (.ok b, t)
  | (.ok (.inl next), t) =>
    if t.tokens.remaining.length < s.tokens.remaining.length then loop step next t
    else (.error .endless, t)
termination_by s => s.tokens.remaining.length

end Action

end CubeScript
