import CubeScript.Script.Node

/-!
# Resolving a script into operations

A script stands for a sequence of operations, each the turn of some layers or a cycle of
pieces. The sequence can be far longer than the script, so it is produced one operation at
a time: a `Resolver` holds a stack of tasks, and `Resolver.next?` works on the top one until
an operation comes out. A repetition keeps its count on the stack and is never unrolled.

Two flags travel with the tasks. An inversion flips `inverse`, under which children run last to
first and operations are undone; a reflection flips `reflected`, under which turns change to
the opposite layers. The order of the operands of a pairing, forwards and backwards, is
`Pairing.plan`.

A script whose nodes only name earlier ones ends after finitely many steps, and `Script.effort`
bounds their number in advance. In other scripts the nodes may go round in a circle. They are
worked on for `Resolver.patience` steps more.
-/

namespace CubeScript

/-- One thing to do to a cube. -/
inductive Op where
  | turn (turn : Turn)
  | cycle (cycle : Cycle)
  deriving DecidableEq, Repr

namespace Op

/-- The operation that undoes an operation. -/
def inverse : Op → Op
  | .turn t => .turn t.inverse
  | .cycle c => .cycle c.inverse

/-- Do an operation. -/
def apply : Op → Cube → Except Cube.Fault Cube
  | .turn t => t.apply
  | .cycle c => c.apply

/-- An operation in writing. -/
def text : Op → String
  | .turn t => t.text
  | .cycle c => c.text

end Op

/-- One of the operands of a pairing. -/
inductive Operand where
  | first
  | second
  deriving DecidableEq, Repr

namespace Pairing

/-- The operands a pairing runs, in order, and whether each is undone. -/
def plan : Pairing → (inverse : Bool) → List (Operand × Bool)
  | .commutation, false => [(.first, false), (.second, false), (.first, true), (.second, true)]
  | .commutation, true => [(.second, false), (.first, false), (.second, true), (.first, true)]
  | .conjugation, false => [(.first, false), (.second, false), (.first, true)]
  | .conjugation, true => [(.first, false), (.second, true), (.first, true)]
  | .rotation, false => [(.first, true), (.second, false), (.first, false)]
  | .rotation, true => [(.first, true), (.second, true), (.first, false)]

end Pairing

/-- A piece of work on the stack of a resolver. -/
inductive Task where
  /-- Run a node. -/
  | visit (id : Nat) (inverse reflected : Bool)
  /-- Run some nodes in the order given. -/
  | each (ids : List Nat) (inverse reflected : Bool)
  /-- Run some nodes in the order given, a number of times. -/
  | times (count : Nat) (ids : List Nat) (inverse reflected : Bool)
  /-- Run the operands of a pairing in the order given, undoing some of them. -/
  | operands (visits : List (Nat × Bool)) (reflected : Bool)
  deriving DecidableEq, Repr

namespace Script

/-- The operation an atom stands for under the two flags. -/
def atomOp? (script : Script) (inverse reflected : Bool) : Atom → Option Op
  | .nop => none
  | .cycle c => some (.cycle (if inverse then c.inverse else c))
  | .turn t =>
    let t := if reflected then t.reflected script.layers else t
    some (.turn (if inverse then t.inverse else t))

/-- The order in which a list of children runs. -/
def inOrder (inverse : Bool) (ids : List Nat) : List Nat :=
  if inverse then ids.reverse else ids

/-- The work that a group leaves behind when it is run. A pairing with other than two
children does nothing. -/
def groupTasks (form : Form) (children : List Nat) (inverse reflected : Bool) : List Task :=
  match form with
  | .sequence | .wrapper .grouping | .wrapper (.shorthand _) =>
    [.each (inOrder inverse children) inverse reflected]
  | .wrapper .inversion => [.each (inOrder (!inverse) children) (!inverse) reflected]
  | .wrapper .reflection => [.each (inOrder inverse children) inverse (!reflected)]
  | .wrapper (.repetition count) =>
    [.times count (inOrder inverse children) inverse reflected]
  | .pairing p =>
    match children with
    | [a, b] =>
      [.operands
        ((p.plan inverse).map fun
          | (.first, inverse) => (a, inverse)
          | (.second, inverse) => (b, inverse))
        reflected]
    | _ => []

/-- Do one step of a task: the operation that comes out, if any, and the work that takes the place
of the task. -/
def step (script : Script) : Task → Option Op × List Task
  | .visit id inverse reflected =>
    match script.nodes[id]? with
    | none => (none, [])
    | some node =>
      match node.content with
      | .atom a => (script.atomOp? inverse reflected a, [])
      | .group form children => (none, groupTasks form children inverse reflected)
  | .each [] _ _ => (none, [])
  | .each (id :: ids) inverse reflected =>
    (none, [.visit id inverse reflected, .each ids inverse reflected])
  | .times 0 _ _ _ => (none, [])
  | .times (count + 1) ids inverse reflected =>
    (none, [.each ids inverse reflected, .times count ids inverse reflected])
  | .operands [] _ => (none, [])
  | .operands ((id, inverse) :: visits) reflected =>
    (none, [.visit id inverse reflected, .operands visits reflected])

/-- A bound on the steps that running a node takes, given such bounds for earlier nodes. -/
def contentEffort (efforts : Array Nat) : Content → Nat
  | .atom _ => 1
  | .group form children =>
    let once := children.foldr (fun id total => 1 + efforts.getD id 1 + total) 1
    match form with
    | .wrapper (.repetition count) => count * (once + 1) + 2
    | .pairing _ => 2 * once + 2
    | _ => once + 1

/-- A bound on the steps that running each node takes, if nodes only name earlier ones. -/
def efforts (script : Script) : Array Nat :=
  script.nodes.foldl (fun efforts node => efforts.push (contentEffort efforts node.content)) #[]

/-- A bound on the steps that running a node takes, if nodes only name earlier ones. -/
def effort (script : Script) (id : Nat) : Nat := script.efforts.getD id 1

end Script

/-- A script on the way to being resolved: the work left, the next task first, and the number
of steps left to do it in. -/
structure Resolver where
  script : Script
  stack : List Task
  budget : Nat

namespace Resolver

/-- The steps that a script is given beyond those it needs if its nodes only name earlier
ones. -/
def patience : Nat := 0x100000000

/-- Work through a stack up to the next operation. Gives the operation, the steps left after it
and the work left after it. -/
def advance (script : Script) : Nat → List Task → Option (Op × Nat × List Task)
  | 0, _ => none
  | _ + 1, [] => none
  | budget + 1, task :: stack =>
    match script.step task with
    | (some op, work) => some (op, budget, work ++ stack)
    | (none, work) => advance script budget (work ++ stack)

theorem advance_budget_lt {script : Script} {budget : Nat} {stack : List Task} {op : Op}
    {left : Nat} {work : List Task} (h : advance script budget stack = some (op, left, work)) :
    left < budget := by
  induction budget generalizing stack with
  | zero => simp [advance] at h
  | succ budget ih =>
    cases stack with
    | nil => simp [advance] at h
    | cons task stack =>
      simp only [advance] at h
      split at h
      · simp only [Option.some.injEq, Prod.mk.injEq] at h
        omega
      · exact Nat.lt_succ_of_lt (ih h)

/-- The next operation and what is left after it. -/
def next? (r : Resolver) : Option (Op × Resolver) :=
  (advance r.script r.budget r.stack).map fun (op, budget, stack) =>
    (op, { r with stack, budget })

theorem next?_budget_lt {r s : Resolver} {op : Op} (h : r.next? = some (op, s)) :
    s.budget < r.budget := by
  simp only [next?, Option.map_eq_some_iff] at h
  obtain ⟨⟨_, left, _⟩, h, heq⟩ := h
  cases heq
  exact advance_budget_lt h

/-- All operations that are left. -/
def toList (r : Resolver) : List Op :=
  match _ : r.next? with
  | none => []
  | some (op, s) => op :: s.toList
termination_by r.budget
decreasing_by exact next?_budget_lt (by assumption)

/-- The first operations, at most `limit` of them, and whether another one follows. -/
def take : (limit : Nat) → Resolver → List Op × Bool
  | 0, r => ([], r.next?.isSome)
  | limit + 1, r =>
    match r.next? with
    | none => ([], false)
    | some (op, s) =>
      let (ops, more) := s.take limit
      (op :: ops, more)

/-- Combine the operations in order, starting from a value. -/
def foldl {α : Type} (f : α → Op → α) (a : α) (r : Resolver) : α :=
  match _ : r.next? with
  | none => a
  | some (op, s) => s.foldl f (f a op)
termination_by r.budget
decreasing_by exact next?_budget_lt (by assumption)

end Resolver

namespace Script

/-- The operations of a node, forwards or undone. -/
def resolveNode (script : Script) (id : Nat) (inverse : Bool) : Resolver where
  script := script
  stack := [.visit id inverse false]
  budget := script.effort id + Resolver.patience

/-- The operations of a script, forwards or undone. -/
def resolve (script : Script) (inverse : Bool) : Resolver :=
  script.resolveNode script.root inverse

end Script

end CubeScript
