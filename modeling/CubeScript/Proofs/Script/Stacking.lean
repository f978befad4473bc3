import CubeScript.Proofs.Script.Iterating
import Mathlib.Logic.Function.Iterate

/-!
# How much a resolver keeps in mind

The stack grows with the depth of a script and not with what the script is resolved into. A node
leaves one task behind, a task that runs several nodes stays below the one that is being run, and a
repetition stays below the copy that is being run, with the number of those to come. That makes two
tasks for every level of the tree.

The room of a task is the number of tasks that there may be while it is worked on. The invariant of
a stack is that everything on it finds room (`Task.Fits`). One step hands on the room of a task to
the work that comes out of it, so the stack stays within the room of the node it began with.
-/

namespace CubeScript

namespace Script

/-! ### The height of a node -/

/-- The number of levels below a node. An atom has none, nor does a number without a node. A group
has one more than the highest of its children. A child that does not come before its parent counts
like one that does not exist. -/
def height (script : Script) (id : Nat) : Nat :=
  match script.nodes[id]? with
  | none => 0
  | some node =>
    match node.content with
    | .atom _ => 0
    | .group _ children =>
      (children.map fun child => if child < id then script.height child else 0).foldr max 0 + 1

/-- The height of the highest of some nodes. -/
def highest (script : Script) (ids : List Nat) : Nat := (ids.map script.height).foldr max 0

@[simp] theorem highest_nil (script : Script) : script.highest [] = 0 := rfl

@[simp] theorem highest_cons (script : Script) (id : Nat) (ids : List Nat) :
    script.highest (id :: ids) = max (script.height id) (script.highest ids) := rfl

theorem highest_le_iff {script : Script} {ids : List Nat} {most : Nat} :
    script.highest ids ≤ most ↔ ∀ id ∈ ids, script.height id ≤ most := by
  induction ids with
  | nil => simp
  | cons id ids ih => rw [highest_cons, Nat.max_le, ih, List.forall_mem_cons]

/-- Only which nodes there are matters, not their order and not how often they come. -/
theorem highest_mono {script : Script} {ids others : List Nat} (among : ids ⊆ others) :
    script.highest ids ≤ script.highest others := by
  apply highest_le_iff.2
  intro id member
  exact highest_le_iff.1 (Nat.le_refl _) id (among member)

theorem highest_inOrder (script : Script) (inverse : Bool) (ids : List Nat) :
    script.highest (inOrder inverse ids) = script.highest ids := by
  cases inverse with
  | false => rfl
  | true =>
    apply Nat.le_antisymm
    · exact highest_mono fun id => List.mem_reverse.1
    · exact highest_mono fun id => List.mem_reverse.2

theorem height_of_size_le {script : Script} {id : Nat} (missing : script.nodes.size ≤ id) :
    script.height id = 0 := by
  rw [height, Array.getElem?_eq_none missing]

theorem height_of_group {script : Script} (ordered : script.Ordered) {id : Nat} {node : Node}
    {form : Form} {children : List Nat} (stored : script.nodes[id]? = some node)
    (content : node.content = .group form children) :
    script.height id = script.highest children + 1 := by
  rw [height, stored]
  simp only [content, highest]
  congr 2
  apply List.map_congr_left
  intro child member
  obtain earlier | missing := ordered id child (children_of_group stored content ▸ member)
  · rw [if_pos earlier]
  · rw [height_of_size_le missing, ite_self]

end Script

namespace Task

/-! ### The room of a task -/

/-- The number of tasks that there are at most while a task on an empty stack is worked on. -/
def room (script : Script) : Task → Nat
  | .visit id _ _ => 2 * script.height id + 1
  | .each ids _ _ => 2 * script.highest ids + 2
  | .times _ ids _ _ => 2 * script.highest ids + 3
  | .operands visits _ => 2 * script.highest (visits.map Prod.fst) + 2

theorem room_pos (script : Script) (task : Task) : 0 < task.room script := by
  cases task <;> exact Nat.succ_pos _

/-- Whether every task of a stack has its room above the tasks below it, if there is room for `most`
tasks in all. -/
def Fits (script : Script) (most : Nat) : List Task → Prop
  | [] => True
  | task :: stack => task.room script + stack.length ≤ most ∧ Fits script most stack

namespace Fits

variable {script : Script} {most : Nat} {task : Task} {work stack : List Task}

theorem length_le (fits : Fits script most stack) : stack.length ≤ most := by
  cases stack with
  | nil => exact Nat.zero_le most
  | cons task stack =>
    have own := fits.1
    have pos := task.room_pos script
    rw [List.length_cons]
    omega

/-- Work goes on top of a stack if it fits into what the stack leaves of the room. -/
theorem append {own : Nat} (above : Fits script own work) (below : Fits script most stack)
    (enough : own + stack.length ≤ most) : Fits script most (work ++ stack) := by
  induction work with
  | nil => exact below
  | cons task work ih =>
    have fits := above.1
    refine ⟨?_, ih above.2⟩
    change _ + (work ++ stack).length ≤ most
    rw [List.length_append]
    omega

theorem single (enough : task.room script ≤ most) : Fits script most [task] :=
  ⟨enough, trivial⟩

theorem pair {other : Task} (first : task.room script + 1 ≤ most)
    (second : other.room script ≤ most) : Fits script most [task, other] :=
  ⟨first, single second⟩

end Fits

end Task

namespace Script

variable {script : Script}

/-- What a group leaves behind fits into the room for the two tasks of its level and the tasks of
its children. -/
theorem fits_groupTasks (script : Script) (form : Form) (children : List Nat)
    (inverse reflected : Bool) :
    Task.Fits script (2 * script.highest children + 3)
      (groupTasks form children inverse reflected) := by
  have turns (inverse : Bool) : 2 * script.highest (inOrder inverse children) + 2 ≤
      2 * script.highest children + 3 := by
    rw [highest_inOrder]
    omega
  cases form with
  | sequence => exact .single (turns inverse)
  | wrapper w =>
    cases w with
    | grouping => exact .single (turns inverse)
    | shorthand name => exact .single (turns inverse)
    | inversion => exact .single (turns !inverse)
    | reflection => exact .single (turns inverse)
    | repetition count =>
      refine .single (Nat.le_of_eq ?_)
      rw [Task.room, highest_inOrder]
  | pairing p =>
    match children with
    | [] => trivial
    | [_] => trivial
    | _ :: _ :: _ :: _ => trivial
    | [a, b] =>
      refine .single (Nat.add_le_add (Nat.mul_le_mul_left 2 (highest_mono ?_)) (Nat.le_succ 2))
      intro id member
      obtain ⟨visit, planned, rfl⟩ := List.mem_map.1 member
      obtain ⟨⟨operand, _⟩, _, rfl⟩ := List.mem_map.1 planned
      cases operand with
      | first => exact List.mem_cons_self
      | second => exact List.mem_cons_of_mem a List.mem_cons_self

/-- A step hands on the room of a task to the work that takes its place. -/
theorem fits_step (ordered : script.Ordered) (task : Task) :
    Task.Fits script (task.room script) (script.step task).2 := by
  cases task with
  | visit id inverse reflected =>
    cases stored : script.nodes[id]? with
    | none => simp [step, stored, Task.Fits]
    | some node =>
      cases content : node.content with
      | atom a => simp [step, stored, content, Task.Fits]
      | group form children =>
        have level := script.fits_groupTasks form children inverse reflected
        rw [Task.room, height_of_group ordered stored content]
        simpa [step, stored, content, Nat.mul_add] using level
  | each ids inverse reflected =>
    cases ids with
    | nil => trivial
    | cons id ids =>
      refine .pair ?_ ?_ <;> simp only [Task.room, highest_cons] <;> omega
  | times count ids inverse reflected =>
    cases count with
    | zero => trivial
    | succ count => exact .pair (Nat.le_refl _) (Nat.le_refl _)
  | operands visits reflected =>
    cases visits with
    | nil => trivial
    | cons visit visits =>
      refine .pair ?_ ?_ <;> simp only [Task.room, List.map_cons, highest_cons] <;> omega

/-! ### Rounds of the loop -/

/-- One round of the loop that works through a stack: the top task is taken off, and the work that a
step of it leaves is put in its place. Meanwhile there are no more tasks than before or after. It
does not matter here whether an operation comes out. -/
def round (script : Script) : List Task → List Task
  | [] => []
  | task :: stack => (script.step task).2 ++ stack

theorem fits_round (ordered : script.Ordered) {most : Nat} {stack : List Task}
    (fits : Task.Fits script most stack) : Task.Fits script most (script.round stack) := by
  cases stack with
  | nil => trivial
  | cons task stack => exact (fits_step ordered task).append fits.2 fits.1

theorem fits_iterate_round (ordered : script.Ordered) {most : Nat} {stack : List Task}
    (fits : Task.Fits script most stack) (rounds : Nat) :
    Task.Fits script most (script.round^[rounds] stack) := by
  induction rounds generalizing stack with
  | zero => exact fits
  | succ rounds ih => exact ih (fits_round ordered fits)

end Script

namespace Resolver

/-- Up to the next operation the loop goes through some rounds. -/
theorem exists_rounds_of_advance {script : Script} {budget left : Nat} {op : Op}
    {stack work : List Task} (advanced : advance script budget stack = some (op, left, work)) :
    ∃ rounds, work = script.round^[rounds + 1] stack := by
  induction budget generalizing stack with
  | zero => cases advanced
  | succ budget ih =>
    cases stack with
    | nil => cases advanced
    | cons task stack =>
      rw [advance] at advanced
      have once : script.round (task :: stack) = (script.step task).2 ++ stack := rfl
      split at advanced
      · rename_i out work stepped
        cases advanced
        exact ⟨0, by rw [Function.iterate_one, once, stepped]⟩
      · rename_i work stepped
        obtain ⟨rounds, same⟩ := ih advanced
        refine ⟨rounds + 1, ?_⟩
        rw [Function.iterate_succ_apply, once, stepped]
        exact same

theorem exists_rounds_of_next {r s : Resolver} {op : Op} (next : r.next? = some (op, s)) :
    ∃ rounds, s.stack = r.script.round^[rounds + 1] r.stack := by
  simp only [next?, Option.map_eq_some_iff] at next
  obtain ⟨_, advanced, same⟩ := next
  cases same
  exact exists_rounds_of_advance advanced

theorem fits_of_follows {r s : Resolver} {most : Nat} (ready : r.Ready)
    (fits : Task.Fits r.script most r.stack) (follows : Follows r s) :
    Task.Fits r.script most s.stack := by
  induction follows with
  | refl => exact fits
  | tail before last ih =>
    obtain ⟨op, next⟩ := last
    obtain ⟨rounds, same⟩ := exists_rounds_of_next next
    rw [same, (ready.of_follows before).2]
    exact Script.fits_iterate_round ready.ordered ih (rounds + 1)

end Resolver

namespace Script

/-- Resolving a node takes two tasks for every level below it and one more, however many operations
have been asked for before, and also between the rounds of the loop on the way to the next one. What
is left after an operation is the stack after some of these rounds. -/
theorem length_iterate_round_le {script : Script} (ordered : script.Ordered) (id : Nat)
    (inverse : Bool) (r : Resolver) (follows : Resolver.Follows (script.resolveNode id inverse) r) :
    (∀ rounds, (script.round^[rounds] r.stack).length ≤ 2 * script.height id + 1) ∧
      ∀ op s, r.next? = some (op, s) → ∃ rounds, s.stack = script.round^[rounds + 1] r.stack := by
  have ready := script.ready_resolveNode ordered id inverse
  have start : Task.Fits script (2 * script.height id + 1)
      (script.resolveNode id inverse).stack := .single (Nat.le_refl _)
  have fits := Resolver.fits_of_follows ready start follows
  refine ⟨fun rounds => (fits_iterate_round ordered fits rounds).length_le, ?_⟩
  intro op s next
  have rounds := Resolver.exists_rounds_of_next next
  rwa [(ready.of_follows follows).2] at rounds

/-- A repetition of a repetition, each as often as it may be. -/
def countlessTurns : Script where
  nodes := #[
    ⟨.atom (.turn ⟨.z, 1#32, .quarter⟩), ⟨0, 0⟩⟩,
    ⟨.group (.wrapper (.repetition 4294967295)) [0], ⟨0, 0⟩⟩,
    ⟨.group (.wrapper (.repetition 4294967295)) [1], ⟨0, 0⟩⟩]
  root := 2
  layers := 3

/-- The bound is reached on the way to the first of all these turns. -/
theorem length_iterate_round_le_countlessTurns :
    countlessTurns.Ordered ∧ countlessTurns.height 2 = 2 ∧
      (∀ r, Resolver.Follows (countlessTurns.resolveNode 2 true) r →
        ∀ rounds, (countlessTurns.round^[rounds] r.stack).length ≤ 5) ∧
      (countlessTurns.round^[6] (countlessTurns.resolveNode 2 true).stack).length = 5 := by
  have ordered : countlessTurns.Ordered := by decide
  have height : countlessTurns.height 2 = 2 := by decide +kernel
  refine ⟨ordered, height, ?_, by decide +kernel⟩
  intro r follows rounds
  have bound := (length_iterate_round_le ordered 2 true r follows).1 rounds
  rwa [height] at bound

end Script

end CubeScript
