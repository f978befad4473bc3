import CubeScript.Proofs.Script.Meaning
import CubeScript.Script.Run
import Mathlib.Data.List.Induction

/-!
# A resolver lists the meaning of its node

Two things are said about one step on a stack of tasks. It keeps the operations the stack stands
for: what comes out, followed by what the new tasks stand for, is what the old task stood for. And
it lowers the effort of the stack, the bound on the steps that are left. From these,
`Script.toList_resolveNode` follows: the budget of a resolver is never used up before the work is
done. Running a script and folding over it are then functions of the same list.
-/

namespace CubeScript

namespace Task

/-- The operations that a task stands for. -/
def operations (script : Script) : Task → List Op
  | .visit id inverse reflected => script.meaning id inverse reflected
  | .each ids inverse reflected => ids.flatMap fun id => script.meaning id inverse reflected
  | .times count ids inverse reflected =>
    (List.replicate count (ids.flatMap fun id => script.meaning id inverse reflected)).flatten
  | .operands visits reflected =>
    visits.flatMap fun (id, inverse) => script.meaning id inverse reflected

/-- The operations that a stack of tasks stands for. -/
def allOperations (script : Script) (stack : List Task) : List Op :=
  stack.flatMap (operations script)

@[simp] theorem allOperations_nil (script : Script) : allOperations script [] = [] := rfl

@[simp] theorem allOperations_cons (script : Script) (task : Task) (stack : List Task) :
    allOperations script (task :: stack) =
      task.operations script ++ allOperations script stack := rfl

@[simp] theorem allOperations_append (script : Script) (first second : List Task) :
    allOperations script (first ++ second) =
      allOperations script first ++ allOperations script second := by
  simp [allOperations]

end Task

namespace Script

theorem atomOp?_toList (script : Script) (inverse reflected : Bool) (a : Atom) :
    (script.atomOp? inverse reflected a).toList = a.meaning script.layers inverse reflected := by
  cases a <;> rfl

theorem flatMap_inOrder (script : Script) (children : List Nat) (inverse reflected : Bool) :
    ((inOrder inverse children).flatMap fun id => script.meaning id inverse reflected) =
      Meaning.inSequence (children.map script.meaning) inverse reflected := by
  cases inverse <;>
    simp [inOrder, Meaning.inSequence, ← List.map_reverse, List.flatMap_map]

/-- The work that a group leaves behind is what its form makes of its children. -/
theorem allOperations_groupTasks (script : Script) (form : Form) (children : List Nat)
    (inverse reflected : Bool) :
    Task.allOperations script (groupTasks form children inverse reflected) =
      form.meaning (children.map script.meaning) inverse reflected := by
  cases form with
  | sequence =>
    simp [groupTasks, Task.operations, Form.meaning, flatMap_inOrder]
  | wrapper w =>
    cases w <;>
      simp [groupTasks, Task.operations, Form.meaning, Wrapper.meaning, flatMap_inOrder]
  | pairing p =>
    match children with
    | [a, b] =>
      cases p <;> cases inverse <;>
        simp [groupTasks, Task.operations, Form.meaning, Pairing.meaning, Pairing.plan]
    | [] => rfl
    | [_] => rfl
    | _ :: _ :: _ :: _ => rfl

/-- A step keeps the operations that a task stands for. -/
theorem operations_step {script : Script} (ordered : script.Ordered) (task : Task) :
    (script.step task).1.toList ++ Task.allOperations script (script.step task).2 =
      task.operations script := by
  cases task with
  | visit id inverse reflected =>
    cases stored : script.nodes[id]? with
    | none =>
      have missing := Array.getElem?_eq_none_iff.1 stored
      simp [step, stored, Task.operations, meaning_of_size_le missing, Meaning.nothing]
    | some node =>
      cases content : node.content with
      | atom a =>
        simp [step, stored, content, Task.operations, meaning_of_atom stored content,
          atomOp?_toList]
      | group form children =>
        simp [step, stored, content, Task.operations, meaning_of_group ordered stored content,
          allOperations_groupTasks]
  | each ids inverse reflected => cases ids <;> simp [step, Task.operations]
  | times count ids inverse reflected =>
    cases count <;> simp [step, Task.operations, List.replicate_succ]
  | operands visits reflected => cases visits <;> simp [step, Task.operations]

/-! ### The effort of a stack -/

/-- The effort of running some nodes one after the other. -/
def roundEffort (script : Script) (ids : List Nat) : Nat :=
  ids.foldr (fun id total => 1 + script.effort id + total) 1

@[simp] theorem roundEffort_nil (script : Script) : script.roundEffort [] = 1 := rfl

@[simp] theorem roundEffort_cons (script : Script) (id : Nat) (ids : List Nat) :
    script.roundEffort (id :: ids) = 1 + script.effort id + script.roundEffort ids := rfl

theorem roundEffort_append (script : Script) (first second : List Nat) :
    script.roundEffort (first ++ second) + 1 =
      script.roundEffort first + script.roundEffort second := by
  induction first with
  | nil => simp [Nat.add_comm]
  | cons id first ih =>
    simp only [List.cons_append, roundEffort_cons]
    omega

@[simp] theorem roundEffort_inOrder (script : Script) (inverse : Bool) (ids : List Nat) :
    script.roundEffort (inOrder inverse ids) = script.roundEffort ids := by
  cases inverse with
  | false => rfl
  | true =>
    change script.roundEffort ids.reverse = script.roundEffort ids
    induction ids with
    | nil => rfl
    | cons id ids ih =>
      have := script.roundEffort_append ids.reverse [id]
      simp only [List.reverse_cons, roundEffort_cons, roundEffort_nil] at *
      omega

/-- The efforts of some nodes, each computed from those of the nodes before it. -/
def effortsOf (nodes : List Node) : Array Nat :=
  nodes.foldl (fun efforts node => efforts.push (contentEffort efforts node.content)) #[]

theorem efforts_eq_effortsOf (script : Script) :
    script.efforts = effortsOf script.nodes.toList := by
  simp [efforts, effortsOf]

@[simp] theorem effortsOf_concat (nodes : List Node) (node : Node) :
    effortsOf (nodes ++ [node]) =
      (effortsOf nodes).push (contentEffort (effortsOf nodes) node.content) := by
  simp [effortsOf]

@[simp] theorem size_effortsOf (nodes : List Node) : (effortsOf nodes).size = nodes.length := by
  induction nodes using List.reverseRecOn with
  | nil => rfl
  | append_singleton nodes node ih => simp [ih]

/-- Nodes that come later do not change the effort of a node. -/
theorem getD_effortsOf_append (nodes later : List Node) {id : Nat} (earlier : id < nodes.length) :
    (effortsOf (nodes ++ later)).getD id 1 = (effortsOf nodes).getD id 1 := by
  induction later using List.reverseRecOn with
  | nil => simp
  | append_singleton later node ih =>
    have bound : id < (effortsOf (nodes ++ later)).size := by
      rw [size_effortsOf, List.length_append]
      omega
    rw [← ih, ← List.append_assoc, effortsOf_concat, Array.getD_eq_getD_getElem?,
      Array.getD_eq_getD_getElem?, Array.getElem?_push_lt bound, Array.getElem?_eq_getElem bound]

/-- The effort of a dangling number is one, for the step that finds no node. -/
theorem effort_of_size_le {script : Script} {id : Nat} (missing : script.nodes.size ≤ id) :
    script.effort id = 1 := by
  have outside : (effortsOf script.nodes.toList)[id]? = none := by
    rw [Array.getElem?_eq_none_iff, size_effortsOf]
    exact missing
  rw [effort, efforts_eq_effortsOf, Array.getD_eq_getD_getElem?, outside]
  rfl

/-- The effort of a node only depends on the efforts of its children. -/
theorem contentEffort_congr {efforts others : Array Nat} {content : Content}
    (same : ∀ child ∈ content.children, efforts.getD child 1 = others.getD child 1) :
    contentEffort efforts content = contentEffort others content := by
  cases content with
  | atom a => rfl
  | group form children =>
    have round : children.foldr (fun id total => 1 + efforts.getD id 1 + total) 1 =
        children.foldr (fun id total => 1 + others.getD id 1 + total) 1 := by
      change ∀ child ∈ children, _ at same
      induction children with
      | nil => rfl
      | cons child children ih =>
        rw [List.foldr_cons, List.foldr_cons, same child (by simp),
          ih fun other member => same other (by simp [member])]
    simp only [contentEffort, round]

/-- In an ordered script the effort of a node is computed from the final efforts of its
children. -/
theorem effort_of_stored {script : Script} (ordered : script.Ordered) {id : Nat} {node : Node}
    (stored : script.nodes[id]? = some node) :
    script.effort id = contentEffort script.efforts node.content := by
  obtain ⟨before, after, split, rfl⟩ : ∃ before after,
      script.nodes.toList = before ++ node :: after ∧ before.length = id := by
    obtain ⟨bound, found⟩ := List.getElem?_eq_some_iff.1 (Array.getElem?_toList.trans stored)
    refine ⟨script.nodes.toList.take id, script.nodes.toList.drop (id + 1), ?_, ?_⟩
    · rw [← found, ← List.drop_eq_getElem_cons bound, List.take_append_drop]
    · rw [List.length_take, Nat.min_eq_left (Nat.le_of_lt bound)]
  have all : script.efforts = effortsOf (before ++ node :: after) := by
    rw [efforts_eq_effortsOf, split]
  have own : script.effort before.length = contentEffort (effortsOf before) node.content := by
    rw [effort, all, List.append_cons, getD_effortsOf_append _ _ (by simp), effortsOf_concat,
      Array.getD_eq_getD_getElem?, ← size_effortsOf before, Array.getElem?_push_size]
    rfl
  rw [own]
  apply contentEffort_congr
  intro child member
  rcases ordered before.length child (by simpa [Script.children, stored] using member) with
    earlier | missing
  · rw [all, getD_effortsOf_append _ _ earlier]
  · change _ = script.effort child
    rw [effort_of_size_le missing, Array.getD_eq_getD_getElem?, Array.getElem?_eq_none]
    · rfl
    · have := (Array.getElem?_eq_some_iff.1 stored).1
      rw [size_effortsOf]
      omega

end Script

namespace Task

/-- A bound on the steps that a task takes, itself included. -/
def effort (script : Script) : Task → Nat
  | .visit id _ _ => script.effort id
  | .each ids _ _ => script.roundEffort ids
  | .times count ids _ _ => count * (script.roundEffort ids + 1) + 1
  | .operands visits _ => script.roundEffort (visits.map Prod.fst)

/-- A bound on the steps that a stack of tasks takes. -/
def totalEffort (script : Script) (stack : List Task) : Nat :=
  stack.foldr (fun task total => task.effort script + total) 0

@[simp] theorem totalEffort_nil (script : Script) : totalEffort script [] = 0 := rfl

@[simp] theorem totalEffort_cons (script : Script) (task : Task) (stack : List Task) :
    totalEffort script (task :: stack) = task.effort script + totalEffort script stack := rfl

@[simp] theorem totalEffort_append (script : Script) (first second : List Task) :
    totalEffort script (first ++ second) =
      totalEffort script first + totalEffort script second := by
  induction first with
  | nil => simp
  | cons task first ih => simp only [List.cons_append, totalEffort_cons, ih, Nat.add_assoc]

end Task

namespace Script

theorem totalEffort_groupTasks_lt (script : Script) (form : Form) (children : List Nat)
    (inverse reflected : Bool) :
    Task.totalEffort script (groupTasks form children inverse reflected) <
      contentEffort script.efforts (.group form children) := by
  cases form with
  | sequence =>
    change _ < script.roundEffort children + 1
    simp [groupTasks, Task.effort]
  | wrapper w =>
    cases w with
    | repetition count =>
      change _ < count * (script.roundEffort children + 1) + 2
      simp [groupTasks, Task.effort]
    | _ =>
      change _ < script.roundEffort children + 1
      simp [groupTasks, Task.effort]
  | pairing p =>
    change _ < 2 * script.roundEffort children + 2
    obtain _ | ⟨a, _ | ⟨b, _ | ⟨_, _⟩⟩⟩ := children
    · simp [groupTasks]
    · simp [groupTasks]
    · cases p <;> cases inverse <;>
        simp [groupTasks, Pairing.plan, Task.effort] <;> omega
    · simp [groupTasks]

/-- A step lowers the effort. -/
theorem totalEffort_step_lt {script : Script} (ordered : script.Ordered) (task : Task) :
    Task.totalEffort script (script.step task).2 < task.effort script := by
  cases task with
  | visit id inverse reflected =>
    cases stored : script.nodes[id]? with
    | none =>
      have missing := Array.getElem?_eq_none_iff.1 stored
      simp [step, stored, Task.effort, effort_of_size_le missing]
    | some node =>
      rw [Task.effort, effort_of_stored ordered stored]
      cases content : node.content with
      | atom a => simp [step, stored, content, contentEffort]
      | group form children =>
        simpa [step, stored, content] using
          script.totalEffort_groupTasks_lt form children inverse reflected
  | each ids inverse reflected =>
    cases ids with
    | nil => simp [step, Task.effort]
    | cons id ids =>
      simp only [step, Task.effort, Task.totalEffort_cons, Task.totalEffort_nil,
        roundEffort_cons]
      omega
  | times count ids inverse reflected =>
    cases count with
    | zero => simp [step, Task.effort]
    | succ count =>
      simp only [step, Task.effort, Task.totalEffort_cons, Task.totalEffort_nil, Nat.succ_mul]
      omega
  | operands visits reflected =>
    cases visits with
    | nil => simp [step, Task.effort]
    | cons visit visits =>
      simp only [step, Task.effort, Task.totalEffort_cons, Task.totalEffort_nil, List.map_cons,
        roundEffort_cons]
      omega

end Script

namespace Resolver

/-- Working through a stack with enough budget gives the first operation that the stack stands
for, and leaves a stack for the others that the rest of the budget is enough for. -/
theorem advance_spec {script : Script} (ordered : script.Ordered) {budget : Nat}
    {stack : List Task} (enough : Task.totalEffort script stack ≤ budget) :
    match advance script budget stack with
    | none => Task.allOperations script stack = []
    | some (op, left, work) =>
      Task.allOperations script stack = op :: Task.allOperations script work ∧
        Task.totalEffort script work ≤ left := by
  induction budget generalizing stack with
  | zero =>
    cases stack with
    | nil => rfl
    | cons task stack =>
      have := script.totalEffort_step_lt ordered task
      rw [Task.totalEffort_cons] at enough
      omega
  | succ budget ih =>
    cases stack with
    | nil => rfl
    | cons task stack =>
      have kept := Script.operations_step ordered task
      have lowered := Script.totalEffort_step_lt ordered task
      rw [Task.totalEffort_cons] at enough
      rw [advance, Task.allOperations_cons, ← kept]
      generalize script.step task = result at lowered
      obtain ⟨out, work⟩ := result
      dsimp only at lowered
      cases out with
      | none =>
        have less : Task.totalEffort script (work ++ stack) ≤ budget := by
          rw [Task.totalEffort_append]
          omega
        simpa using ih less
      | some op =>
        refine ⟨by simp, ?_⟩
        rw [Task.totalEffort_append]
        omega

/-- The operations that a resolver has left. -/
def operations (r : Resolver) : List Op := Task.allOperations r.script r.stack

/-- Whether a resolver is for an ordered script and its budget is enough for the work it has
left. -/
structure Ready (r : Resolver) : Prop where
  ordered : r.script.Ordered
  enough : Task.totalEffort r.script r.stack ≤ r.budget

theorem Ready.of_next? {r s : Resolver} {op : Op} (ready : r.Ready)
    (next : r.next? = some (op, s)) : r.operations = op :: s.operations ∧ s.Ready := by
  simp only [next?, Option.map_eq_some_iff] at next
  obtain ⟨⟨_, left, work⟩, advanced, result⟩ := next
  cases result
  have spec := advance_spec ready.ordered ready.enough
  rw [advanced] at spec
  exact ⟨spec.1, ready.ordered, spec.2⟩

theorem Ready.operations_eq_nil {r : Resolver} (ready : r.Ready) (done : r.next? = none) :
    r.operations = [] := by
  simp only [next?, Option.map_eq_none_iff] at done
  have spec := advance_spec ready.ordered ready.enough
  rw [done] at spec
  exact spec

theorem toList_of_done {r : Resolver} (done : r.next? = none) : r.toList = [] := by
  rw [toList]
  split
  · rfl
  · rename_i next
    rw [done] at next
    cases next

theorem toList_of_next {r s : Resolver} {op : Op} (next : r.next? = some (op, s)) :
    r.toList = op :: s.toList := by
  rw [toList]
  split
  · rename_i done
    rw [next] at done
    cases done
  · rename_i other
    rw [next] at other
    cases other
    rfl

theorem Ready.toList_eq {r : Resolver} (ready : r.Ready) : r.toList = r.operations := by
  fun_induction toList r with
  | case1 r done => rw [ready.operations_eq_nil done]
  | case2 r op s next ih =>
    obtain ⟨first, rest⟩ := ready.of_next? next
    rw [first, ih rest]

/-- Folding over a resolver is folding over the operations it lists. -/
theorem foldl_eq {α : Type} (f : α → Op → α) (a : α) (r : Resolver) :
    r.foldl f a = r.toList.foldl f a := by
  fun_induction r.foldl f a with
  | case1 a r done => rw [toList_of_done done]; rfl
  | case2 a r op s next ih =>
    rw [toList_of_next next]
    exact ih

end Resolver

/-- Do some operations one after the other, up to the first that fails. -/
def Cube.applyAll (cube : Cube) : List Op → Cube × Option Cube.Fault
  | [] => (cube, none)
  | op :: ops =>
    match op.apply cube with
    | .error fault => (cube, some fault)
    | .ok cube => cube.applyAll ops

theorem Cube.applyAll_cons_eq_iff {cube after : Cube} {op : Op} {ops : List Op} :
    cube.applyAll (op :: ops) = (after, none) ↔
      ∃ next, op.apply cube = .ok next ∧ next.applyAll ops = (after, none) := by
  rw [applyAll]
  constructor
  · intro applied
    split at applied
    · cases applied
    · rename_i next done
      exact ⟨next, done, applied⟩
  · rintro ⟨next, done, applied⟩
    rw [done]
    exact applied

/-- Running a resolver does the operations it lists, whatever script it is for. -/
theorem Resolver.run_eq_applyAll (r : Resolver) (cube : Cube) :
    r.run cube = cube.applyAll r.toList := by
  fun_induction r.run cube with
  | case1 r cube done => rw [toList_of_done done]; rfl
  | case2 r cube op s next fault failed =>
    rw [toList_of_next next, Cube.applyAll, failed]
  | case3 r cube op s next after applied ih =>
    rw [toList_of_next next, Cube.applyAll, applied]
    exact ih

theorem Resolver.Ready.run_eq {r : Resolver} (ready : r.Ready) (cube : Cube) :
    r.run cube = cube.applyAll r.operations := by
  rw [run_eq_applyAll, ready.toList_eq]

namespace Script

theorem ready_resolveNode {script : Script} (ordered : script.Ordered) (id : Nat)
    (inverse : Bool) : (script.resolveNode id inverse).Ready where
  ordered := ordered
  enough := by
    simp [resolveNode, Task.effort]

/-- The resolver for a node of an ordered script lists the meaning of the node. -/
theorem toList_resolveNode {script : Script} (ordered : script.Ordered) (id : Nat)
    (inverse : Bool) :
    (script.resolveNode id inverse).toList = script.meaning id inverse false := by
  rw [(script.ready_resolveNode ordered id inverse).toList_eq]
  simp [Resolver.operations, resolveNode, Task.operations]

/-- The operations that a script stands for, forwards or undone. -/
def operations (script : Script) (inverse : Bool) : List Op :=
  script.meaning script.root inverse false

/-- Running an ordered script on a cube of its size does its operations. -/
theorem run_eq_applyAll {script : Script} (ordered : script.Ordered) (inverse : Bool)
    {cube : Cube} (size : cube.size.layers = script.layers) :
    script.run inverse cube = cube.applyAll (script.operations inverse) := by
  rw [run, if_neg (not_not_intro size), resolve,
    (script.ready_resolveNode ordered script.root inverse).run_eq]
  simp [Resolver.operations, resolveNode, Task.operations, operations]

end Script

end CubeScript
