import CubeScript.Proofs.Script.Resolving
import Mathlib.Logic.Relation

/-!
# Iterating over a script

A resolver counts its steps, so that it gives up at some point on a script whose nodes go round in a
circle. The loop inside it knows no such bound: it does a step of the task on top of the stack, and
goes on until an operation comes out or no task is left. `Script.Yields` is this loop as a relation
and `Script.Lists` is what comes of asking again and again. Both hold only of loops that end.

On an ordered script the loop ends whatever is on the stack, because every step lowers the effort of
the stack. The bound of a resolver is then never what ends it, and what is listed is the meaning of
the node.
-/

namespace CubeScript

namespace Script

/-- Whether the loop on a stack ends with a result: the next operation and the work left after it,
or nothing if the work is done. -/
inductive Yields (script : Script) : List Task → Option (Op × List Task) → Prop where
  | done : Yields script [] none
  | emit {task : Task} {stack work : List Task} {op : Op}
      (out : script.step task = (some op, work)) :
      Yields script (task :: stack) (some (op, work ++ stack))
  | silent {task : Task} {stack work : List Task} {result : Option (Op × List Task)}
      (out : script.step task = (none, work)) (later : Yields script (work ++ stack) result) :
      Yields script (task :: stack) result

/-- Whether asking for operations, until there is none, ends and gives a list. -/
inductive Lists (script : Script) : List Task → List Op → Prop where
  | nil {stack : List Task} (next : Yields script stack none) : Lists script stack []
  | cons {stack work : List Task} {op : Op} {ops : List Op}
      (next : Yields script stack (some (op, work))) (rest : Lists script work ops) :
      Lists script stack (op :: ops)

variable {script : Script} {stack : List Task}

/-- The loop has one result. -/
theorem Yields.unique {result other : Option (Op × List Task)} (first : script.Yields stack result)
    (second : script.Yields stack other) : result = other := by
  induction first with
  | done => cases second; rfl
  | emit out =>
    cases second with
    | emit outToo => cases out.symm.trans outToo; rfl
    | silent outToo _ => cases out.symm.trans outToo
  | silent out _ ih =>
    cases second with
    | emit outToo => cases out.symm.trans outToo
    | silent outToo later => cases out.symm.trans outToo; exact ih later

theorem Lists.unique {ops others : List Op} (first : script.Lists stack ops)
    (second : script.Lists stack others) : ops = others := by
  induction first generalizing others with
  | nil next =>
    cases second with
    | nil _ => rfl
    | cons nextToo _ => cases next.unique nextToo
  | cons next _ ih =>
    cases second with
    | nil nextToo => cases next.unique nextToo
    | cons nextToo rest => cases next.unique nextToo; rw [ih rest]

section

variable (ordered : script.Ordered)

include ordered

/-- With enough steps left, the loop that counts them ends as the loop that does not. -/
theorem yields_advance {budget : Nat} (enough : Task.totalEffort script stack ≤ budget) :
    script.Yields stack
      ((Resolver.advance script budget stack).map fun (op, _, work) => (op, work)) := by
  induction budget generalizing stack with
  | zero =>
    cases stack with
    | nil => exact .done
    | cons task stack =>
      have := totalEffort_step_lt ordered task
      rw [Task.totalEffort_cons] at enough
      omega
  | succ budget ih =>
    cases stack with
    | nil => exact .done
    | cons task stack =>
      have lowered := totalEffort_step_lt ordered task
      rw [Task.totalEffort_cons] at enough
      rw [Resolver.advance]
      cases stepped : script.step task with
      | mk out work =>
        rw [stepped] at lowered
        cases out with
        | some op => exact .emit stepped
        | none =>
          refine .silent stepped (ih ?_)
          rw [Task.totalEffort_append]
          dsimp only at lowered
          omega

/-- The loop ends on every stack. -/
theorem existsUnique_yields (stack : List Task) : ∃! result, script.Yields stack result :=
  ⟨_, yields_advance ordered (Nat.le_refl _), fun _ other =>
    other.unique (yields_advance ordered (Nat.le_refl _))⟩

/-- What a stack lists is what it stands for. The induction is on the effort of the stack, which the
work left after an operation has less of. -/
theorem lists_allOperations (stack : List Task) :
    script.Lists stack (Task.allOperations script stack) := by
  induction effort : Task.totalEffort script stack using Nat.strongRecOn generalizing stack with
  | ind budget ih =>
    have yields := yields_advance ordered (Nat.le_of_eq effort)
    have spec := Resolver.advance_spec ordered (Nat.le_of_eq effort)
    cases advanced : Resolver.advance script budget stack with
    | none =>
      rw [advanced] at yields spec
      rw [spec]
      exact .nil yields
    | some result =>
      obtain ⟨op, left, work⟩ := result
      rw [advanced] at yields spec
      obtain ⟨first, enough⟩ := spec
      have less := Resolver.advance_budget_lt advanced
      rw [first]
      exact .cons yields (ih _ (Nat.lt_of_le_of_lt enough less) work rfl)

theorem lists_iff {ops : List Op} :
    script.Lists stack ops ↔ ops = Task.allOperations script stack := by
  constructor
  · exact fun lists => lists.unique (lists_allOperations ordered stack)
  · rintro rfl
    exact lists_allOperations ordered stack

end

end Script

namespace Resolver

/-- Whether a resolver is what another one has become after some operations. -/
def Follows : Resolver → Resolver → Prop :=
  Relation.ReflTransGen fun r s => ∃ op, r.next? = some (op, s)

theorem Ready.yields_next {r : Resolver} (ready : r.Ready) :
    r.script.Yields r.stack (r.next?.map fun (op, s) => (op, s.stack)) := by
  have yields := Script.yields_advance ready.ordered ready.enough
  rw [next?, Option.map_map]
  exact yields

theorem script_of_next {r s : Resolver} {op : Op} (next : r.next? = some (op, s)) :
    s.script = r.script := by
  simp only [next?, Option.map_eq_some_iff] at next
  obtain ⟨_, _, same⟩ := next
  cases same
  rfl

/-- A resolver stays ready. -/
theorem Ready.of_follows {r s : Resolver} (ready : r.Ready) (follows : Follows r s) :
    s.Ready ∧ s.script = r.script := by
  induction follows with
  | refl => exact ⟨ready, rfl⟩
  | tail _ last ih =>
    obtain ⟨readyBefore, same⟩ := ih
    obtain ⟨op, next⟩ := last
    exact ⟨(readyBefore.of_next? next).2, (script_of_next next).trans same⟩

end Resolver

namespace Script

/-- Iterating over a node of an ordered script. Every time, the loop ends, and it ends with what the
resolver gives, however many operations have been asked for before. All operations together are the
meaning of the node, and no other list comes out. -/
theorem iterate_resolveNode {script : Script} (ordered : script.Ordered) (id : Nat)
    (inverse : Bool) :
    (∀ stack, ∃! result, script.Yields stack result) ∧
      (∀ r, Resolver.Follows (script.resolveNode id inverse) r →
        script.Yields r.stack (r.next?.map fun (op, s) => (op, s.stack))) ∧
      (∀ ops, script.Lists (script.resolveNode id inverse).stack ops ↔
        ops = script.meaning id inverse false) ∧
      (script.resolveNode id inverse).toList = script.meaning id inverse false := by
  have ready := script.ready_resolveNode ordered id inverse
  refine ⟨existsUnique_yields ordered, ?_, ?_, toList_resolveNode ordered id inverse⟩
  · intro r follows
    obtain ⟨readyNow, same⟩ := ready.of_follows follows
    have yields := readyNow.yields_next
    rwa [same] at yields
  · intro ops
    rw [lists_iff ordered]
    simp [resolveNode, Task.operations]

/-- A script with an empty repetition, children that do not exist and a pairing of one. -/
def brokenNest : Script where
  nodes := #[
    ⟨.atom (.turn ⟨.x, 1#32, .half⟩), ⟨0, 0⟩⟩,
    ⟨.group .sequence [0, 12], ⟨0, 0⟩⟩,
    ⟨.group (.wrapper (.repetition 4294967295)) [], ⟨0, 0⟩⟩,
    ⟨.atom (.turn ⟨.y, 3#32, .quarter⟩), ⟨0, 0⟩⟩,
    ⟨.group (.pairing .conjugation) [3], ⟨0, 0⟩⟩,
    ⟨.group (.wrapper (.repetition 2)) [4, 3], ⟨0, 0⟩⟩,
    ⟨.group (.wrapper .reflection) [5, 9], ⟨0, 0⟩⟩,
    ⟨.group (.pairing .rotation) [1, 6], ⟨0, 0⟩⟩]
  root := 7
  layers := 3

theorem iterate_resolveNode_brokenNest :
    brokenNest.Ordered ∧ (∀ stack, ∃! result, brokenNest.Yields stack result) ∧
      (∀ r, Resolver.Follows (brokenNest.resolveNode 7 true) r →
        brokenNest.Yields r.stack (r.next?.map fun (op, s) => (op, s.stack))) ∧
      (∀ ops, brokenNest.Lists [.visit 7 true false] ops ↔ ops = brokenNest.meaning 7 true false) ∧
      (brokenNest.resolveNode 7 true).toList = brokenNest.meaning 7 true false ∧
      (brokenNest.meaning 7 true false).map Op.text =
        ["0:1:-2", "1:110:-1", "1:110:-1", "0:1:2"] := by
  have ordered : brokenNest.Ordered := by decide
  obtain ⟨ends, yields, lists, list⟩ := iterate_resolveNode ordered 7 true
  exact ⟨ordered, ends, yields, lists, list, by decide +kernel⟩

end Script

end CubeScript
