import CubeScript.Proofs.Script.Costs
import CubeScript.Proofs.Script.Layout
import CubeScript.Proofs.Script.Undoing
import Mathlib.Algebra.BigOperators.Group.List.Basic

/-!
# The cost of a script

Costs add up, so a script costs as much as its operations one by one, in whatever order they come
(`Script.metrics_eq_sum`). Undoing a script undoes each of its operations and turns their order
round, and neither changes the sum.

A reflection keeps the order and reflects some of the turns, each once or not at all. It need not be
the reflection of a reflection that gives the turns back: layers that the cube does not have are
dropped the first time. But they have no cost, so the list of costs stays the same as a whole.
-/

namespace CubeScript

namespace Metrics

/-! ### Adding costs -/

instance : Add Metrics where
  add a b := ⟨a.moves + b.moves, a.blockTurns + b.blockTurns, a.faceTurns + b.faceTurns,
    a.quarterTurns + b.quarterTurns⟩

instance : Zero Metrics := ⟨zero⟩

theorem add_def (a b : Metrics) : a + b = ⟨a.moves + b.moves, a.blockTurns + b.blockTurns,
    a.faceTurns + b.faceTurns, a.quarterTurns + b.quarterTurns⟩ := rfl

theorem zero_def : (0 : Metrics) = ⟨0, 0, 0, 0⟩ := rfl

instance : AddCommMonoid Metrics where
  add_assoc a b c := by simp only [add_def, Nat.add_assoc]
  zero_add a := by simp only [add_def, zero_def, Nat.zero_add]
  add_zero a := by simp only [add_def, zero_def, Nat.add_zero]
  add_comm a b := by simp only [add_def, Nat.add_comm]
  nsmul := nsmulRec

/-- The cost of one operation. -/
def ofOp (n : Nat) (op : Op) : Metrics := addOp n 0 op

theorem addOp_eq (n : Nat) (m : Metrics) (op : Op) : m.addOp n op = m + ofOp n op := by
  cases op with
  | turn t => simp only [ofOp, addOp, addTurn, add_def, zero_def, Nat.zero_add]
  | cycle c => exact (add_zero m).symm

theorem foldl_addOp (n : Nat) (m : Metrics) (ops : List Op) :
    ops.foldl (addOp n) m = m + (ops.map (ofOp n)).sum := by
  induction ops generalizing m with
  | nil => exact (add_zero m).symm
  | cons op ops ih => rw [List.foldl_cons, ih, addOp_eq, List.map_cons, List.sum_cons, add_assoc]

/-! ### Operations that cost the same -/

/-- A turn back costs as much as the turn. -/
theorem ofOp_inverse (n : Nat) (op : Op) : ofOp n op.inverse = ofOp n op := by
  cases op with
  | turn t =>
    have quarters : t.angle.inverse.quarters = t.angle.quarters := by
      rw [Angle.quarters, Angle.toInt_inverse, Int.natAbs_neg]
      rfl
    simp only [ofOp, Op.inverse, addOp, addTurn, Turn.inverse, quarters]
  | cycle c => rfl

/-- A turn of the layers across costs as much, whatever else the mask selects. -/
theorem ofOp_reflected {n : Nat} (small : n ≤ 32) (op : Op) :
    ofOp n (op.reflected n) = ofOp n op := by
  cases op with
  | turn t =>
    obtain rfl | positive := Nat.eq_zero_or_pos n
    · rfl
    · refine addTurn_congr positive small 0 t rfl (LayerMask.cuts_eq_of_mirrored fun i inside => ?_)
      rw [Turn.getLsbD_reflected positive small, decide_eq_true inside, Bool.true_and]
  | cycle c => rfl

end Metrics

open Metrics (ofOp)

/-! ### The costs of what a node stands for -/

namespace Meaning

/-- Whether turning the flag `reflected` over keeps the costs of all operations. -/
def Level (n : Nat) (m : Meaning) : Prop :=
  ∀ inverse reflected, (m inverse reflected).map (ofOp n) = (m inverse false).map (ofOp n)

theorem Level.nothing (n : Nat) : nothing.Level n := fun _ _ => rfl

theorem Level.inSequence {n : Nat} {parts : List Meaning} (each : ∀ part ∈ parts, part.Level n) :
    (inSequence parts).Level n := by
  intro inverse reflected
  simp only [Meaning.inSequence, List.map_flatMap]
  apply List.flatMap_congr
  intro part listed
  refine each part ?_ inverse reflected
  cases inverse with
  | false => exact listed
  | true => exact List.mem_reverse.1 listed

end Meaning

theorem Atom.level_meaning {n : Nat} (small : n ≤ 32) (a : Atom) : (a.meaning n).Level n := by
  intro inverse reflected
  cases a with
  | nop => rfl
  | cycle c => rfl
  | turn t =>
    have across := Metrics.ofOp_reflected small (.turn t)
    have back (t : Turn) : ofOp n (.turn t.inverse) = ofOp n (.turn t) :=
      Metrics.ofOp_inverse n (.turn t)
    cases reflected with
    | false => rfl
    | true =>
      cases inverse with
      | false => exact congrArg (fun cost => [cost]) across
      | true =>
        refine congrArg (fun cost => [cost]) ?_
        exact (back (t.reflected n)).trans (across.trans (back t).symm)

theorem Wrapper.level_meaning {n : Nat} (w : Wrapper) {parts : List Meaning}
    (each : ∀ part ∈ parts, part.Level n) : (w.meaning parts).Level n := by
  have body := Meaning.Level.inSequence each
  intro inverse reflected
  cases w with
  | grouping => exact body inverse reflected
  | shorthand name => exact body inverse reflected
  | inversion => exact body (!inverse) reflected
  | reflection => exact (body inverse (!reflected)).trans (body inverse true).symm
  | repetition count =>
    simp only [Wrapper.meaning, List.map_flatten, List.map_replicate, body inverse reflected]

theorem Pairing.level_meaning {n : Nat} (p : Pairing) {a b : Meaning} (first : a.Level n)
    (second : b.Level n) : (p.meaning a b).Level n := by
  intro inverse reflected
  cases p <;> cases inverse <;>
    simp only [Pairing.meaning, List.map_append, first _ reflected, second _ reflected]

theorem Form.level_meaning {n : Nat} (form : Form) {parts : List Meaning}
    (each : ∀ part ∈ parts, part.Level n) : (form.meaning parts).Level n := by
  cases form with
  | sequence => exact .inSequence each
  | wrapper w => exact w.level_meaning each
  | pairing p =>
    match parts with
    | [a, b] => exact p.level_meaning (each a (by simp)) (each b (by simp))
    | [] => exact .nothing n
    | [_] => exact .nothing n
    | _ :: _ :: _ :: _ => exact .nothing n

namespace Script

variable {script : Script}

/-- Reflecting a node keeps the costs of its operations, one by one. -/
theorem level_meaning (ordered : script.Ordered) (small : script.layers ≤ 32) (id : Nat) :
    (script.meaning id).Level script.layers :=
  meaning_induction ordered (.nothing script.layers) (fun _ _ a _ => a.level_meaning small)
    (fun form _ each => form.level_meaning each) id

/-! ### Whole scripts -/

/-- A script costs as much as its operations. -/
theorem metrics_eq_sum (ordered : script.Ordered) (inverse : Bool) : script.metrics inverse =
    ((script.operations inverse).map (ofOp script.layers)).sum := by
  rw [metrics, Metrics.ofResolver, Resolver.foldl_eq, Metrics.foldl_addOp, resolve,
    toList_resolveNode ordered]
  exact zero_add _

/-- Undoing a script costs as much as running it. -/
theorem metrics_not (ordered : script.Ordered) (inverse : Bool) :
    script.metrics (!inverse) = script.metrics inverse := by
  have back : ofOp script.layers ∘ Op.inverse = ofOp script.layers :=
    funext (Metrics.ofOp_inverse script.layers)
  rw [metrics_eq_sum ordered, metrics_eq_sum ordered, operations_not ordered, Op.undoing,
    List.map_reverse, List.map_map, back, List.sum_reverse]

/-- The script with one more node, that wraps the whole of it. -/
def wrapped (script : Script) (w : Wrapper) (range : Range) : Script where
  nodes := script.nodes.push ⟨.group (.wrapper w) [script.root], range⟩
  root := script.nodes.size
  layers := script.layers

theorem descends_iff : script.nodes.Descends ↔
    ∀ id < script.nodes.size, ∀ child ∈ script.children id, child < id := by
  constructor
  · intro descends id inside child member
    rw [children, Array.getElem?_eq_getElem inside] at member
    exact descends id _ (Array.getElem?_eq_getElem inside) child member
  · intro each id node stored child member
    refine each id (Array.getElem?_eq_some_iff.1 stored).1 child ?_
    rw [children, stored]
    exact member

instance (script : Script) : Decidable script.nodes.Descends := decidable_of_iff' _ descends_iff

theorem ordered_of_descends (descends : script.nodes.Descends) : script.Ordered :=
  ordered_iff.2 fun id inside child member => .inl (descends_iff.1 descends id inside child member)

section

variable (w : Wrapper) (range : Range)

/-- A root that is missing must not be the number that the new node is given. -/
theorem ordered_wrapped (descends : script.nodes.Descends)
    (other : script.root ≠ script.nodes.size) : (script.wrapped w range).Ordered := by
  intro id child member
  rw [children, wrapped, Array.getElem?_push] at member
  split at member
  · rename_i last
    have whole : child = script.root := List.mem_singleton.1 member
    simp only [wrapped, Array.size_push]
    omega
  · cases stored : script.nodes[id]? with
    | none => simp [stored] at member
    | some node =>
      rw [stored] at member
      exact .inl (descends id node stored child member)

/-- The new node stands for what the wrapper makes of the whole. -/
theorem meaning_wrapped (descends : script.nodes.Descends)
    (other : script.root ≠ script.nodes.size) :
    (script.wrapped w range).meaning (script.wrapped w range).root =
      w.meaning [script.meaning script.root] := by
  have stored : (script.wrapped w range).nodes[(script.wrapped w range).root]? =
      some ⟨.group (.wrapper w) [script.root], range⟩ := Array.getElem?_push_size
  have whole : (script.wrapped w range).meaning script.root = script.meaning script.root := by
    by_cases inside : script.root < script.nodes.size
    · exact (Arena.keeps_push _ _).meaning_eq _ script.root script.layers inside
    · have missing : (script.wrapped w range).nodes.size ≤ script.root := by
        simp only [wrapped, Array.size_push]
        omega
      rw [meaning_of_size_le missing, meaning_of_size_le (Nat.le_of_not_lt inside)]
  rw [meaning_of_group (ordered_wrapped w range descends other) stored rfl, List.map_singleton,
    whole]
  rfl

end

/-- Neither direction nor mirroring changes what a script costs: undone, and with a reflection or an
inversion of all of it for its root, it has the metrics of the script itself. A script may have a
root that does not exist, as long as it is not the node that is added. -/
theorem metrics_of_direction_and_mirroring (small : script.layers ≤ 32)
    (descends : script.nodes.Descends) :
    script.metrics true = script.metrics false ∧
      (script.root ≠ script.nodes.size → ∀ w, w = .reflection ∨ w = .inversion →
        ∀ range inverse, (script.wrapped w range).metrics inverse = script.metrics false) := by
  have ordered := ordered_of_descends descends
  have undone (inverse : Bool) : script.metrics inverse = script.metrics false := by
    cases inverse with
    | false => rfl
    | true => exact metrics_not ordered false
  refine ⟨undone true, ?_⟩
  intro other w enclosing range inverse
  have level := level_meaning ordered small script.root
  rw [metrics_eq_sum (ordered_wrapped w range descends other), operations,
    meaning_wrapped w range descends other]
  obtain rfl | rfl := enclosing
  · rw [← undone inverse, metrics_eq_sum ordered, operations, ← level inverse true]
    cases inverse <;> simp [Wrapper.meaning, Meaning.inSequence, wrapped]
  · rw [← undone (!inverse), metrics_eq_sum ordered, operations]
    cases inverse <;> simp [Wrapper.meaning, Meaning.inSequence, wrapped]

/-- A conjugation by a reflected turn, in a reflection with its operands and a cycle. Masks select
layers behind the fifth, the last. -/
def mirroredNest : Script where
  nodes := #[
    ⟨.atom (.turn ⟨.x, 0b1100010#32, .quarter⟩), ⟨0, 0⟩⟩,
    ⟨.atom (.turn ⟨.y, 0x80000005#32, .halfBack⟩), ⟨0, 0⟩⟩,
    ⟨.atom (.cycle ⟨.edge, [⟨.edge, 14, 1, "lu2"⟩, ⟨.edge, 32, 0, "fr3"⟩], .minus,
      by decide, by decide, by decide, Cycle.Sign.legal?_undoing .edge .minus⟩), ⟨0, 0⟩⟩,
    ⟨.group (.wrapper .reflection) [0], ⟨0, 0⟩⟩,
    ⟨.group (.pairing .conjugation) [3, 1], ⟨0, 0⟩⟩,
    ⟨.group (.wrapper (.repetition 3)) [4, 2], ⟨0, 0⟩⟩,
    ⟨.group (.pairing .commutation) [5], ⟨0, 0⟩⟩,
    ⟨.group (.wrapper .reflection) [0, 6, 5, 2], ⟨0, 0⟩⟩]
  root := 7
  layers := 5

theorem metrics_of_direction_and_mirroring_mirroredNest :
    mirroredNest.layers ≤ 32 ∧ mirroredNest.nodes.Descends ∧
      mirroredNest.metrics false = ⟨10, 13, 23, 32⟩ ∧
      mirroredNest.metrics true = ⟨10, 13, 23, 32⟩ ∧
      (mirroredNest.wrapped .reflection ⟨0, 9⟩).metrics false = ⟨10, 13, 23, 32⟩ ∧
      (mirroredNest.wrapped .inversion ⟨0, 9⟩).metrics false = ⟨10, 13, 23, 32⟩ := by
  have descends : mirroredNest.nodes.Descends := by decide
  have small : mirroredNest.layers ≤ 32 := by decide
  obtain ⟨backwards, wrapped⟩ := metrics_of_direction_and_mirroring small descends
  have cost : mirroredNest.metrics false = ⟨10, 13, 23, 32⟩ := by
    rw [metrics_eq_sum (ordered_of_descends descends)]
    decide +kernel
  have larger := wrapped (by decide)
  exact ⟨small, descends, cost, backwards.trans cost,
    (larger .reflection (.inl rfl) _ _).trans cost, (larger .inversion (.inr rfl) _ _).trans cost⟩

end Script

end CubeScript
