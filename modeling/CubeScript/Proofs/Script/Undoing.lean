import CubeScript.Proofs.Script.Iterating
import Mathlib.Data.List.Basic

/-!
# The operations of a script that is undone

Undoing some operations means to undo each of them, the last one first. Turning the flag
`inverse` over does exactly this to the operations of a node, as values: every form keeps the
property, whatever it does to the flags and in whatever order it runs its parts. For pairings
this is a statement about the order of the operands, which is different for each of them.

So it holds of the operations that come out of the loop as well, which has its own order of work
for each direction: `Script.toList_resolveNode_not` says so of the whole list, with every angle,
item and sign.
-/

namespace CubeScript

namespace Op

@[simp] theorem inverse_inverse (op : Op) : op.inverse.inverse = op := by
  cases op <;> simp [inverse]

/-- The operations that undo some operations. -/
def undoing (ops : List Op) : List Op := (ops.map inverse).reverse

@[simp] theorem undoing_nil : undoing [] = [] := rfl

@[simp] theorem undoing_cons (op : Op) (ops : List Op) :
    undoing (op :: ops) = undoing ops ++ [op.inverse] := by
  simp [undoing]

@[simp] theorem undoing_append (first second : List Op) :
    undoing (first ++ second) = undoing second ++ undoing first := by
  simp [undoing]

@[simp] theorem undoing_undoing (ops : List Op) : undoing (undoing ops) = ops := by
  simp [undoing, List.map_reverse, Function.comp_def]

theorem undoing_flatMap {α : Type} (parts : List α) (f : α → List Op) :
    undoing (parts.flatMap f) = parts.reverse.flatMap fun part => undoing (f part) := by
  induction parts with
  | nil => rfl
  | cons part parts ih => simp [ih]

theorem undoing_flatten_replicate (count : Nat) (ops : List Op) :
    undoing (List.replicate count ops).flatten =
      (List.replicate count (undoing ops)).flatten := by
  induction count with
  | zero => rfl
  | succ count ih =>
    rw [List.replicate_succ, List.flatten_cons, undoing_append, ih, List.replicate_succ',
      List.flatten_concat]

end Op

namespace Meaning

/-- Whether turning the flag `inverse` over undoes the operations. -/
def Reversible (m : Meaning) : Prop :=
  ∀ inverse reflected, m (!inverse) reflected = Op.undoing (m inverse reflected)

theorem Reversible.nothing : nothing.Reversible := fun _ _ => rfl

/-- It is enough that running backwards undoes running forwards. -/
theorem Reversible.of_true {m : Meaning}
    (backwards : ∀ reflected, m true reflected = Op.undoing (m false reflected)) :
    m.Reversible := by
  intro inverse reflected
  cases inverse with
  | false => exact backwards reflected
  | true => rw [backwards reflected, Op.undoing_undoing]; rfl

theorem Reversible.inSequence {parts : List Meaning}
    (each : ∀ part ∈ parts, part.Reversible) : (inSequence parts).Reversible := by
  apply Reversible.of_true
  intro reflected
  change (parts.reverse.flatMap fun part => part true reflected) =
    Op.undoing (parts.flatMap fun part => part false reflected)
  rw [Op.undoing_flatMap]
  apply List.flatMap_congr
  intro part member
  exact each part (List.mem_reverse.1 member) false reflected

end Meaning

theorem Atom.reversible_meaning (layers : Nat) (a : Atom) : (a.meaning layers).Reversible := by
  apply Meaning.Reversible.of_true
  intro reflected
  cases a with
  | nop => rfl
  | cycle c => rfl
  | turn t => cases reflected <;> rfl

theorem Wrapper.reversible_meaning (w : Wrapper) {parts : List Meaning}
    (each : ∀ part ∈ parts, part.Reversible) : (w.meaning parts).Reversible := by
  intro inverse reflected
  have body := Meaning.Reversible.inSequence each
  cases w with
  | grouping => exact body inverse reflected
  | shorthand name => exact body inverse reflected
  | inversion => exact body (!inverse) reflected
  | reflection => exact body inverse (!reflected)
  | repetition count =>
    simp only [Wrapper.meaning, Op.undoing_flatten_replicate, body inverse reflected]

theorem Pairing.reversible_meaning (p : Pairing) {a b : Meaning} (first : a.Reversible)
    (second : b.Reversible) : (p.meaning a b).Reversible := by
  apply Meaning.Reversible.of_true
  intro reflected
  have ha : a true reflected = Op.undoing (a false reflected) := first false reflected
  have hb : b true reflected = Op.undoing (b false reflected) := second false reflected
  cases p <;> simp [Pairing.meaning, ha, hb]

theorem Form.reversible_meaning (form : Form) {parts : List Meaning}
    (each : ∀ part ∈ parts, part.Reversible) : (form.meaning parts).Reversible := by
  cases form with
  | sequence => exact .inSequence each
  | wrapper w => exact w.reversible_meaning each
  | pairing p =>
    match parts with
    | [a, b] => exact p.reversible_meaning (each a (by simp)) (each b (by simp))
    | [] => exact .nothing
    | [_] => exact .nothing
    | _ :: _ :: _ :: _ => exact .nothing

namespace Script

/-- Undoing a node of an ordered script undoes its operations. -/
theorem reversible_meaning {script : Script} (ordered : script.Ordered) (id : Nat) :
    (script.meaning id).Reversible :=
  meaning_induction ordered .nothing (fun _ _ a _ => a.reversible_meaning script.layers)
    (fun form _ each => form.reversible_meaning each) id

theorem operations_not {script : Script} (ordered : script.Ordered) (inverse : Bool) :
    script.operations (!inverse) = Op.undoing (script.operations inverse) :=
  script.reversible_meaning ordered script.root inverse false

/-- Resolving a node the other way round gives the inverse of every operation, the last one first,
and the loop lists these operations exactly if it lists the others. Inverting them once more gives
those back that the node had before. -/
theorem toList_resolveNode_not {script : Script} (ordered : script.Ordered) (id : Nat)
    (inverse : Bool) :
    (script.resolveNode id (!inverse)).toList =
        ((script.resolveNode id inverse).toList.map Op.inverse).reverse ∧
      ((script.resolveNode id (!inverse)).toList.map Op.inverse).reverse =
        (script.resolveNode id inverse).toList ∧
      ∀ ops, script.Lists (script.resolveNode id inverse).stack ops ↔
        script.Lists (script.resolveNode id (!inverse)).stack (ops.map Op.inverse).reverse := by
  have undone (inverse : Bool) : (script.resolveNode id (!inverse)).toList =
      Op.undoing (script.resolveNode id inverse).toList := by
    rw [toList_resolveNode ordered, toList_resolveNode ordered]
    exact reversible_meaning ordered id inverse false
  obtain ⟨_, _, lists, list⟩ := iterate_resolveNode ordered id inverse
  obtain ⟨_, _, listsNot, listNot⟩ := iterate_resolveNode ordered id (!inverse)
  have again : Op.undoing (script.resolveNode id (!inverse)).toList =
      (script.resolveNode id inverse).toList := by
    rw [undone, Op.undoing_undoing]
  refine ⟨undone inverse, again, fun ops => ?_⟩
  rw [lists, listsNot, ← list, ← listNot]
  change _ ↔ Op.undoing ops = _
  constructor
  · rintro rfl
    exact (undone inverse).symm
  · intro same
    rw [← again, ← same, Op.undoing_undoing]

/-- A commutator of signed cycles, and a conjugation that holds an inversion in a reflection. Some
of the nodes do not exist. -/
def signedNest : Script where
  nodes := #[
    ⟨.atom (.cycle ⟨.edge, [⟨.edge, 0, 1, "ru"⟩, ⟨.edge, 8, 0, "fr"⟩], .minus,
      by decide, by decide, by decide, Cycle.Sign.legal?_undoing .edge .minus⟩), ⟨0, 0⟩⟩,
    ⟨.atom (.cycle ⟨.corner, [⟨.corner, 4, 0, "ubr"⟩, ⟨.corner, 0, 2, "fur"⟩,
      ⟨.corner, 1, 1, "frd"⟩], .plus, by decide, by decide, by decide,
      Cycle.Sign.legal?_undoing .corner .minus⟩), ⟨0, 0⟩⟩,
    ⟨.group (.pairing .commutation) [0, 1], ⟨0, 0⟩⟩,
    ⟨.atom (.turn ⟨.x, 1#32, .half⟩), ⟨0, 0⟩⟩,
    ⟨.group (.wrapper .inversion) [3, 31, 1], ⟨0, 0⟩⟩,
    ⟨.group (.wrapper .reflection) [4], ⟨0, 0⟩⟩,
    ⟨.group (.pairing .conjugation) [5, 3], ⟨0, 0⟩⟩,
    ⟨.group (.wrapper (.repetition 2)) [2, 8, 6], ⟨0, 0⟩⟩]
  root := 7
  layers := 3

theorem toList_resolveNode_not_signedNest :
    signedNest.Ordered ∧ (signedNest.resolveNode 7 true).toList =
        ((signedNest.resolveNode 7 false).toList.map Op.inverse).reverse ∧
      ((signedNest.resolveNode 7 true).toList.map Op.inverse).reverse =
        (signedNest.resolveNode 7 false).toList ∧
      (∀ ops, signedNest.Lists (signedNest.resolveNode 7 false).stack ops ↔
        signedNest.Lists (signedNest.resolveNode 7 true).stack (ops.map Op.inverse).reverse) ∧
      (signedNest.resolveNode 7 true).toList.map Op.text =
        (List.replicate 2 ["(-frd,fur,ubr)", "0:100:-2", "0:1:-2", "0:100:2", "(+ubr,fur,frd)",
          "(+ubr,fur,frd)", "(-ru,fr)", "(-frd,fur,ubr)", "(-fr,ru)"]).flatten := by
  have ordered : signedNest.Ordered := ordered_iff.2 (by decide)
  obtain ⟨backwards, again, lists⟩ := toList_resolveNode_not ordered 7 false
  refine ⟨ordered, backwards, again, lists, ?_⟩
  rw [toList_resolveNode ordered]
  decide +kernel

end Script

end CubeScript
