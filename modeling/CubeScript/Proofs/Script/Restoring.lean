import CubeScript.Proofs.Cube.Cycling
import CubeScript.Proofs.Cube.Turning
import CubeScript.Proofs.Script.Undoing

/-!
# Undoing a script restores the cube

Every operation can be undone on the cube it leads to: turns by `Turn.apply_inverse`, cycles by
`Cycle.Oriented.apply_inverse`. So can every list of them, and undoing a script runs the list that undoes
it. A script that has run to its end on a valid cube can therefore always be undone, and this gives
back the cube it started from.

The one thing asked of a script besides its order is that its cycles name faces their places have.
The turn from one face to another is summed up in bytes, and for faces with large numbers the sum
may not fit, be it on the way there or on the way back.
-/

namespace CubeScript

namespace Op

/-- Whether an operation names only faces that exist. -/
def Oriented : Op → Prop
  | .turn _ => True
  | .cycle c => c.Oriented

/-- An operation can be undone on the cube it leads to. -/
theorem apply_inverse {op : Op} (oriented : op.Oriented) {cube after : Cube} (valid : cube.Valid)
    (applied : op.apply cube = .ok after) :
    after.Valid ∧ after.size = cube.size ∧ op.inverse.apply after = .ok cube := by
  cases op with
  | turn t => exact Turn.apply_inverse valid applied
  | cycle c => exact Cycle.Oriented.apply_inverse oriented valid applied

end Op

namespace Cube

theorem applyAll_append {cube middle : Cube} {first : List Op}
    (applied : cube.applyAll first = (middle, none)) (second : List Op) :
    cube.applyAll (first ++ second) = middle.applyAll second := by
  induction first generalizing cube with
  | nil =>
    cases applied
    rfl
  | cons op ops ih =>
    obtain ⟨next, done, rest⟩ := applyAll_cons_eq_iff.1 applied
    rw [List.cons_append, applyAll, done]
    exact ih rest

/-- Operations that have all been done can be undone. -/
theorem applyAll_undoing {ops : List Op} (oriented : ∀ op ∈ ops, op.Oriented) {cube after : Cube}
    (valid : cube.Valid) (applied : cube.applyAll ops = (after, none)) :
    after.Valid ∧ after.size = cube.size ∧ after.applyAll (Op.undoing ops) = (cube, none) := by
  induction ops generalizing cube with
  | nil =>
    cases applied
    exact ⟨valid, rfl, rfl⟩
  | cons op ops ih =>
    rw [List.forall_mem_cons] at oriented
    obtain ⟨next, done, rest⟩ := applyAll_cons_eq_iff.1 applied
    obtain ⟨validNext, sizeNext, undone⟩ := Op.apply_inverse oriented.1 valid done
    obtain ⟨validAfter, sizeAfter, back⟩ := ih oriented.2 validNext rest
    refine ⟨validAfter, sizeAfter.trans sizeNext, ?_⟩
    rw [Op.undoing_cons, applyAll_append back]
    exact applyAll_cons_eq_iff.2 ⟨cube, undone, rfl⟩

end Cube

namespace Meaning

/-- Whether all operations of a part name only faces that exist. -/
def Oriented (m : Meaning) : Prop := ∀ inverse reflected, ∀ op ∈ m inverse reflected, op.Oriented

end Meaning

namespace Content

/-- Whether a node that is a cycle names only faces that its places have. -/
def Oriented : Content → Prop
  | .atom (.cycle c) => c.Oriented
  | _ => True

instance : (content : Content) → Decidable content.Oriented
  | .atom (.cycle c) => inferInstanceAs (Decidable (∀ item ∈ c.items, _ < _))
  | .atom (.turn _) | .atom .nop | .group _ _ => inferInstanceAs (Decidable True)

end Content

namespace Script

/-- Whether all cycles of a script name faces that their places have. -/
def Oriented (script : Script) : Prop := ∀ node ∈ script.nodes, node.content.Oriented

instance (script : Script) : Decidable script.Oriented :=
  inferInstanceAs (Decidable (∀ node ∈ script.nodes, node.content.Oriented))

theorem oriented_meaning {script : Script} (ordered : script.Ordered)
    (oriented : script.Oriented) (id : Nat) : (script.meaning id).Oriented := by
  refine all_meaning ordered ?_ id
  intro node stored a content inverse reflected op member
  cases a with
  | nop => exact nomatch member
  | cycle c =>
    obtain rfl := List.mem_singleton.1 member
    have named : (Content.atom (.cycle c)).Oriented := content ▸ oriented node stored
    change c.Oriented at named
    cases inverse with
    | false => exact named
    | true => exact named.inverse
  | turn t =>
    obtain rfl := List.mem_singleton.1 member
    exact trivial

/-- A script that has run to its end on a valid cube can be undone, and one that has been undone
can be run. Either way the cube is again what it was at the start. -/
theorem run_not_run {script : Script} (ordered : script.Ordered) (oriented : script.Oriented)
    {cube : Cube} (valid : cube.Valid) (inverse : Bool) {after : Cube}
    (ran : script.run inverse cube = (after, none)) :
    script.run (!inverse) after = (cube, none) := by
  have size : cube.size.layers = script.layers := by
    by_contra other
    simp [run, other] at ran
  rw [run_eq_applyAll ordered inverse size] at ran
  have named : ∀ op ∈ script.operations inverse, op.Oriented :=
    oriented_meaning ordered oriented script.root inverse false
  obtain ⟨_, sameSize, undone⟩ := Cube.applyAll_undoing named valid ran
  rw [run_eq_applyAll ordered (!inverse) (by rw [sameSize, size]), operations_not ordered, undone]

/-- A script in which a commutator with a twisted cycle is rotated, undone, reflected and
repeated. -/
def nestedCommutator : Script where
  nodes := #[
    ⟨.atom (.turn ⟨.x, 4#32, .quarter⟩), ⟨0, 0⟩⟩,
    ⟨.atom (.cycle {
      kind := .corner
      items := [⟨.corner, 0, 1, "rfu"⟩, ⟨.corner, 3, 0, "dlf"⟩, ⟨.corner, 5, 2, "bdr"⟩]
      sign := .plus
      items_ne_nil := by decide
      kind_eq := by decide
      nodup_places := by decide
      legal_sign := rfl }), ⟨0, 0⟩⟩,
    ⟨.group (.pairing .commutation) [0, 1], ⟨0, 0⟩⟩,
    ⟨.atom (.turn ⟨.y, 3#32, .half⟩), ⟨0, 0⟩⟩,
    ⟨.group (.pairing .rotation) [3, 2], ⟨0, 0⟩⟩,
    ⟨.group (.wrapper .inversion) [4], ⟨0, 0⟩⟩,
    ⟨.group (.wrapper .reflection) [5, 3], ⟨0, 0⟩⟩,
    ⟨.group (.wrapper (.repetition 2)) [6, 2, 9], ⟨0, 0⟩⟩]
  root := 7
  layers := 3

theorem run_not_run_nestedCommutator :
    nestedCommutator.Ordered ∧ nestedCommutator.Oriented ∧
      (Cube.solved ⟨3, by decide, by decide⟩).Valid ∧
        ∃ after, nestedCommutator.run true (Cube.solved ⟨3, by decide, by decide⟩) = (after, none) ∧
          ¬ after.IsSolved ∧
          nestedCommutator.run false after = (Cube.solved ⟨3, by decide, by decide⟩, none) := by
  have ordered : nestedCommutator.Ordered := by decide
  have oriented : nestedCommutator.Oriented := by decide
  have ran : nestedCommutator.run true (Cube.solved ⟨3, by decide, by decide⟩) =
      ((nestedCommutator.run true (Cube.solved ⟨3, by decide, by decide⟩)).1, none) := by
    decide +kernel
  refine ⟨ordered, oriented, Cube.valid_solved _, _, ran, by decide +kernel, ?_⟩
  exact run_not_run ordered oriented (Cube.valid_solved _) true ran

end Script

end CubeScript
