import CubeScript.Proofs.Script.History
import CubeScript.Proofs.Script.Reflecting

/-!
# Scripts that run to their end

An operation can be done on every valid cube of some size, or on none: a turn needs a mask of layers
that the cube has, and a cycle needs places that it has (`Op.Fits`). If a cycle names faces that do
not exist, it also depends on the twists on the cube. This is kept when an operation is undone, and
when a turn is reflected, since the layers of a cube change among themselves. So all operations of a
script fit if its turns and cycles do, whatever is around them, and the script never stops early,
run or undone.
-/

namespace CubeScript

namespace LayerMask

theorem within_iff_toNat_lt {mask : LayerMask} {n : Nat} : mask.Within n ↔ mask.toNat < 2 ^ n := by
  rw [Within, ← BitVec.toNat_inj, BitVec.toNat_ushiftRight, Nat.shiftRight_eq_div_pow]
  exact Nat.div_eq_zero_iff_lt (Nat.two_pow_pos n)

theorem ne_zero_iff {mask : LayerMask} : mask ≠ 0 ↔ ∃ i, mask.getLsbD i = true := by
  constructor
  · intro filled
    by_contra none
    refine filled (BitVec.eq_of_getLsbD_eq fun i _ => ?_)
    rw [Bool.eq_false_iff.2 fun set => none ⟨i, set⟩]
    simp
  · rintro ⟨i, set⟩ rfl
    simp at set

end LayerMask

/-- Whether an operation is for cubes of some size: a turn of one or more of their layers, or a
cycle through places that they have. -/
def Op.Fits (size : Size) : Op → Prop
  | .turn t => t.axis.index ≤ 2 ∧ 1 ≤ t.layers.toNat ∧ t.layers.toNat < 2 ^ size.layers
  | .cycle c => ∀ item ∈ c.items, item.place < size.count c.kind

namespace Op

instance (size : Size) : (op : Op) → Decidable (op.Fits size)
  | .turn _ => inferInstanceAs (Decidable (_ ∧ _ ∧ _))
  | .cycle c => inferInstanceAs (Decidable (∀ item ∈ c.items, _ < _))

variable {size : Size}

theorem fits_turn_iff {t : Turn} :
    (turn t).Fits size ↔ t.layers ≠ 0 ∧ t.layers.Within size.layers := by
  have axis : t.axis.index ≤ 2 := by cases t.axis <;> decide
  have filled : t.layers ≠ 0 ↔ 1 ≤ t.layers.toNat := by
    rw [ne_eq, ← BitVec.toNat_inj, Nat.one_le_iff_ne_zero]
    rfl
  rw [Fits, filled, LayerMask.within_iff_toNat_lt]
  exact and_iff_right axis

/-- A turn can be made exactly if it fits. -/
theorem exists_apply_turn_iff {t : Turn} {cube : Cube} :
    (∃ after, (turn t).apply cube = .ok after) ↔ (turn t).Fits cube.size := by
  rw [fits_turn_iff, apply, Turn.apply, Cube.transform, Axis.ofIndex?_index]
  dsimp only
  split
  · rename_i refused
    refine iff_of_false (fun ⟨_, done⟩ => nomatch done) ?_
    rintro ⟨filled, within⟩
    exact refused.elim filled (absurd within)
  · rename_i selected
    rw [not_or, not_not] at selected
    exact iff_of_true ⟨_, rfl⟩ selected

/-- A turn that does not fit is refused for its layers. -/
theorem apply_turn_of_not_fits {t : Turn} {cube : Cube} (refused : ¬ (turn t).Fits cube.size) :
    (turn t).apply cube = .error (.maskOutOfRange t.layers cube.size.layers) := by
  have wrong : t.layers = 0 ∨ ¬ t.layers.Within cube.size.layers := by
    rw [fits_turn_iff] at refused
    tauto
  rw [apply, Turn.apply, Cube.transform, Axis.ofIndex?_index]
  exact if_pos wrong

/-- Only an operation that fits can be done on a valid cube. -/
theorem fits_of_apply {op : Op} {cube after : Cube} (valid : cube.Valid)
    (applied : op.apply cube = .ok after) : op.Fits cube.size := by
  cases op with
  | turn t => exact exists_apply_turn_iff.1 ⟨after, applied⟩
  | cycle c => exact ((Cycle.apply_eq_ok_iff valid).1 applied).1

/-- An operation that fits can be done on a valid cube if it names only faces that exist. -/
theorem exists_apply_of_fits {op : Op} {cube : Cube} (valid : cube.Valid)
    (oriented : op.Oriented) (fits : op.Fits cube.size) : ∃ after, op.apply cube = .ok after := by
  cases op with
  | turn t => exact exists_apply_turn_iff.2 fits
  | cycle c => exact ⟨_, (Cycle.Oriented.apply_eq_ok_iff oriented valid).2 ⟨fits, rfl⟩⟩

theorem Fits.inverse {op : Op} (fits : op.Fits size) : op.inverse.Fits size := by
  cases op with
  | turn t => exact fits
  | cycle c => exact fun item member => fits item (List.mem_reverse.1 member)

/-- The layers of a cube are reflected to layers of the cube. -/
theorem Fits.reflected {op : Op} (fits : op.Fits size) : (op.reflected size.layers).Fits size := by
  have positive := size.layers_pos
  have small := size.layers_le_width
  cases op with
  | turn t =>
    obtain ⟨filled, within⟩ := fits_turn_iff.1 fits
    rw [Op.reflected, fits_turn_iff, LayerMask.ne_zero_iff, LayerMask.within_iff]
    simp only [Turn.getLsbD_reflected positive small, Bool.and_eq_true, decide_eq_true_iff]
    constructor
    · obtain ⟨i, set⟩ := LayerMask.ne_zero_iff.1 filled
      have inside := LayerMask.within_iff.1 within i set
      refine ⟨size.layers - 1 - i, by omega, ?_⟩
      rwa [show size.layers - 1 - (size.layers - 1 - i) = i by omega]
    · exact fun i set => set.1
  | cycle c => exact fits

end Op

namespace Cube

/-- Only operations that fit are done, one after the other. -/
theorem fits_of_applyAll {cube after : Cube} (valid : cube.Valid) {ops : List Op}
    (applied : cube.applyAll ops = (after, none)) : ∀ op ∈ ops, op.Fits cube.size := by
  induction ops generalizing cube with
  | nil => exact List.forall_mem_nil _
  | cons op ops ih =>
    obtain ⟨next, done, rest⟩ := applyAll_cons_eq_iff.1 applied
    obtain ⟨validNext, size⟩ := Op.valid_apply valid done
    have fitsNext := ih validNext rest
    rw [size] at fitsNext
    exact List.forall_mem_cons.2 ⟨Op.fits_of_apply valid done, fitsNext⟩

/-- Operations that fit can be done one after the other. -/
theorem exists_applyAll_of_fits {cube : Cube} (valid : cube.Valid) {ops : List Op}
    (oriented : ∀ op ∈ ops, op.Oriented) (fits : ∀ op ∈ ops, op.Fits cube.size) :
    ∃ after, cube.applyAll ops = (after, none) := by
  induction ops generalizing cube with
  | nil => exact ⟨cube, rfl⟩
  | cons op ops ih =>
    rw [List.forall_mem_cons] at oriented fits
    obtain ⟨next, done⟩ := Op.exists_apply_of_fits valid oriented.1 fits.1
    obtain ⟨validNext, size⟩ := Op.valid_apply valid done
    obtain ⟨after, rest⟩ := ih validNext oriented.2 (size ▸ fits.2)
    exact ⟨after, applyAll_cons_eq_iff.2 ⟨next, done, rest⟩⟩

end Cube

/-- Whether an atom is for cubes of some size. -/
def Atom.Fits (size : Size) : Atom → Prop
  | .turn t => (Op.turn t).Fits size
  | .cycle c => (Op.cycle c).Fits size
  | .nop => True

theorem Atom.fits_of_mem_meaning {size : Size} {a : Atom} (fits : a.Fits size) :
    ∀ op ∈ a.meaning size.layers false false, op.Fits size := by
  intro op member
  cases a with
  | nop => cases member
  | cycle c =>
    obtain rfl := List.mem_singleton.1 member
    exact fits
  | turn t =>
    obtain rfl := List.mem_singleton.1 member
    exact fits

/-- What an operation keeps when it is undone and when it is reflected holds of all operations of an
atom if it holds of the atom as it stands. -/
theorem Atom.all_meaning {holds : Op → Prop} {layers : Nat}
    (inverse : ∀ op, holds op → holds op.inverse)
    (reflected : ∀ op, holds op → holds (op.reflected layers)) {a : Atom}
    (own : ∀ op ∈ a.meaning layers false false, holds op) : (a.meaning layers).All holds := by
  intro undone mirrored op member
  cases a with
  | nop => cases member
  | cycle c =>
    obtain rfl := List.mem_singleton.1 member
    have given : holds (.cycle c) := own _ (List.mem_singleton.2 rfl)
    cases undone with
    | false => exact given
    | true => exact inverse _ given
  | turn t =>
    obtain rfl := List.mem_singleton.1 member
    have given : holds (.turn t) := own _ (List.mem_singleton.2 rfl)
    have kept : holds (.turn (if mirrored then t.reflected layers else t)) := by
      cases mirrored with
      | false => exact given
      | true => exact reflected _ given
    cases undone with
    | false => exact kept
    | true => exact inverse _ kept

namespace Script

/-- The operations of all nodes of a script fit if its atoms do. -/
theorem fits_of_mem_resolveNode {script : Script} (ordered : script.Ordered) {size : Size}
    (layers : script.layers = size.layers)
    (atoms : ∀ node ∈ script.nodes, ∀ a, node.content = .atom a → a.Fits size) (id : Nat)
    (inverse : Bool) : ∀ op ∈ (script.resolveNode id inverse).toList, op.Fits size := by
  rw [toList_resolveNode ordered]
  refine all_meaning ordered (fun node stored a content => ?_) id inverse false
  rw [layers]
  exact Atom.all_meaning (fun _ fits => fits.inverse) (fun _ fits => fits.reflected)
    (Atom.fits_of_mem_meaning (atoms node stored a content))

/-- A script whose operations fit and name only faces that exist runs to its end on every valid cube
of its size. -/
theorem run_of_fits {script : Script} {inverse : Bool} {cube : Cube} (valid : cube.Valid)
    (layers : cube.size.layers = script.layers)
    (oriented : ∀ op ∈ (script.resolve inverse).toList, op.Oriented)
    (fits : ∀ op ∈ (script.resolve inverse).toList, op.Fits cube.size) :
    ∃ after, script.run inverse cube = (after, none) := by
  rw [run, if_neg (not_not_intro layers), Resolver.run_eq_applyAll]
  exact Cube.exists_applyAll_of_fits valid oriented fits

end Script

end CubeScript
