import CubeScript.Proofs.Cube.Motions
import CubeScript.Proofs.Cube.Stickers
import CubeScript.Proofs.Script.Fitting

/-!
# Symmetries of a cube

A map of the stickers of a cube may take the turns about one axis to turns about another, where the
sense may be reversed and the layers may be counted from the other end (`Sticker.Conveys`). Then
it takes all twists about the one axis to twists about the other, on every seat. This is the case
for a quarter turn of the whole cube, and for the mirror image through the center of the cube.

As seats are known from their stickers, a twist between a quarter turn of the whole cube and the
turn back is a twist about the axis that the turn takes to its own. The angle and the layers stay if
the turn takes the positive end of the one axis to that of the other, and are reversed if not.
-/

namespace CubeScript

namespace LayerMask

/-- All layers of a cube of `n` layers. -/
def all (n : Nat) : LayerMask := BitVec.ofNat 32 (2 ^ n - 1)

/-- The mask with its first `n` layers in the opposite order, and no others. -/
def reflected (n : Nat) (mask : LayerMask) : LayerMask := (mask.setWidth n).reverse.setWidth 32

theorem getLsbD_all (size : Size) {i : Nat} (inside : i < size.layers) :
    (all size.layers).getLsbD i = true := by
  have small : i < 32 := Nat.lt_of_lt_of_le inside size.layers_le_width
  rw [all, BitVec.getLsbD_ofNat, Nat.testBit_two_pow_sub_one, decide_eq_true small,
    decide_eq_true inside]
  rfl

theorem fits_all (size : Size) : all size.layers ≠ 0 ∧ (all size.layers).Within size.layers := by
  refine ⟨ne_zero_iff.2 ⟨0, getLsbD_all size size.layers_pos⟩, within_iff.2 fun i set => ?_⟩
  rw [all, BitVec.getLsbD_ofNat, Nat.testBit_two_pow_sub_one, Bool.and_eq_true] at set
  exact of_decide_eq_true set.2

theorem getLsbD_reflected {n : Nat} (small : n ≤ 32) (mask : LayerMask) (i : Nat) :
    (mask.reflected n).getLsbD i = (decide (i < n) && mask.getLsbD (n - 1 - i)) := by
  rw [reflected, BitVec.getLsbD_setWidth, BitVec.getLsbD_reverse, BitVec.getMsbD_eq_getLsbD,
    BitVec.getLsbD_setWidth]
  by_cases inside : i < n
  · have less : i < 32 := Nat.lt_of_lt_of_le inside small
    have place : n - 1 - i < n := by omega
    rw [decide_eq_true inside, decide_eq_true less, decide_eq_true place]
    rfl
  · rw [decide_eq_false inside, Bool.false_and, Bool.and_false]
    rfl

end LayerMask

/-- A turn is reflected by reflecting its layers. -/
theorem Turn.layers_reflected (t : Turn) (size : Size) :
    (t.reflected size.layers).layers = t.layers.reflected size.layers := by
  apply BitVec.eq_of_getLsbD_eq
  intro i _
  rw [LayerMask.getLsbD_reflected size.layers_le_width]
  exact getLsbD_reflected size.layers_pos size.layers_le_width t i

namespace Cell

/-- The cell on the other side of the center of the cube. -/
def mirrored (n : Nat) (c : Cell) : Cell := ⟨across n c.x, across n c.y, across n c.z⟩

theorem Inside.layer_lt {n : Nat} {c : Cell} (inside : c.Inside n) (axis : Axis) :
    c.layer axis < n := by
  obtain ⟨hx, hy, hz⟩ := inside
  cases axis <;> assumption

end Cell

theorem Place.layer_eq_layer_cell {size : Size} {kind : PieceKind} (visible : kind ≠ .center)
    {place : Nat} (inside : place < size.count kind) (axis : Axis) :
    layer size kind place axis = (cell size kind place).layer axis :=
  if_pos ⟨visible, inside⟩

/-- Whether a clockwise quarter turn of the whole cube about the axis `turning` takes the positive
end of the axis `turned` to the positive end of the third one. -/
def Axis.keepsEnds (turning turned : Axis) : Bool :=
  (turning, turned) ∈ [(x, z), (y, x), (z, y)]

namespace Sticker

/-- The mirror image of a sticker. -/
def mirrored (n : Nat) (s : Sticker) : Sticker := ⟨s.cell.mirrored n, s.direction.opposite⟩

/-- Whether a map of stickers takes turns about one axis to turns about another, in the same sense
if it is `kept`, and layers along the one to layers along the other, counted from the same end if
they are `aligned`. -/
structure Conveys (n : Nat) (map : Sticker → Sticker) (axis image : Axis)
    (kept aligned : Bool) : Prop where
  turn : ∀ {s : Sticker}, s.cell.Inside n → ∀ clockwise,
    (map s).turn n image (clockwise == kept) = map (s.turn n axis clockwise)
  layer : ∀ {s : Sticker}, s.cell.Inside n →
    (map s).cell.layer image =
      if aligned then s.cell.layer axis else Cell.across n (s.cell.layer axis)

/-- A mirror image is turned as the original, in the layer on the other side. -/
theorem conveys_mirrored (n : Nat) (axis : Axis) : Conveys n (mirrored n) axis axis true false where
  turn := by
    rintro ⟨⟨x, y, z⟩, direction⟩ - clockwise
    apply Sticker.ext
    · cases axis <;> cases clockwise <;> rfl
    · cases axis <;> cases clockwise <;> cases direction <;> rfl
  layer _ := by cases axis <;> rfl

/-- A quarter turn of the whole cube exchanges the two other axes. -/
theorem conveys_turn (n : Nat) {turning axis image : Axis} (differ : turning ≠ axis)
    (third : image ≠ turning ∧ image ≠ axis) :
    Conveys n (turn n turning true) axis image (turning.keepsEnds axis)
      (turning.keepsEnds axis) where
  turn := by
    rintro ⟨⟨x, y, z⟩, direction⟩ ⟨hx, hy, hz⟩ clockwise
    apply Sticker.ext
    · cases turning <;> cases axis <;> cases image <;> simp at differ third <;>
        cases clockwise <;> simp_all [turn, Cell.turn, Axis.keepsEnds, Cell.across_across]
    · cases turning <;> cases axis <;> cases image <;> simp at differ third <;>
        cases clockwise <;> cases direction <;> rfl
  layer := by
    rintro ⟨⟨x, y, z⟩, direction⟩ -
    cases turning <;> cases axis <;> cases image <;> simp at differ third <;> rfl

end Sticker

namespace Cube

section

variable {size : Size} {kind : PieceKind} (visible : kind ≠ .center)
  {map : Sticker → Sticker} {axis image : Axis} {kept aligned : Bool}
  (conveys : Sticker.Conveys size.layers map axis image kept aligned)
  {seat other : Seat} (inside : seat.InRange (size.count kind) kind.twists)
  (present : other.InRange (size.count kind) kind.twists)
  (shown : other.sticker size kind = map (seat.sticker size kind))

include visible conveys inside present shown

theorem sticker_turned (clockwise : Bool) (count : Nat) :
    (turned size kind image (clockwise == kept) count other).sticker size kind =
      map ((turned size kind axis clockwise count seat).sticker size kind) := by
  induction count generalizing seat other with
  | zero => exact shown
  | succ count ih =>
    apply ih (inRange_quarterTurned visible inside axis clockwise)
      (inRange_quarterTurned visible present image (clockwise == kept))
    rw [sticker_quarterTurned visible present, sticker_quarterTurned visible inside, shown]
    exact conveys.turn (Place.isOf_cell visible inside.1).1 clockwise

/-- The layers selected about the one axis are taken to those selected about the other. -/
theorem selected_iff_of_conveys (mask : LayerMask) :
    (if aligned then mask else mask.reflected size.layers).getLsbD
        (Place.layer size kind other.place image) =
      mask.getLsbD (Place.layer size kind seat.place axis) := by
  have cell := (Place.isOf_cell visible inside.1).1
  have layer := conveys.layer (s := seat.sticker size kind) cell
  rw [← shown] at layer
  change (Place.cell size kind other.place).layer image = if aligned then
    (Place.cell size kind seat.place).layer axis else
      Cell.across size.layers ((Place.cell size kind seat.place).layer axis) at layer
  rw [Place.layer_eq_layer_cell visible present.1, layer,
    Place.layer_eq_layer_cell visible inside.1]
  cases aligned with
  | true => rfl
  | false =>
    have low := cell.layer_lt axis
    show (mask.reflected size.layers).getLsbD (Cell.across _ _) = _
    rw [LayerMask.getLsbD_reflected size.layers_le_width, decide_eq_true (Cell.across_lt low)]
    exact congrArg mask.getLsbD (Cell.across_across low)

/-- A twist about the one axis is taken to one about the other. -/
theorem sticker_twistSeat (mask : LayerMask) (angle : Int) :
    (twistSeat size kind image (if aligned then mask else mask.reflected size.layers)
        (if kept then angle else -angle) other).sticker size kind =
      map ((twistSeat size kind axis mask angle seat).sticker size kind) := by
  have turns : turned size kind image true ((if kept then angle else -angle) % 4).toNat other =
      turned size kind image (true == kept) (angle % 4).toNat other := by
    cases kept with
    | true => rfl
    | false => exact (turned_not visible image true angle present).symm
  rw [twistSeat, twistSeat, selected_iff_of_conveys visible conveys inside present shown, turns]
  split
  · exact sticker_turned visible conveys inside present shown true _
  · exact shown

end

section

variable {size : Size} {kind : PieceKind} (visible : kind ≠ .center) (axis : Axis) {seat : Seat}
  (inside : seat.InRange (size.count kind) kind.twists)

include visible inside

/-- A quarter turn of all layers moves every piece. -/
theorem twistSeat_all : twistSeat size kind axis (.all size.layers) 1 seat =
    quarterTurned size kind axis true seat := by
  have low := (Place.isOf_cell visible inside.1).1.layer_lt axis
  rw [twistSeat, Place.layer_eq_layer_cell visible inside.1,
    if_pos (LayerMask.getLsbD_all size low)]
  rfl

theorem twistSeat_all_back : twistSeat size kind axis (.all size.layers) (-1) seat =
    quarterTurned size kind axis false seat := by
  have low := (Place.isOf_cell visible inside.1).1.layer_lt axis
  rw [twistSeat, Place.layer_eq_layer_cell visible inside.1,
    if_pos (LayerMask.getLsbD_all size low)]
  exact turned_three visible axis true inside

/-- A twist between a quarter turn of the whole cube and the turn back is a twist about the third
axis. -/
theorem twistSeat_between {turning image : Axis} (differ : turning ≠ axis)
    (third : image ≠ turning ∧ image ≠ axis) (mask : LayerMask) (angle : Int) :
    twistSeat size kind turning (.all size.layers) (-1)
        (twistSeat size kind image
          (if turning.keepsEnds axis then mask else mask.reflected size.layers)
          (if turning.keepsEnds axis then angle else -angle)
          (twistSeat size kind turning (.all size.layers) 1 seat)) =
      twistSeat size kind axis mask angle seat := by
  have conveys := Sticker.conveys_turn size.layers differ third
  have start := inRange_quarterTurned visible inside turning true
  have twisted := (rigid_twistSeat visible axis mask angle).inRange inside
  have goal := inRange_quarterTurned visible twisted turning true
  have shown := sticker_twistSeat visible conveys inside start
    (sticker_quarterTurned visible inside turning true) mask angle
  rw [← sticker_quarterTurned visible twisted] at shown
  have moved := (rigid_twistSeat visible image
    (if turning.keepsEnds axis then mask else mask.reflected size.layers)
    (if turning.keepsEnds axis then angle else -angle)).inRange start
  rw [twistSeat_all visible turning inside, Seat.eq_of_sticker visible moved goal shown,
    twistSeat_all_back visible turning goal]
  exact quarterTurned_back visible twisted turning true

end

theorem twistBy_between {cube : Cube} (valid : cube.Valid) {turning axis image : Axis}
    (differ : turning ≠ axis) (third : image ≠ turning ∧ image ≠ axis) (mask : LayerMask)
    (angle : Int) :
    ((cube.twistBy turning (.all cube.size.layers) 1).twistBy image
        (if turning.keepsEnds axis then mask else mask.reflected cube.size.layers)
        (if turning.keepsEnds axis then angle else -angle)).twistBy turning
          (.all cube.size.layers) (-1) =
      cube.twistBy axis mask angle := by
  have validTurned := valid_twistBy valid turning (.all cube.size.layers) 1
  have validTwisted := valid_twistBy validTurned image
    (if turning.keepsEnds axis then mask else mask.reflected cube.size.layers)
    (if turning.keepsEnds axis then angle else -angle)
  apply ext_seats
  · simp only [size_twistBy]
  · intro kind visible
    rw [seats_twistBy visible turning validTwisted, seats_twistBy visible image validTurned,
      seats_twistBy visible turning valid, seats_twistBy visible axis valid]
    rw [List.map_map, List.map_map, size_twistBy, size_twistBy]
    apply List.map_congr_left
    intro seat member
    exact twistSeat_between visible axis ((valid kind).inRange member) differ third mask angle

/-- A twist between a clockwise quarter turn of the whole cube and the turn back gives the same as a
twist about the third axis, with the layers counted from the other end and the opposite angle if the
turn exchanges the ends. -/
theorem transform_between {cube : Cube} (valid : cube.Valid) {turning axis image : Axis}
    (differ : turning ≠ axis) (third : image ≠ turning ∧ image ≠ axis) {mask : LayerMask}
    (filled : 1 ≤ mask.toNat) (within : mask.toNat < 2 ^ cube.size.layers) (angle : Int) :
    ∃ turned twisted after,
      cube.transform turning.index (.all cube.size.layers) 1 = .ok turned ∧
      turned.transform image.index
        (if turning.keepsEnds axis then mask else mask.reflected cube.size.layers)
        (if turning.keepsEnds axis then angle else -angle) = .ok twisted ∧
      twisted.transform turning.index (.all cube.size.layers) (-1) = .ok after ∧
      cube.transform axis.index mask angle = .ok after := by
  have small : axis.index ≤ 2 := by cases axis <;> decide
  have fits : (Op.turn ⟨axis, mask, .quarter⟩).Fits cube.size := ⟨small, filled, within⟩
  have whole := LayerMask.fits_all cube.size
  refine ⟨_, _, cube.twistBy axis mask angle, transform_eq_ok_iff.2 ⟨whole, rfl⟩,
    transform_eq_ok_iff.2 ⟨?_, rfl⟩, transform_eq_ok_iff.2 ⟨?_, ?_⟩,
    transform_eq_ok_iff.2 ⟨Op.fits_turn_iff.1 fits, rfl⟩⟩
  · rw [size_twistBy]
    cases turning.keepsEnds axis with
    | true => exact Op.fits_turn_iff.1 fits
    | false =>
      have reflected := Op.fits_turn_iff.1 fits.reflected
      rwa [Turn.layers_reflected] at reflected
  · rw [size_twistBy, size_twistBy]
    exact whole
  · exact (twistBy_between valid differ third mask angle).symm

/-- The two lower layers of a cube of four layers are turned back where the two front ones are. -/
theorem transform_between_lowerLayers :
    ((solved ⟨4, by decide, by decide⟩).twistBy .z 4#32 1).Valid ∧ Axis.x ≠ .y ∧
      (Axis.z ≠ .x ∧ Axis.z ≠ .y) ∧ 1 ≤ (3#32).toNat ∧ (3#32).toNat < 2 ^ 4 ∧
      ∃ turned twisted after,
        ((solved ⟨4, by decide, by decide⟩).twistBy .z 4#32 1).transform 0 15#32 1 = .ok turned ∧
        turned.transform 2 12#32 1 = .ok twisted ∧
        twisted.transform 0 15#32 (-1) = .ok after ∧
        ((solved ⟨4, by decide, by decide⟩).twistBy .z 4#32 1).transform 1 3#32 (-1) =
          .ok after := by
  have valid := valid_twistBy (valid_solved ⟨4, by decide, by decide⟩) .z 4#32 1
  have differ : Axis.x ≠ .y := by decide
  have third : Axis.z ≠ .x ∧ Axis.z ≠ .y := by decide
  have filled : 1 ≤ (3#32).toNat := by decide
  have within : (3#32).toNat < 2 ^ 4 := by decide
  have between := transform_between valid differ third filled within (-1)
  have size : ((solved ⟨4, by decide, by decide⟩).twistBy .z 4#32 1).size.layers = 4 := by
    rw [size_twistBy]
    rfl
  have whole : LayerMask.all 4 = 15#32 := by decide
  have front : LayerMask.reflected 4 3#32 = 12#32 := by decide +kernel
  have exchanged : Axis.keepsEnds .x .y = false := by decide
  simp only [size, whole, front, exchanged] at between
  exact ⟨valid, differ, third, filled, within, between⟩

end Cube

end CubeScript
