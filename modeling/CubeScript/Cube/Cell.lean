import CubeScript.Cube.Face

/-!
# Cells of a cube

A cell is one of the little cubes a cube is made of, given by the layer it lies in along
each axis. Layers are counted from the negative face, so on a cube of `n` layers every
coordinate of a cell is below `n`.

Turning the whole cube about an axis moves cells: the coordinate on that axis stays, the
other two are exchanged, and one of them is mirrored. `Cell.turn_turn_not` says that the
two senses of turning undo each other on the cells of the cube.
-/

namespace CubeScript

/-- A cell, by its layer along each axis. -/
@[ext] structure Cell where
  x : Nat
  y : Nat
  z : Nat
  deriving DecidableEq, Repr

namespace Cell

/-- The layer of a cell along an axis. -/
def layer (c : Cell) : Axis → Nat
  | .x => c.x
  | .y => c.y
  | .z => c.z

/-- The cell with given layers. -/
def ofLayers (layer : Axis → Nat) : Cell := ⟨layer .x, layer .y, layer .z⟩

@[simp] theorem layer_ofLayers (f : Axis → Nat) (a : Axis) : (ofLayers f).layer a = f a := by
  cases a <;> rfl

/-- Whether a cell lies inside a cube of `n` layers. -/
def Inside (n : Nat) (c : Cell) : Prop := c.x < n ∧ c.y < n ∧ c.z < n

instance (n : Nat) (c : Cell) : Decidable (c.Inside n) :=
  inferInstanceAs (Decidable (_ ∧ _ ∧ _))

/-- The layer that is as far from the positive face as `k` is from the negative one. -/
def across (n k : Nat) : Nat := n - 1 - k

theorem across_across {n k : Nat} (h : k < n) : across n (across n k) = k := by
  unfold across; omega

theorem across_lt {n k : Nat} (h : k < n) : across n k < n := by
  unfold across; omega

/-- Where a cell of a cube of `n` layers goes under a quarter turn of the whole cube,
clockwise or not as seen from the positive end of the axis. -/
def turn (n : Nat) : Axis → Bool → Cell → Cell
  | .x, true, ⟨x, y, z⟩ => ⟨x, z, across n y⟩
  | .x, false, ⟨x, y, z⟩ => ⟨x, across n z, y⟩
  | .y, true, ⟨x, y, z⟩ => ⟨across n z, y, x⟩
  | .y, false, ⟨x, y, z⟩ => ⟨z, y, across n x⟩
  | .z, true, ⟨x, y, z⟩ => ⟨y, across n x, z⟩
  | .z, false, ⟨x, y, z⟩ => ⟨across n y, x, z⟩

/-- A turn keeps every cell in its layer along the axis of the turn. -/
@[simp] theorem layer_turn (n : Nat) (a : Axis) (clockwise : Bool) (c : Cell) :
    (turn n a clockwise c).layer a = c.layer a := by
  cases a <;> cases clockwise <;> rfl

/-- A turn keeps cells inside the cube. -/
theorem Inside.turn {n : Nat} {c : Cell} (h : c.Inside n) (a : Axis) (clockwise : Bool) :
    (Cell.turn n a clockwise c).Inside n := by
  obtain ⟨hx, hy, hz⟩ := h
  cases a <;> cases clockwise <;>
    simp [Cell.turn, Inside, hx, hy, hz, across_lt]

/-- Turning back undoes a quarter turn. -/
theorem turn_turn_not {n : Nat} {c : Cell} (h : c.Inside n) (a : Axis) (clockwise : Bool) :
    turn n a (!clockwise) (turn n a clockwise c) = c := by
  obtain ⟨hx, hy, hz⟩ := h
  cases a <;> cases clockwise <;>
    simp [turn, across_across, hx, hy, hz]

end Cell

end CubeScript
