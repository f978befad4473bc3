import CubeScript.Cube.State

/-!
# Turns of layers

A turn names an axis, some layers along it, and an angle in quarter turns. The angle is
brought to one of four values first. A half turn remembers the sense it was written in,
which matters to no cube but lets `Turn.inverse_inverse` hold on the nose.

Reflecting a turn exchanges every layer with the one at the same distance from the other end
of the axis, and keeps the angle.
-/

namespace CubeScript

/-- An angle that is not a whole number of full turns, in quarter turns clockwise as seen
from the positive face. -/
inductive Angle where
  | quarter
  | half
  | quarterBack
  | halfBack
  deriving DecidableEq, Repr, Inhabited

namespace Angle

/-- The number of quarter turns, negative against the clock. -/
def toInt : Angle → Int
  | .quarter => 1
  | .half => 2
  | .quarterBack => -1
  | .halfBack => -2

/-- The angle of a number of quarter turns. Full turns are left out, three quarter turns are
one in the other sense, and half a turn keeps the sense of the number. -/
def ofInt? (quarters : Int) : Option Angle :=
  match (quarters % 4).toNat with
  | 0 => none
  | 1 => some .quarter
  | 2 => some (if quarters < 0 then .halfBack else .half)
  | _ => some .quarterBack

/-- The number of quarter turns of an angle that may be a whole number of full turns. -/
def normalize (quarters : Int) : Int := ((ofInt? quarters).map toInt).getD 0

@[simp] theorem ofInt?_toInt (a : Angle) : ofInt? a.toInt = some a := by
  cases a <;> decide

theorem ofInt?_eq_none_iff {quarters : Int} : ofInt? quarters = none ↔ 4 ∣ quarters := by
  unfold ofInt?
  constructor
  · intro h
    split at h <;> simp_all
    omega
  · intro h
    have : (quarters % 4).toNat = 0 := by omega
    simp [this]

/-- The angle that turns back. -/
def inverse : Angle → Angle
  | .quarter => .quarterBack
  | .half => .halfBack
  | .quarterBack => .quarter
  | .halfBack => .half

@[simp] theorem toInt_inverse (a : Angle) : a.inverse.toInt = -a.toInt := by
  cases a <;> decide

@[simp] theorem inverse_inverse (a : Angle) : a.inverse.inverse = a := by
  cases a <;> rfl

/-- How many quarter turns an angle takes, in whichever sense. -/
def quarters (a : Angle) : Nat := a.toInt.natAbs

end Angle

/-- A turn of some layers about one axis. -/
structure Turn where
  axis : Axis
  layers : LayerMask
  angle : Angle
  deriving DecidableEq, Repr

namespace Turn

/-- Why a turn cannot be made. -/
inductive Fault where
  | noSuchAxis (axis : Nat)
  | noLayers
  | noAngle
  deriving DecidableEq, Repr

/-- The wording of a fault. -/
def Fault.message : Fault → String
  | .noSuchAxis axis => s!"axis {axis} is out of range, expected 0, 1 or 2"
  | .noLayers => "a move must select at least one layer"
  | .noAngle => "a move must turn by a non-zero angle"

/-- The turn about the axis with a given number, of the layers in a mask, by a number of
quarter turns. -/
def make (axis : Nat) (layers : LayerMask) (quarters : Int) : Except Fault Turn :=
  match Axis.ofIndex? axis with
  | none => .error (.noSuchAxis axis)
  | some axis =>
    if layers = 0 then .error .noLayers
    else
      match Angle.ofInt? quarters with
      | none => .error .noAngle
      | some angle => .ok ⟨axis, layers, angle⟩

/-- The turn that undoes a turn. -/
def inverse (t : Turn) : Turn := { t with angle := t.angle.inverse }

@[simp] theorem inverse_inverse (t : Turn) : t.inverse.inverse = t := by
  simp [inverse]

/-- The turn of the layers at the same distance from the other end of the axis, on a cube
of `n` layers. A mask has 32 layers and at least one is taken to exist. -/
def reflected (n : Nat) (t : Turn) : Turn :=
  { t with layers := t.layers.reverse >>> (32 - min (max n 1) 32) }

/-- Make a turn on a cube. -/
def apply (t : Turn) (cube : Cube) : Except Cube.Fault Cube :=
  cube.transform t.axis.index t.layers t.angle.toInt

/-- A turn in writing: its axis, the layers as binary digits, and its quarter turns. -/
def text (t : Turn) : String :=
  s!"{t.axis.index}:{t.layers.binary}:{t.angle.toInt}"

instance : ToString Turn := ⟨text⟩

end Turn

end CubeScript
