import CubeScript.Cube.Piece

/-!
# Cube sizes and the faults of a cube

A cube has between two and sixteen layers along every axis. `Size` carries the bound, so
the geometry below it never meets a cube that does not exist. `Cube.Fault` lists what can
be wrong with a request that is made of a cube, and `Cube.Fault.message` words it.
-/

namespace CubeScript

/-- The number of layers of a cube along each axis. -/
structure Size where
  layers : Nat
  two_le : 2 ≤ layers
  le_sixteen : layers ≤ 16
  deriving DecidableEq

/-- A choice of layers along an axis: bit `i` selects the `i`-th layer, counted from the
negative face. -/
abbrev LayerMask := BitVec 32

namespace LayerMask

/-- The binary digits of a mask, most significant first and without leading zeros. -/
def binary (mask : LayerMask) : String :=
  String.ofList (Nat.toDigits 2 mask.toNat)

/-- Whether a mask selects none but the first `n` layers. -/
def Within (mask : LayerMask) (n : Nat) : Prop := mask >>> n = 0

instance (mask : LayerMask) (n : Nat) : Decidable (mask.Within n) :=
  inferInstanceAs (Decidable (_ = _))

theorem within_iff {mask : LayerMask} {n : Nat} :
    mask.Within n ↔ ∀ i, mask.getLsbD i = true → i < n := by
  constructor
  · intro h i hi
    apply Nat.lt_of_not_le
    intro hle
    have hbit : (mask >>> n).getLsbD (i - n) = true := by
      simpa [BitVec.getLsbD_ushiftRight, Nat.add_sub_cancel' hle] using hi
    rw [show mask >>> n = 0 from h] at hbit
    simp at hbit
  · intro h
    apply BitVec.eq_of_getLsbD_eq
    intro i _
    cases hbit : mask.getLsbD (n + i) with
    | false => simp [BitVec.getLsbD_ushiftRight, hbit]
    | true => exact absurd (h _ hbit) (by omega)

end LayerMask

/-- Why a cube does not do what is asked of it. -/
inductive Cube.Fault where
  | sizeOutOfRange (layers : Nat)
  | noSuchAxis (axis : Nat)
  | maskOutOfRange (mask : LayerMask) (layers : Nat)
  | wrongLength (kind : PieceKind) (expected found : Nat)
  | notAPermutation (kind : PieceKind)
  | twistOutOfRange (kind : PieceKind) (twist : Nat)
  | sizeMismatch (expected found : Nat)
  | impossiblePart (name : String)
  | noSuchPart (name : String)
  /-- What is summed up for a twist does not fit in a byte. This is not a refusal: whatever has made
  the request stops there. -/
  | byteOverflow
  deriving DecidableEq, Repr

namespace Cube.Fault

/-- The wording of a fault. -/
def message : Cube.Fault → String
  | .sizeOutOfRange layers => s!"layer count {layers} is out of range"
  | .noSuchAxis axis => s!"axis {axis} is out of range, expected 0, 1 or 2"
  | .maskOutOfRange mask layers =>
    s!"layer mask 0b{mask.binary} is not valid for a {layers}-layer cube"
  | .wrongLength kind expected found => s!"expected {expected} {kind} entries, found {found}"
  | .notAPermutation kind => s!"{kind} locations are not a permutation"
  | .twistOutOfRange kind twist =>
    s!"{kind} orientation {twist} is not below {kind.twists}"
  | .sizeMismatch expected found =>
    s!"script targets a {expected}-layer cube, state has {found} layers"
  | .impossiblePart name => s!"faces '{name}' do not describe a part"
  | .noSuchPart name => s!"no part '{name}' on this cube"
  | .byteOverflow => "attempt to add with overflow"

end Cube.Fault

namespace Size

/-- The size with a given number of layers, if such a cube exists. -/
def ofNat? (layers : Nat) : Except Cube.Fault Size :=
  if h : 2 ≤ layers ∧ layers ≤ 16 then .ok ⟨layers, h.1, h.2⟩
  else .error (.sizeOutOfRange layers)

@[simp] theorem ofNat?_layers (size : Size) : ofNat? size.layers = .ok size := by
  simp [ofNat?, size.two_le, size.le_sixteen]

theorem layers_pos (size : Size) : 0 < size.layers :=
  Nat.lt_of_lt_of_le Nat.two_pos size.two_le

/-- A mask has a bit for every layer. -/
theorem layers_le_width (size : Size) : size.layers ≤ 32 :=
  Nat.le_trans size.le_sixteen (by decide)

/-- How many layers lie between the two outer ones. -/
def inner (size : Size) : Nat := size.layers - 2

/-- How many pieces of a kind show the same faces. -/
def perSlot (size : Size) : PieceKind → Nat
  | .corner | .center => 1
  | .edge => size.inner
  | .side => size.inner * size.inner

/-- How many pieces of a kind a cube has, which is also how many places they can be in. -/
def count (size : Size) : PieceKind → Nat
  | .corner => 8
  | .edge => 12 * size.inner
  | .side => 6 * (size.inner * size.inner)
  | .center => 1

end Size

end CubeScript
