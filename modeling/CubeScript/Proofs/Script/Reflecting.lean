import CubeScript.Proofs.Script.Meaning
import Mathlib.Data.List.Basic

/-!
# The operations of a script that is reflected

Reflecting some operations means to reflect each of the turns. The order stays. Turning the flag
`reflected` over does this to the operations of a node, as every form hands the flag on to its
parts, but twice is only nothing if the turns are of layers that the cube has. The reflection drops
all others.
-/

namespace CubeScript

namespace Turn

theorem getLsbD_reflected {n : Nat} (positive : 0 < n) (small : n ≤ 32) (t : Turn) (i : Nat) :
    (t.reflected n).layers.getLsbD i = (decide (i < n) && t.layers.getLsbD (n - 1 - i)) := by
  have shift : 32 - min (max n 1) 32 = 32 - n := by omega
  rw [reflected, shift, BitVec.getLsbD_ushiftRight, BitVec.getLsbD_reverse,
    BitVec.getMsbD_eq_getLsbD]
  by_cases inside : i < n
  · have place : 32 - 1 - (32 - n + i) = n - 1 - i := by omega
    have less : 32 - n + i < 32 := by omega
    rw [place, decide_eq_true less, decide_eq_true inside]
  · have more : ¬ 32 - n + i < 32 := by omega
    rw [decide_eq_false more, decide_eq_false inside]
    rfl

/-- Reflecting twice changes nothing if the cube has all the layers. -/
theorem reflected_reflected {n : Nat} (positive : 0 < n) (small : n ≤ 32) {t : Turn}
    (within : t.layers.Within n) : (t.reflected n).reflected n = t := by
  have layers : ((t.reflected n).reflected n).layers = t.layers := by
    apply BitVec.eq_of_getLsbD_eq
    intro i _
    rw [getLsbD_reflected positive small, getLsbD_reflected positive small]
    by_cases inside : i < n
    · have back : n - 1 - (n - 1 - i) = i := by omega
      have less : n - 1 - i < n := by omega
      rw [back, decide_eq_true less, decide_eq_true inside, Bool.true_and, Bool.true_and]
    · rw [decide_eq_false inside, Bool.false_and]
      refine (Bool.eq_false_iff.2 ?_).symm
      exact fun set => inside (LayerMask.within_iff.1 within i set)
  calc
    (t.reflected n).reflected n = { t with layers := ((t.reflected n).reflected n).layers } := rfl
    _ = t := by rw [layers]

end Turn

/-- An operation with the turn reflected, if it is one. -/
def Op.reflected (layers : Nat) : Op → Op
  | .turn t => .turn (t.reflected layers)
  | .cycle c => .cycle c

namespace Meaning

/-- Whether turning the flag `reflected` over reflects the operations. -/
def Mirrored (layers : Nat) (m : Meaning) : Prop :=
  ∀ inverse reflected, m inverse (!reflected) = (m inverse reflected).map (Op.reflected layers)

theorem Mirrored.inSequence {layers : Nat} {parts : List Meaning}
    (each : ∀ part ∈ parts, part.Mirrored layers) : (inSequence parts).Mirrored layers := by
  intro inverse reflected
  have flat (parts : List Meaning) (each : ∀ part ∈ parts, part.Mirrored layers) :
      (parts.flatMap fun part => part inverse (!reflected)) =
        (parts.flatMap fun part => part inverse reflected).map (Op.reflected layers) := by
    rw [List.map_flatMap]
    apply List.flatMap_congr
    intro part member
    exact each part member inverse reflected
  rw [Meaning.inSequence]
  cases inverse with
  | false => exact flat parts each
  | true => exact flat parts.reverse fun part member => each part (List.mem_reverse.1 member)

end Meaning

theorem Atom.mirrored_turn {layers : Nat} (positive : 0 < layers) (small : layers ≤ 32) {t : Turn}
    (within : t.layers.Within layers) : ((Atom.turn t).meaning layers).Mirrored layers := by
  have twice := Turn.reflected_reflected positive small within
  intro inverse reflected
  cases reflected with
  | false => cases inverse <;> rfl
  | true =>
    cases inverse with
    | false =>
      change [Op.turn t] = [Op.turn ((t.reflected layers).reflected layers)]
      rw [twice]
    | true =>
      change [Op.turn t.inverse] = [Op.turn ((t.reflected layers).reflected layers).inverse]
      rw [twice]

theorem Atom.mirrored_cycle (layers : Nat) (c : Cycle) :
    ((Atom.cycle c).meaning layers).Mirrored layers := by
  intro inverse reflected
  cases reflected <;> rfl

theorem Atom.mirrored_nop (layers : Nat) : (Atom.nop.meaning layers).Mirrored layers := by
  intro inverse reflected
  rfl

theorem Wrapper.mirrored_meaning (w : Wrapper) {layers : Nat} {parts : List Meaning}
    (each : ∀ part ∈ parts, part.Mirrored layers) : (w.meaning parts).Mirrored layers := by
  intro inverse reflected
  have body := Meaning.Mirrored.inSequence each
  cases w with
  | grouping => exact body inverse reflected
  | shorthand name => exact body inverse reflected
  | inversion => exact body (!inverse) reflected
  | reflection => exact body inverse (!reflected)
  | repetition count =>
    simp only [Wrapper.meaning, body inverse reflected, List.map_flatten, List.map_replicate]

theorem Pairing.mirrored_meaning (p : Pairing) {layers : Nat} {a b : Meaning}
    (first : a.Mirrored layers) (second : b.Mirrored layers) :
    (p.meaning a b).Mirrored layers := by
  intro inverse reflected
  cases p <;> cases inverse <;>
    simp only [Pairing.meaning, first _ reflected, second _ reflected, List.map_append]

end CubeScript
