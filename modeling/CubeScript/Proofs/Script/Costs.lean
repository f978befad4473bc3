import CubeScript.Proofs.Script.Reflecting
import CubeScript.Script.Metrics
import Mathlib.Algebra.BigOperators.Intervals

/-!
# The cost of a turn

What a turn costs only depends on its cuts: the boundaries between two neighbouring layers of which
one is turned and the other is not. Runs of turned layers and runs of layers that stay alternate
along the axis, and there is one run more than there are cuts. So the fewer of both kinds are half
of them, rounded down, and the face turns are the cuts themselves.

The scan that finds the runs only knows whether one has begun. `Metrics.length_runsFrom` and
`Metrics.faceCost_runsFrom` say what it still finds from there on. A run that has both outer layers
costs one face turn without any cut, but then the layers that stay have no run at all and are the
cheaper choice.
-/

namespace CubeScript

namespace LayerMask

variable {n : Nat} {mask other : LayerMask}

/-- How many of the boundaries between `n` layers have a selected layer on just one side. -/
def cuts (n : Nat) (mask : LayerMask) : Nat :=
  ((Finset.Ico 1 n).filter fun i => mask.getLsbD (i - 1) ≠ mask.getLsbD i).card

/-- Selecting the other layers makes the same cuts. -/
theorem cuts_eq_of_opposite (opposite : ∀ i < n, other.getLsbD i = !mask.getLsbD i) :
    cuts n other = cuts n mask := by
  unfold cuts
  congr 1
  apply Finset.filter_congr
  intro i member
  obtain ⟨_, inside⟩ := Finset.mem_Ico.1 member
  rw [opposite i inside, opposite (i - 1) (by omega), ne_eq, Bool.not_inj_iff]

theorem cuts_eq_sum (n : Nat) (mask : LayerMask) : cuts n mask =
    ∑ i ∈ Finset.Ico 1 n, if mask.getLsbD (i - 1) ≠ mask.getLsbD i then 1 else 0 :=
  Finset.card_filter ..

/-- Selecting the layers as far from the other end makes as many cuts, at the places across. -/
theorem cuts_eq_of_mirrored (mirrored : ∀ i < n, other.getLsbD i = mask.getLsbD (n - 1 - i)) :
    cuts n other = cuts n mask := by
  let cut (i : Nat) : Nat := if mask.getLsbD (i - 1) ≠ mask.getLsbD i then 1 else 0
  have across : ∀ i ∈ Finset.Ico 1 n,
      (if other.getLsbD (i - 1) ≠ other.getLsbD i then 1 else 0) = cut (n - i) := by
    intro i member
    obtain ⟨positive, inside⟩ := Finset.mem_Ico.1 member
    have before : n - 1 - (i - 1) = n - i := by omega
    have behind : n - 1 - i = n - i - 1 := by omega
    simp only [cut, mirrored i inside, mirrored (i - 1) (by omega), before, behind, ne_comm]
  have ends : n + 1 - n = 1 ∧ n + 1 - 1 = n := by omega
  calc cuts n other = ∑ i ∈ Finset.Ico 1 n, cut (n - i) := by
        rw [cuts_eq_sum, Finset.sum_congr rfl across]
    _ = ∑ i ∈ Finset.Ico (n + 1 - n) (n + 1 - 1), cut i := Finset.sum_Ico_reflect cut 1 n.le_succ
    _ = cuts n mask := by rw [ends.1, ends.2, cuts_eq_sum]

/-- There is no cut exactly if all layers are selected or none is. -/
theorem cuts_eq_zero_iff : cuts n mask = 0 ↔
    (∀ i < n, mask.getLsbD i = true) ∨ ∀ i < n, mask.getLsbD i = false := by
  have uncut : cuts n mask = 0 ↔ ∀ i < n, mask.getLsbD i = mask.getLsbD 0 := by
    simp only [cuts, Finset.card_eq_zero, Finset.filter_eq_empty_iff, Finset.mem_Ico, not_not]
    constructor
    · intro same i inside
      induction i with
      | zero => rfl
      | succ i ih =>
        rw [← same ⟨Nat.succ_pos i, inside⟩]
        exact ih (Nat.lt_of_succ_lt inside)
    · intro same i member
      rw [same i member.2, same (i - 1) (by omega)]
  rw [uncut]
  constructor
  · intro same
    cases first : mask.getLsbD 0 with
    | true => exact .inl fun i inside => (same i inside).trans first
    | false => exact .inr fun i inside => (same i inside).trans first
  · rintro (all | none) i inside
    · rw [all i inside, all 0 (Nat.zero_lt_of_lt inside)]
    · rw [none i inside, none 0 (Nat.zero_lt_of_lt inside)]

end LayerMask

/-- An angle is not a whole number of full turns. -/
theorem Angle.quarters_pos (angle : Angle) : 0 < angle.quarters := by
  cases angle <;> decide

namespace Metrics

/-! ### Counting cuts along a list -/

/-- How many times neighbours in a list differ. -/
def changes : List Bool → Nat
  | first :: second :: rest => (if first = second then 0 else 1) + changes (second :: rest)
  | _ => 0

@[simp] theorem changes_singleton (b : Bool) : changes [b] = 0 := rfl

theorem changes_cons (first second : Bool) (rest : List Bool) : changes (first :: second :: rest) =
    (if first = second then 0 else 1) + changes (second :: rest) := rfl

/-- A list in which every value is turned over changes at the same places. -/
theorem changes_map_not (layers : List Bool) : changes (layers.map (!·)) = changes layers := by
  induction layers with
  | nil => rfl
  | cons first rest ih =>
    cases rest with
    | nil => rfl
    | cons second rest =>
      rw [List.map_cons] at ih
      simp only [List.map_cons, changes_cons, ih, Bool.not_inj_iff]

theorem changes_range' (f : Nat → Bool) (first n : Nat) :
    changes ((List.range' first n).map f) =
      ∑ i ∈ Finset.Ico (first + 1) (first + n), if f (i - 1) ≠ f i then 1 else 0 := by
  induction n generalizing first with
  | zero => simp [changes]
  | succ n ih =>
    cases n with
    | zero => simp
    | succ n =>
      have inside : first + 1 < first + (n + 1 + 1) := by omega
      have rest := ih (first + 1)
      rw [List.range'_succ, List.map_cons] at rest
      rw [List.range'_succ, List.range'_succ, List.map_cons, List.map_cons, changes_cons, rest,
        Finset.sum_eq_sum_Ico_succ_bot inside, Nat.add_sub_cancel, ite_not,
        Nat.add_right_comm first 1 (n + 1), Nat.add_assoc first (n + 1) 1]

/-- The list of the selected layers changes at the cuts. -/
theorem changes_selected {n : Nat} (small : n ≤ 32) (mask : LayerMask) :
    changes (selected n mask) = mask.cuts n := by
  have bits : selected n mask = (List.range n).map mask.getLsbD := by
    apply List.map_congr_left
    intro i member
    rw [Nat.mod_eq_of_lt (by have := List.mem_range.1 member; omega)]
  rw [bits, List.range_eq_range', changes_range', LayerMask.cuts_eq_sum, Nat.zero_add,
    Nat.zero_add]

/-! ### Scanning for runs -/

/-- The scan finds a run for every second change. What it has passed counts as not selected, unless
a run has begun there. -/
theorem length_runsFrom (i : Nat) (begun : Option Nat) (layers : List Bool) :
    (runsFrom i begun layers).length =
      (begun.isSome.toNat + changes (begun.isSome :: layers) + 1) / 2 := by
  induction layers generalizing i begun with
  | nil => cases begun <;> simp [runsFrom]
  | cons b layers ih =>
    cases b <;> cases begun <;>
      simp only [runsFrom, ih, changes_cons, List.length_cons, Option.isSome_none,
        Option.isSome_some, Bool.toNat_false, Bool.toNat_true, if_true, reduceCtorEq, if_false] <;>
      omega

theorem faceCost_cons (n first last : Nat) (runs : List (Nat × Nat)) :
    faceCost n ((first, last) :: runs) =
      (if first = 0 ∨ last + 1 = n then 1 else 2) + faceCost n runs := rfl

/-- The scan finds runs that cost a face turn for each change. A run that has begun behind the first
layer has changed there as well, and one that has begun with it costs a face turn in any case. -/
theorem faceCost_runsFrom {n i : Nat} (positive : 0 < i) {layers : List Bool}
    (length : i + layers.length = n) :
    faceCost n (runsFrom i none layers) = changes (false :: layers) ∧
      (∀ first, 0 < first →
        faceCost n (runsFrom i (some first) layers) = changes (true :: layers) + 1) ∧
      faceCost n (runsFrom i (some 0) layers) = max 1 (changes (true :: layers)) := by
  induction layers generalizing i with
  | nil =>
    obtain rfl : i = n := length
    have last : i - 1 + 1 = i := Nat.sub_add_cancel positive
    simp [runsFrom, faceCost, last]
  | cons b layers ih =>
    obtain ⟨fresh, begun, first⟩ := ih (Nat.succ_pos i) (by rw [← length, List.length_cons]; omega)
    cases b with
    | true =>
      simp only [runsFrom, changes_cons, Option.getD_none, Option.getD_some, if_true, reduceCtorEq,
        if_false, Nat.zero_add]
      exact ⟨(begun i positive).trans (Nat.add_comm ..), begun, first⟩
    | false =>
      have inner : ¬ i - 1 + 1 = n := by rw [← length, List.length_cons]; omega
      simp only [runsFrom, changes_cons, reduceCtorEq, if_true, if_false, Nat.zero_add]
      refine ⟨fresh, fun start later => ?_, ?_⟩
      · rw [faceCost_cons, fresh, if_neg (not_or_intro (Nat.ne_of_gt later) inner)]
        omega
      · rw [faceCost_cons, fresh, if_pos (.inl rfl)]
        omega

theorem length_runs (first : Bool) (rest : List Bool) :
    (runs (first :: rest)).length = (first.toNat + changes (first :: rest) + 1) / 2 := by
  rw [runs, length_runsFrom]
  cases first <;> simp [changes_cons]

theorem faceCost_runs (first : Bool) (rest : List Bool) :
    faceCost (rest.length + 1) (runs (first :: rest)) =
      max first.toNat (changes (first :: rest)) := by
  obtain ⟨fresh, _, begun⟩ := faceCost_runsFrom Nat.one_pos (Nat.add_comm 1 rest.length)
  cases first with
  | false =>
    rw [Bool.toNat_false, Nat.zero_max]
    exact fresh
  | true => exact begun

/-! ### The cost of one turn -/

section

variable {n : Nat} (positive : 1 ≤ n) (small : n ≤ 32) (m : Metrics) (t : Turn)

include positive small

/-- The layers that are turned and those that are not have runs of about the same number, and one of
them has as many face turns as there are cuts. -/
theorem addTurn_eq : m.addTurn n t = {
    moves := m.moves + 1
    blockTurns := m.blockTurns + (t.layers.cuts n + 1) / 2
    faceTurns := m.faceTurns + t.layers.cuts n
    quarterTurns := m.quarterTurns + t.layers.cuts n * t.angle.quarters } := by
  have length : (selected n t.layers).length = n := by simp [selected]
  unfold addTurn
  dsimp only
  rw [← changes_selected small]
  cases layers : selected n t.layers with
  | nil =>
    rw [layers] at length
    exact absurd length (Nat.ne_of_lt positive)
  | cons first rest =>
    rw [layers, List.length_cons] at length
    have opposite : changes ((!first) :: rest.map (!·)) = changes (first :: rest) :=
      changes_map_not (first :: rest)
    have own := faceCost_runs first rest
    have others := faceCost_runs (!first) (rest.map (!·))
    rw [List.length_map, opposite, length] at others
    rw [length] at own
    have blocks : min (runs (first :: rest)).length (runs ((!first) :: rest.map (!·))).length =
        (changes (first :: rest) + 1) / 2 := by
      rw [length_runs, length_runs, opposite]
      cases first <;> simp only [Bool.not_false, Bool.not_true, Bool.toNat_false,
        Bool.toNat_true] <;> omega
    have faces : min (faceCost n (runs (first :: rest)))
        (faceCost n (runs ((!first) :: rest.map (!·)))) = changes (first :: rest) := by
      rw [own, others]
      cases first <;> simp only [Bool.not_false, Bool.not_true, Bool.toNat_false,
        Bool.toNat_true] <;> omega
    rw [List.map_cons, blocks, faces]

/-- The cost of a turn only depends on its cuts. -/
theorem addTurn_congr {other : Turn} (angle : other.angle.quarters = t.angle.quarters)
    (cuts : other.layers.cuts n = t.layers.cuts n) : m.addTurn n other = m.addTurn n t := by
  rw [addTurn_eq positive small, addTurn_eq positive small, angle, cuts]

end

/-- The cost of a turn in closed form. Every turn is a move, costs half of its cuts in block turns,
rounded up, and its cuts in face turns, and these count as often in quarter turns as there are
quarters in its angle. So it costs the same to turn the other layers or those across, and only a
turn of all layers or of none is free. -/
theorem cost_of_turn {n : Nat} (positive : 1 ≤ n) (small : n ≤ 32) (m : Metrics) (t : Turn) :
    m.addTurn n t = {
      moves := m.moves + 1
      blockTurns := m.blockTurns + (t.layers.cuts n + 1) / 2
      faceTurns := m.faceTurns + t.layers.cuts n
      quarterTurns := m.quarterTurns + t.layers.cuts n * t.angle.toInt.natAbs } ∧
    (∀ other : LayerMask, (∀ i < n, other.getLsbD i = !t.layers.getLsbD i) →
      m.addTurn n { t with layers := other } = m.addTurn n t) ∧
    m.addTurn n (t.reflected n) = m.addTurn n t ∧
    ∀ count ∈ [blockTurns, faceTurns, quarterTurns], count (m.addTurn n t) = count m ↔
      (∀ i < n, t.layers.getLsbD i = true) ∨ ∀ i < n, t.layers.getLsbD i = false := by
  have cost := addTurn_eq positive small m t
  refine ⟨cost, fun other opposite => ?_, ?_, fun count member => ?_⟩
  · exact addTurn_congr positive small m t rfl (LayerMask.cuts_eq_of_opposite opposite)
  · refine addTurn_congr positive small m t rfl (LayerMask.cuts_eq_of_mirrored fun i inside => ?_)
    rw [Turn.getLsbD_reflected positive small, decide_eq_true inside, Bool.true_and]
  · have some := t.angle.quarters_pos
    rw [← LayerMask.cuts_eq_zero_iff, cost]
    simp only [List.mem_cons, List.not_mem_nil, or_false] at member
    obtain rfl | rfl | rfl := member
    · dsimp only
      omega
    · dsimp only
      omega
    · rw [Nat.add_eq_left, Nat.mul_eq_zero, or_iff_left some.ne']

/-- Half a turn of the second, third and fifth of six layers, the mask of which goes on behind
them. -/
def innerTurn : Turn := ⟨.y, 86#32, .halfBack⟩

theorem cost_of_turn_innerTurn :
    1 ≤ 6 ∧ 6 ≤ 32 ∧ innerTurn.layers.cuts 6 = 4 ∧
      (⟨7, 5, 9, 10⟩ : Metrics).addTurn 6 innerTurn = ⟨8, 7, 13, 18⟩ ∧
      (⟨7, 5, 9, 10⟩ : Metrics).addTurn 6 { innerTurn with layers := 41#32 } = ⟨8, 7, 13, 18⟩ ∧
      (⟨7, 5, 9, 10⟩ : Metrics).addTurn 6 (innerTurn.reflected 6) = ⟨8, 7, 13, 18⟩ := by
  have cuts : innerTurn.layers.cuts 6 = 4 := by decide
  obtain ⟨cost, opposite, mirrored, _⟩ :=
    cost_of_turn (n := 6) (by decide) (by decide) ⟨7, 5, 9, 10⟩ innerTurn
  rw [cuts] at cost
  exact ⟨by decide, by decide, cuts, cost, (opposite 41#32 (by decide)).trans cost,
    mirrored.trans cost⟩

end Metrics

end CubeScript
