import CubeScript.Proofs.Cube.Adding
import Mathlib.Dynamics.PeriodicPts.Lemmas

/-!
# Orbits of a quarter turn

Four quarter turns of the whole cube bring every place back. So a place comes back after four of
them and not before, or after two, or after one. A cell that comes back after two is in the middle
of the layers it is turned through, and there it comes back at once. Such a cell shows no face but
one on the axis, which is why the places that do not move are sides, and the turn spins them by a
quarter in the sense of the face they are on.
-/

namespace CubeScript

namespace Cell

/-- Whether a cell lies on the axis through the middle of a cube. -/
def OnAxis (n : Nat) (axis : Axis) (c : Cell) : Prop :=
  ∀ other ≠ axis, 2 * c.layer other + 1 = n

section

variable {n : Nat} {c : Cell} (inside : c.Inside n) (axis : Axis) (clockwise : Bool)

include inside

/-- Exactly the cells on the axis stay where they are. -/
theorem turn_eq_self_iff : c.turn n axis clockwise = c ↔ c.OnAxis n axis := by
  obtain ⟨x, y, z⟩ := c
  obtain ⟨hx, hy, hz⟩ := inside
  dsimp only at hx hy hz
  unfold OnAxis
  constructor
  · intro same other differ
    cases axis <;> cases clockwise <;> cases other <;>
      simp_all [Cell.turn, across, layer] <;> omega
  · intro middle
    have mx := middle .x
    have my := middle .y
    have mz := middle .z
    cases axis <;> cases clockwise <;>
      simp_all [Cell.turn, across, layer] <;> omega

/-- A cell that two turns bring back does not move at all. -/
theorem turn_eq_self_of_turn_turn
    (back : (c.turn n axis clockwise).turn n axis clockwise = c) :
    c.turn n axis clockwise = c := by
  rw [turn_eq_self_iff inside]
  obtain ⟨x, y, z⟩ := c
  obtain ⟨hx, hy, hz⟩ := inside
  dsimp only at hx hy hz
  intro other differ
  cases axis <;> cases clockwise <;> cases other <;>
    simp_all [Cell.turn, across, layer] <;> omega

end

/-- A cell on the axis shows no face but one on the axis. -/
theorem OnAxis.axis_eq {size : Size} {axis : Axis} {c : Cell} (middle : c.OnAxis size.layers axis)
    {face : Face} (shown : c.OnFace size face) : face.axis = axis := by
  by_contra differ
  have between := middle face.axis differ
  have two := size.two_le
  unfold OnFace at shown
  split at shown <;> omega

end Cell

theorem Cube.place_turned (size : Size) (kind : PieceKind) (axis : Axis) (clockwise : Bool)
    (count : Nat) (seat : Seat) : (turned size kind axis clockwise count seat).place =
      (Place.turn size kind axis clockwise)^[count] seat.place := by
  induction count generalizing seat with
  | zero => rfl
  | succ count ih => exact ih _

namespace Place

/-- A corner and an edge have a face on another axis, whatever the axis. -/
theorem exists_axis_ne {kind : PieceKind} (several : kind = .corner ∨ kind = .edge) (axis : Axis) :
    ∀ faces ∈ slots kind, ∃ face ∈ faces, face.axis ≠ axis := by
  obtain rfl | rfl := several <;> cases axis <;> decide

/-- A side on the axis is spun by a quarter, in the sense of its own face. -/
theorem twist_of_faces {size : Size} {kind : PieceKind} {place : Nat} {face : Face}
    (shown : faces size kind place = [face]) :
    twist size kind face.axis true place = if face.isPositive then 1 else 3 := by
  unfold twist
  rw [shown]
  cases face <;> rfl

/-- Whether quarter turns about an axis take one place to another. -/
def SameOrbit (size : Size) (axis : Axis) (place other : PieceKind × Nat) : Prop :=
  place.1 = other.1 ∧ ∃ count < 4, (turn size place.1 axis true)^[count] place.2 = other.2

instance (size : Size) (axis : Axis) (place other : PieceKind × Nat) :
    Decidable (SameOrbit size axis place other) :=
  inferInstanceAs (Decidable (_ ∧ ∃ count < 4, _))

section

variable {size : Size} {kind : PieceKind} (visible : kind ≠ .center) {place : Nat}
  (h : place < size.count kind) (axis : Axis) (clockwise : Bool)

include visible h

theorem iterate_turn_lt (count : Nat) :
    (turn size kind axis clockwise)^[count] place < size.count kind := by
  induction count with
  | zero => exact h
  | succ count ih =>
    rw [Function.iterate_succ_apply']
    exact turn_lt visible ih axis clockwise

theorem layer_iterate_turn (count : Nat) :
    layer size kind ((turn size kind axis clockwise)^[count] place) axis =
      layer size kind place axis := by
  induction count with
  | zero => rfl
  | succ count ih =>
    rw [Function.iterate_succ_apply', layer_turn visible (iterate_turn_lt visible h ..), ih]

/-- Four turns are none, as the last two of them undo the others. -/
theorem isPeriodicPt_turn : Function.IsPeriodicPt (turn size kind axis clockwise) 4 place := by
  have once := turn_lt visible h axis clockwise
  have twice := turn_lt visible once axis clockwise
  calc turn size kind axis clockwise (turn size kind axis clockwise
        (turn size kind axis clockwise (turn size kind axis clockwise place)))
      = turn size kind axis (!clockwise) (turn size kind axis (!clockwise)
        (turn size kind axis clockwise (turn size kind axis clockwise place))) :=
          (turn_turn visible twice axis clockwise).symm
    _ = turn size kind axis (!clockwise) (turn size kind axis clockwise place) := by
          rw [turn_turn_not visible once]
    _ = place := turn_turn_not visible h axis clockwise

/-- The places that do not move are those whose cells lie on the axis. -/
theorem turn_eq_self_iff : turn size kind axis clockwise place = place ↔
    (cell size kind place).OnAxis size.layers axis := by
  have inside := (isOf_cell visible h).1
  rw [← Cell.turn_eq_self_iff inside axis clockwise, ← cell_turn visible h]
  constructor
  · intro same
    rw [same]
  · intro same
    rw [← atCell_cell visible (turn_lt visible h axis clockwise), same, atCell_cell visible h]

theorem turn_eq_self_of_turn_turn
    (back : turn size kind axis clockwise (turn size kind axis clockwise place) = place) :
    turn size kind axis clockwise place = place := by
  have inside := (isOf_cell visible h).1
  have once := turn_lt visible h axis clockwise
  rw [turn_eq_self_iff visible h, ← Cell.turn_eq_self_iff inside axis clockwise]
  apply Cell.turn_eq_self_of_turn_turn inside
  rw [← cell_turn visible h, ← cell_turn visible once, back]

/-- The orbit of a place that moves has four places. -/
theorem minimalPeriod_turn (moves : turn size kind axis clockwise place ≠ place) :
    Function.minimalPeriod (turn size kind axis clockwise) place = 4 := by
  have prime : Fact (Nat.Prime 2) := ⟨Nat.prime_two⟩
  apply Function.minimalPeriod_eq_prime_pow (p := 2) (k := 1)
  · exact fun back => moves (turn_eq_self_of_turn_turn visible h axis clockwise back)
  · exact isPeriodicPt_turn visible h axis clockwise

/-- A place that does not move is one of a side, and the side is on the axis. -/
theorem exists_face_of_turn_eq_self (still : turn size kind axis clockwise place = place) :
    kind = .side ∧ ∃ face, faces size kind place = [face] ∧ face.axis = axis := by
  have slot := mem_slots_of_faces visible h
  have middle := (turn_eq_self_iff visible h axis clockwise).1 still
  have onAxis (face) (shown : face ∈ faces size kind place) : face.axis = axis :=
    middle.axis_eq ((mem_faces_iff visible h).1 shown)
  cases kind with
  | center => exact absurd rfl visible
  | corner | edge =>
    obtain ⟨face, shown, other⟩ := exists_axis_ne (by decide) axis _ slot
    exact absurd (onAxis face shown) other
  | side =>
    obtain ⟨face, _, single⟩ := List.mem_map.1 slot
    refine ⟨rfl, face, single.symm, onAxis face ?_⟩
    rw [← single]
    exact List.mem_singleton_self face

theorem sameOrbit_iff {other : Nat} : SameOrbit size axis (kind, place) (kind, other) ↔
    ∃ count, (turn size kind axis true)^[count] place = other := by
  constructor
  · rintro ⟨_, count, _, reached⟩
    exact ⟨count, reached⟩
  · rintro ⟨count, reached⟩
    refine ⟨rfl, count % 4, Nat.mod_lt _ (by decide), ?_⟩
    rw [(isPeriodicPt_turn visible h axis true).iterate_mod_apply]
    exact reached

theorem sameOrbit_iterate (count : Nat) :
    SameOrbit size axis (kind, place) (kind, (turn size kind axis true)^[count] place) :=
  (sameOrbit_iff visible h axis).2 ⟨count, rfl⟩

end

section

variable {size : Size} {axis : Axis} {first second third : PieceKind × Nat}
  (visible : first.1 ≠ .center) (inside : first.2 < size.count first.1)

theorem SameOrbit.refl (size : Size) (axis : Axis) (place : PieceKind × Nat) :
    SameOrbit size axis place place :=
  ⟨rfl, 0, by decide, rfl⟩

include visible inside

theorem SameOrbit.lt_count (same : SameOrbit size axis first second) :
    second.1 ≠ .center ∧ second.2 < size.count second.1 := by
  obtain ⟨kind, count, _, reached⟩ := same
  rw [← kind, ← reached]
  exact ⟨visible, iterate_turn_lt visible inside axis true count⟩

/-- What is left of four turns leads back. -/
theorem SameOrbit.symm (same : SameOrbit size axis first second) :
    SameOrbit size axis second first := by
  obtain ⟨kind, place⟩ := first
  obtain ⟨other, goal⟩ := second
  obtain ⟨rfl, count, few, reached⟩ := same
  have present := iterate_turn_lt visible inside axis true count
  rw [reached] at present
  refine (sameOrbit_iff visible present axis).2 ⟨4 - count, ?_⟩
  rw [← reached, ← Function.iterate_add_apply, Nat.sub_add_cancel few.le]
  exact isPeriodicPt_turn visible inside axis true

theorem SameOrbit.trans (same : SameOrbit size axis first second)
    (further : SameOrbit size axis second third) : SameOrbit size axis first third := by
  obtain ⟨kind, place⟩ := first
  obtain ⟨other, goal⟩ := second
  obtain ⟨last, target⟩ := third
  obtain ⟨rfl, count, _, reached⟩ := same
  obtain ⟨rfl, more, _, arrived⟩ := further
  refine (sameOrbit_iff visible inside axis).2 ⟨more + count, ?_⟩
  rw [Function.iterate_add_apply, reached, arrived]

end

/-- A place comes back after four quarter turns or at once, and at once only if it is that of a side
or of the center. -/
theorem minimalPeriod_cases {size : Size} {kind : PieceKind} {place : Nat}
    (h : place < size.count kind) (axis : Axis) :
    Function.minimalPeriod (turn size kind axis true) place = 4 ∨
      Function.minimalPeriod (turn size kind axis true) place = 1 ∧
        (kind = .side ∨ kind = .center) := by
  by_cases still : turn size kind axis true place = place
  · refine .inr ⟨Function.minimalPeriod_eq_one_iff_isFixedPt.2 still, ?_⟩
    by_cases visible : kind = .center
    · exact .inr visible
    · exact .inl (exists_face_of_turn_eq_self visible h axis true still).1
  · refine .inl (minimalPeriod_turn ?_ h axis true still)
    rintro rfl
    exact still (Nat.lt_one_iff.1 h).symm

/-! ### One place for each orbit -/

/-- Whether a place is one that can be seen and lies in one of the layers that a mask selects. -/
def Selected (size : Size) (axis : Axis) (mask : LayerMask) (place : PieceKind × Nat) : Prop :=
  place.1 ≠ .center ∧ place.2 < size.count place.1 ∧
    mask.getLsbD (layer size place.1 place.2 axis) = true

instance (size : Size) (axis : Axis) (mask : LayerMask) (place : PieceKind × Nat) :
    Decidable (Selected size axis mask place) :=
  inferInstanceAs (Decidable (_ ∧ _ ∧ _))

/-- Whether places stand for the orbits in the selected layers, one for each of them. -/
structure Represents (size : Size) (axis : Axis) (mask : LayerMask)
    (starts : List (PieceKind × Nat)) : Prop where
  selected : ∀ start ∈ starts, Selected size axis mask start
  apart : starts.Pairwise fun start other => ¬ SameOrbit size axis start other
  covers : ∀ place, Selected size axis mask place →
    ∃ start ∈ starts, SameOrbit size axis start place

theorem SameOrbit.selected {size : Size} {axis : Axis} {mask : LayerMask}
    {first second : PieceKind × Nat} (same : SameOrbit size axis first second)
    (selected : Selected size axis mask first) : Selected size axis mask second := by
  obtain ⟨visible, inside, turns⟩ := selected
  obtain ⟨visibleToo, insideToo⟩ := same.lt_count visible inside
  obtain ⟨kind, count, _, reached⟩ := same
  refine ⟨visibleToo, insideToo, ?_⟩
  rw [← kind, ← reached, layer_iterate_turn visible inside]
  exact turns

/-- The orbits that are represented hold the selected places and no others. -/
theorem Represents.exists_iff {size : Size} {axis : Axis} {mask : LayerMask}
    {starts : List (PieceKind × Nat)} (represents : Represents size axis mask starts)
    {place : PieceKind × Nat} :
    (∃ start ∈ starts, SameOrbit size axis start place) ↔ Selected size axis mask place := by
  constructor
  · rintro ⟨start, member, same⟩
    exact same.selected (represents.selected start member)
  · exact represents.covers place

/-- The order of the places makes no difference. -/
theorem Represents.perm {size : Size} {axis : Axis} {mask : LayerMask}
    {starts order : List (PieceKind × Nat)} (represents : Represents size axis mask starts)
    (perm : order.Perm starts) : Represents size axis mask order where
  selected start member := represents.selected start (perm.mem_iff.1 member)
  apart := by
    -- Being in different orbits is only symmetric for places that the cube has.
    have both : starts.Pairwise fun start other =>
        ¬ SameOrbit size axis start other ∧ ¬ SameOrbit size axis other start := by
      apply represents.apart.imp_of_mem
      intro start other _ member differ
      obtain ⟨visible, inside, _⟩ := represents.selected other member
      exact ⟨differ, fun same => differ (same.symm visible inside)⟩
    exact (perm.symm.pairwise both And.symm).imp And.left
  covers place selected := by
    obtain ⟨start, member, same⟩ := represents.covers place selected
    exact ⟨start, perm.mem_iff.2 member, same⟩

/-- All places of a cube. -/
def allPlaces (size : Size) : List (PieceKind × Nat) :=
  PieceKind.all.flatMap fun kind => (List.range (size.count kind)).map fun place => (kind, place)

theorem mem_allPlaces {size : Size} {axis : Axis} {mask : LayerMask} {place : PieceKind × Nat}
    (selected : Selected size axis mask place) : place ∈ allPlaces size := by
  obtain ⟨kind, place⟩ := place
  refine List.mem_flatMap.2 ⟨kind, by cases kind <;> decide, List.mem_map.2 ⟨place, ?_, rfl⟩⟩
  exact List.mem_range.2 selected.2.1

/-- It is enough to look through the places that there are. -/
theorem represents_iff {size : Size} {axis : Axis} {mask : LayerMask}
    {starts : List (PieceKind × Nat)} : Represents size axis mask starts ↔
      (∀ start ∈ starts, Selected size axis mask start) ∧
      (starts.Pairwise fun start other => ¬ SameOrbit size axis start other) ∧
      ∀ place ∈ allPlaces size, Selected size axis mask place →
        ∃ start ∈ starts, SameOrbit size axis start place := by
  constructor
  · rintro ⟨selected, apart, covers⟩
    exact ⟨selected, apart, fun place _ => covers place⟩
  · rintro ⟨selected, apart, covers⟩
    exact ⟨selected, apart, fun place here => covers place (mem_allPlaces here) here⟩

instance (size : Size) (axis : Axis) (mask : LayerMask) (starts : List (PieceKind × Nat)) :
    Decidable (Represents size axis mask starts) :=
  decidable_of_iff' _ represents_iff

/-- Of any places, those are enough that are not in the orbit of a later one. -/
theorem exists_starts (size : Size) (axis : Axis) (mask : LayerMask)
    (places : List (PieceKind × Nat)) : ∃ starts : List (PieceKind × Nat),
      (∀ start ∈ starts, Selected size axis mask start) ∧
      (starts.Pairwise fun start other => ¬ SameOrbit size axis start other) ∧
      ∀ place ∈ places, Selected size axis mask place →
        ∃ start ∈ starts, SameOrbit size axis start place := by
  induction places with
  | nil => exact ⟨[], List.forall_mem_nil _, .nil, List.forall_mem_nil _⟩
  | cons place places ih =>
    obtain ⟨starts, selected, apart, covers⟩ := ih
    by_cases needed : Selected size axis mask place ∧
        ∀ start ∈ starts, ¬ SameOrbit size axis start place
    · obtain ⟨here, alone⟩ := needed
      refine ⟨place :: starts, List.forall_mem_cons.2 ⟨here, selected⟩, ?_, ?_⟩
      · refine List.pairwise_cons.2 ⟨fun start member same => ?_, apart⟩
        exact alone start member (same.symm here.1 here.2.1)
      · refine List.forall_mem_cons.2 ⟨fun _ => ⟨place, List.mem_cons_self, .refl ..⟩, ?_⟩
        intro other member turns
        obtain ⟨start, present, same⟩ := covers other member turns
        exact ⟨start, List.mem_cons_of_mem _ present, same⟩
    · refine ⟨starts, selected, apart, List.forall_mem_cons.2 ⟨fun here => ?_, covers⟩⟩
      by_contra alone
      exact needed ⟨here, fun start member same => alone ⟨start, member, same⟩⟩

theorem exists_represents (size : Size) (axis : Axis) (mask : LayerMask) :
    ∃ starts, Represents size axis mask starts := by
  obtain ⟨starts, represents⟩ := exists_starts size axis mask (allPlaces size)
  exact ⟨starts, represents_iff.2 represents⟩

end Place

end CubeScript
