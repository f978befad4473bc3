import CubeScript.Proofs.Cube.Places
import CubeScript.Proofs.Cube.Seats
import CubeScript.Turn

/-!
# Turning layers back

What a quarter turn adds to the twist of a piece only depends on the faces of the two places, so
that the twists of a turn and of the turn back add up to nothing is a statement about the slots
of a kind. It is checked there, once for all sizes, and with `Place.turn_turn_not` it says that
single seats are restored. A half turn is made in the same sense when it is undone; this is
where two quarter turns in one sense have to be two in the other.

On a whole list of seats a turn only moves those in the selected layers. It keeps them there, so
the turn back finds the same ones, and those it has moved do not meet those it has not.
-/

namespace CubeScript

namespace Place

/-- By how much a quarter turn twists a piece, told by the faces it leaves and those it gets to. -/
def twistBetween (axis : Axis) (clockwise : Bool) (source target : List Face) : Nat :=
  match source with
  | [] => 0
  | [face] =>
    let goal := face.turn axis clockwise
    goal.spinsBetween goal.reference (face.reference.turn axis clockwise)
  | face :: _ => target.idxOf (face.turn axis clockwise)

/-- Whether a quarter turn takes the faces of one place to those of another. -/
def Carries (axis : Axis) (clockwise : Bool) (source target : List Face) : Prop :=
  ∀ face ∈ source, face.turn axis clockwise ∈ target

instance (axis : Axis) (clockwise : Bool) (source target : List Face) :
    Decidable (Carries axis clockwise source target) :=
  inferInstanceAs (Decidable (∀ _ ∈ source, _))

theorem twist_eq_twistBetween (size : Size) (kind : PieceKind) (axis : Axis) (clockwise : Bool)
    (place : Nat) : twist size kind axis clockwise place = twistBetween axis clockwise
      (faces size kind place) (faces size kind (turn size kind axis clockwise place)) := by
  unfold twist twistBetween
  cases faces size kind place with
  | nil => rfl
  | cons face others => cases others <;> rfl

theorem twistBetween_add_back (kind : PieceKind) (axis : Axis) (clockwise : Bool) :
    ∀ source ∈ slots kind, ∀ target ∈ slots kind, Carries axis clockwise source target →
      (twistBetween axis clockwise source target +
        twistBetween axis (!clockwise) target source) % kind.twists = 0 := by
  cases kind <;> cases axis <;> cases clockwise <;> decide +kernel

theorem twistBetween_add_twistBetween (kind : PieceKind) (axis : Axis) (clockwise : Bool) :
    ∀ source ∈ slots kind,
      ∀ middle ∈ slots kind, Carries axis clockwise source middle →
      ∀ other ∈ slots kind, Carries axis (!clockwise) source other →
      ∀ target ∈ slots kind, Carries axis clockwise middle target →
      (twistBetween axis (!clockwise) source other +
        twistBetween axis (!clockwise) other target) % kind.twists =
      (twistBetween axis clockwise source middle +
        twistBetween axis clockwise middle target) % kind.twists := by
  cases kind <;> cases axis <;> cases clockwise <;> decide +kernel

section

variable {size : Size} {kind : PieceKind} (visible : kind ≠ .center) {place : Nat}
  (h : place < size.count kind) (axis : Axis) (clockwise : Bool)

include visible h

theorem carries_turn : Carries axis clockwise (faces size kind place)
    (faces size kind (turn size kind axis clockwise place)) :=
  fun _ => turn_mem_faces visible h axis clockwise

/-- The twists of a turn and of the turn back add up to nothing. -/
theorem twist_add_back : (twist size kind axis clockwise place +
    twist size kind axis (!clockwise) (turn size kind axis clockwise place)) % kind.twists = 0 := by
  have goal := turn_lt visible h axis clockwise
  rw [twist_eq_twistBetween, twist_eq_twistBetween, turn_turn_not visible h]
  exact twistBetween_add_back kind axis clockwise _ (mem_slots_of_faces visible h) _
    (mem_slots_of_faces visible goal) (carries_turn visible h axis clockwise)

/-- Two turns in one sense twist as much as two in the other. -/
theorem twist_add_twist :
    (twist size kind axis (!clockwise) place +
      twist size kind axis (!clockwise) (turn size kind axis (!clockwise) place)) % kind.twists =
    (twist size kind axis clockwise place +
      twist size kind axis clockwise (turn size kind axis clockwise place)) % kind.twists := by
  have middle := turn_lt visible h axis clockwise
  have other := turn_lt visible h axis (!clockwise)
  have target := turn_lt visible middle axis clockwise
  simp only [twist_eq_twistBetween]
  rw [turn_turn visible h]
  exact twistBetween_add_twistBetween kind axis clockwise
    _ (mem_slots_of_faces visible h)
    _ (mem_slots_of_faces visible middle) (carries_turn visible h axis clockwise)
    _ (mem_slots_of_faces visible other) (carries_turn visible h axis (!clockwise))
    _ (mem_slots_of_faces visible target) (carries_turn visible middle axis clockwise)

end

end Place

namespace Cube

/-! ### Single seats -/

/-- Adding two amounts that make up for each other leaves a twist as it was. -/
theorem twist_add_add {twists twist there back : Nat} (inside : twist < twists)
    (even : (there + back) % twists = 0) : ((twist + there) % twists + back) % twists = twist := by
  rw [Nat.mod_add_mod, Nat.add_assoc, Nat.add_mod, even, Nat.add_zero, Nat.mod_mod,
    Nat.mod_eq_of_lt inside]

section

variable {size : Size} {kind : PieceKind} (visible : kind ≠ .center) {seat : Seat}
  (inside : seat.InRange (size.count kind) kind.twists) (axis : Axis) (clockwise : Bool)

include visible inside

theorem inRange_quarterTurned :
    (quarterTurned size kind axis clockwise seat).InRange (size.count kind) kind.twists :=
  ⟨Place.turn_lt visible inside.1 axis clockwise, Nat.mod_lt _ kind.twists_pos⟩

/-- The quarter turn back restores the seat. -/
theorem quarterTurned_back : quarterTurned size kind axis (!clockwise)
    (quarterTurned size kind axis clockwise seat) = seat := by
  have place := Place.turn_turn_not visible inside.1 axis clockwise
  have twist := twist_add_add inside.2 (Place.twist_add_back visible inside.1 axis clockwise)
  rw [quarterTurned, quarterTurned, place, twist]

/-- Two quarter turns in one sense are two in the other. -/
theorem quarterTurned_twice :
    quarterTurned size kind axis (!clockwise) (quarterTurned size kind axis (!clockwise) seat) =
      quarterTurned size kind axis clockwise (quarterTurned size kind axis clockwise seat) := by
  have place := Place.turn_turn visible inside.1 axis clockwise
  have twist := Place.twist_add_twist visible inside.1 axis clockwise
  simp only [quarterTurned, place, Nat.mod_add_mod, Seat.mk.injEq, true_and]
  rw [Nat.add_assoc, Nat.add_mod, twist, ← Nat.add_mod, ← Nat.add_assoc]

variable (count : Nat)

theorem inRange_turned :
    (turned size kind axis clockwise count seat).InRange (size.count kind) kind.twists := by
  induction count generalizing seat with
  | zero => exact inside
  | succ count ih => exact ih (inRange_quarterTurned visible inside axis clockwise)

/-- However far it is turned, a piece stays in its layer along the axis. -/
theorem layer_turned :
    Place.layer size kind (turned size kind axis clockwise count seat).place axis =
      Place.layer size kind seat.place axis := by
  induction count generalizing seat with
  | zero => rfl
  | succ count ih =>
    rw [turned, ih (inRange_quarterTurned visible inside axis clockwise)]
    exact Place.layer_turn visible inside.1 axis clockwise

theorem place_eq_of_turned {other : Seat} (present : other.InRange (size.count kind) kind.twists)
    (same : (turned size kind axis clockwise count seat).place =
      (turned size kind axis clockwise count other).place) : seat.place = other.place := by
  induction count generalizing seat other with
  | zero => exact same
  | succ count ih =>
    have turns := ih (inRange_quarterTurned visible inside axis clockwise)
      (inRange_quarterTurned visible present axis clockwise) same
    change Place.turn .. = Place.turn .. at turns
    rw [← Place.turn_turn_not visible inside.1 axis clockwise, turns,
      Place.turn_turn_not visible present.1 axis clockwise]

end

/-! ### The seats of a kind -/

section

variable {size : Size} {kind : PieceKind} (visible : kind ≠ .center) {seats : List Seat}
  (legal : Seat.Legal (size.count kind) kind.twists seats) (axis : Axis) (mask : LayerMask)

include visible legal

/-- Pieces that are turned and pieces that are not end up in different layers. -/
theorem legal_turnSeats (clockwise : Bool) (count : Nat) : Seat.Legal (size.count kind)
    kind.twists (turnSeats size kind axis mask clockwise count seats) := by
  apply legal.map
  · intro seat inside
    split
    · exact inRange_turned visible inside axis clockwise count
    · exact inside
  · intro seat other inside present same
    have stays := layer_turned visible inside axis clockwise count
    have staysToo := layer_turned visible present axis clockwise count
    split at same <;> split at same
    · exact place_eq_of_turned visible inside axis clockwise count present same
    · rw [same] at stays
      simp_all
    · rw [← same] at staysToo
      simp_all
    · exact same

/-- If turning a single seat there and back restores it, so does turning the selected ones. -/
theorem turnSeats_turnSeats {there back : Bool} {away home : Nat}
    (restored : ∀ seat : Seat, seat.InRange (size.count kind) kind.twists →
      turned size kind axis back home (turned size kind axis there away seat) = seat) :
    turnSeats size kind axis mask back home (turnSeats size kind axis mask there away seats) =
      seats := by
  rw [turnSeats, turnSeats, List.map_map]
  refine (List.map_congr_left fun seat member => ?_).trans (List.map_id seats)
  have inside := legal.inRange member
  by_cases selected : mask.getLsbD (Place.layer size kind seat.place axis)
  · have stays := layer_turned visible inside axis there away
    simp only [Function.comp_apply, selected, if_true, stays]
    exact restored seat inside
  · simp only [Function.comp_apply, selected, Bool.false_eq_true, if_false, id_eq]

end

/-! ### Whole cubes -/

theorem seats_turnLayers (cube : Cube) (axis : Axis) (mask : LayerMask) (clockwise : Bool)
    (count : Nat) {kind : PieceKind} (visible : kind ≠ .center) :
    (cube.turnLayers axis mask clockwise count).seats kind =
      turnSeats cube.size kind axis mask clockwise count (cube.seats kind) := by
  cases kind with
  | center => exact absurd rfl visible
  | _ => rfl

/-- It is enough to look at the kinds of pieces that can be seen. -/
theorem Valid.of_visible {cube : Cube} (legal : ∀ kind ≠ .center,
    Seat.Legal (cube.size.count kind) kind.twists (cube.seats kind)) : cube.Valid := by
  intro kind
  cases kind with
  | center => exact Seat.legal_solved 1 (by decide)
  | corner => exact legal .corner (by decide)
  | edge => exact legal .edge (by decide)
  | side => exact legal .side (by decide)

section

variable {cube : Cube} (valid : cube.Valid) (axis : Axis) (mask : LayerMask)

include valid

theorem valid_turnLayers (clockwise : Bool) (count : Nat) :
    (cube.turnLayers axis mask clockwise count).Valid := by
  apply Valid.of_visible
  intro kind visible
  rw [seats_turnLayers cube axis mask clockwise count visible]
  exact legal_turnSeats visible (valid kind) axis mask clockwise count

theorem turnLayers_turnLayers {there back : Bool} {away home : Nat}
    (restored : ∀ kind ≠ .center, ∀ seat : Seat,
      seat.InRange (cube.size.count kind) kind.twists →
        turned cube.size kind axis back home (turned cube.size kind axis there away seat) = seat) :
    (cube.turnLayers axis mask there away).turnLayers axis mask back home = cube := by
  apply ext_seats
  · rfl
  intro kind visible
  rw [seats_turnLayers _ _ _ _ _ visible, seats_turnLayers _ _ _ _ _ visible]
  exact turnSeats_turnSeats visible (valid kind) axis mask (restored kind visible)

theorem valid_twistBy (angle : Int) : (cube.twistBy axis mask angle).Valid := by
  unfold twistBy
  split
  · exact valid
  · exact valid_turnLayers valid axis mask true 1
  · exact valid_turnLayers valid axis mask true 2
  · exact valid_turnLayers valid axis mask false 1

/-- Turning by the opposite angle restores a cube. -/
theorem twistBy_neg (angle : Int) : (cube.twistBy axis mask angle).twistBy axis mask (-angle) =
    cube := by
  have single (clockwise : Bool) : (cube.turnLayers axis mask clockwise 1).turnLayers axis mask
      (!clockwise) 1 = cube :=
    turnLayers_turnLayers valid axis mask fun _ visible _ inside =>
      quarterTurned_back visible inside axis clockwise
  have double : (cube.turnLayers axis mask true 2).turnLayers axis mask true 2 = cube := by
    apply turnLayers_turnLayers valid axis mask
    intro kind visible seat inside
    have once := inRange_quarterTurned visible inside axis false
    have twice := quarterTurned_twice visible inside axis false
    have first := quarterTurned_back visible inside axis false
    have second := quarterTurned_back visible once axis false
    simp only [Bool.not_false] at twice first second
    simp only [turned, twice, second, first]
  have angles : (angle % 4).toNat = 0 ∧ (-angle % 4).toNat = 0 ∨
      (angle % 4).toNat = 1 ∧ (-angle % 4).toNat = 3 ∨
      (angle % 4).toNat = 2 ∧ (-angle % 4).toNat = 2 ∨
      (angle % 4).toNat = 3 ∧ (-angle % 4).toNat = 1 := by omega
  unfold twistBy
  obtain ⟨there, back⟩ | ⟨there, back⟩ | ⟨there, back⟩ | ⟨there, back⟩ := angles <;>
    rw [there, back]
  · rfl
  · exact single true
  · exact double
  · exact single false

end

@[simp] theorem size_twistBy (cube : Cube) (axis : Axis) (mask : LayerMask) (angle : Int) :
    (cube.twistBy axis mask angle).size = cube.size := by
  unfold twistBy
  split <;> rfl

/-- Turning layers keeps a cube valid, and turning them back is possible and restores it. -/
theorem transform_neg {cube after : Cube} (valid : cube.Valid) {axis : Nat} {mask : LayerMask}
    {angle : Int} (turned : cube.transform axis mask angle = .ok after) :
    after.Valid ∧ after.size = cube.size ∧ after.transform axis mask (-angle) = .ok cube := by
  unfold transform at turned ⊢
  cases named : Axis.ofIndex? axis with
  | none => simp [named] at turned
  | some axis =>
    simp only [named] at turned ⊢
    split at turned
    · cases turned
    · rename_i selected
      cases turned
      refine ⟨valid_twistBy valid axis mask angle, size_twistBy cube axis mask angle, ?_⟩
      rw [size_twistBy, if_neg selected, twistBy_neg valid]

end Cube

/-- A turn can be undone by its inverse on any valid cube. -/
theorem Turn.apply_inverse {t : Turn} {cube after : Cube} (valid : cube.Valid)
    (applied : t.apply cube = .ok after) :
    after.Valid ∧ after.size = cube.size ∧ t.inverse.apply after = .ok cube := by
  have undone := Cube.transform_neg valid applied
  rwa [← Angle.toInt_inverse] at undone

end CubeScript
