import CubeScript.Proofs.Cube.Motions
import Mathlib.Algebra.BigOperators.ModEq

/-!
# The twists of all pieces together

What a motion adds to the twist of a piece can often be told from the two places alone, as the
difference of a number that each of them has (`Seat.Shifts`). The places are rearranged among the
pieces, so these numbers cancel in the sum over all pieces, and the twists add up to the same as
before. What a motion adds beyond the difference is left over.

For a turn the number of a place says how the face on the axis stands in the order of the place, as
this face stays where it is. An edge between the outer layers has no such face, and there it says
whether the two faces are at like ends of their axes. Sides have no such number: each quarter turn
twists them once. For a cycle the number is the face an item names, and the sign is left over once.
-/

namespace CubeScript

namespace Seat

/-- Whether a motion twists every piece by the difference of a `datum` of the two places, and by an
`extra` amount that the place it leaves may have. -/
def Shifts (count twists : Nat) (motion : Seat → Seat) (datum extra : Nat → Nat) : Prop :=
  ∀ seat : Seat, seat.InRange count twists →
    (motion seat).twist + datum seat.place ≡
      seat.twist + datum (motion seat).place + extra seat.place [MOD twists]

theorem Shifts.trans {count twists : Nat} {first second : Seat → Seat} {datum extra : Nat → Nat}
    (shifts : Shifts count twists first datum extra)
    (inRange : ∀ {seat : Seat}, seat.InRange count twists → (first seat).InRange count twists)
    (further : Shifts count twists second datum fun _ => 0) :
    Shifts count twists (fun seat => second (first seat)) datum extra := by
  intro seat inside
  have both := (further (first seat) (inRange inside)).add (shifts seat inside)
  apply Nat.ModEq.add_right_cancel' (datum (first seat).place + (first seat).twist)
  calc (second (first seat)).twist + datum seat.place +
        (datum (first seat).place + (first seat).twist)
      = (second (first seat)).twist + datum (first seat).place +
          ((first seat).twist + datum seat.place) := by omega
    _ ≡ (first seat).twist + datum (second (first seat)).place + 0 +
          (seat.twist + datum (first seat).place + extra seat.place) [MOD twists] := both
    _ = seat.twist + datum (second (first seat)).place + extra seat.place +
          (datum (first seat).place + (first seat).twist) := by omega

section

variable {count twists : Nat} {seats : List Seat}

/-- Adding up something over the places of the pieces is adding it up over all places. -/
theorem Legal.sum_map_place (legal : Legal count twists seats) (f : Nat → Nat) :
    (seats.map fun seat => f seat.place).sum = ((List.range count).map f).sum := by
  have same := (legal.1.map f).sum_eq
  rwa [List.map_map] at same

/-- The data of the places cancel, and only what is extra is left over. -/
theorem Shifts.sum_twist {motion : Seat → Seat} {datum extra : Nat → Nat}
    (shifts : Shifts count twists motion datum extra) (legal : Legal count twists seats)
    (after : Legal count twists (seats.map motion)) :
    ((seats.map motion).map twist).sum ≡
      (seats.map twist).sum + ((List.range count).map extra).sum [MOD twists] := by
  have each : (seats.map fun seat => (motion seat).twist + datum seat.place).sum ≡
      (seats.map fun seat =>
        seat.twist + datum (motion seat).place + extra seat.place).sum [MOD twists] :=
    Nat.ModEq.listSum_map fun seat member => shifts seat (legal.inRange member)
  have reached : (seats.map fun seat => datum (motion seat).place).sum =
      ((List.range count).map datum).sum := by
    rw [← after.sum_map_place, List.map_map]
    rfl
  simp only [List.sum_map_add, legal.sum_map_place, reached] at each
  rw [Nat.add_right_comm] at each
  rw [List.map_map]
  exact Nat.ModEq.add_right_cancel' _ each

end

end Seat

theorem PieceKind.ne_center_of_turnable {kind : PieceKind}
    (turnable : kind = .corner ∨ kind = .edge) : kind ≠ .center := by
  obtain rfl | rfl := turnable <;> decide

namespace Place

/-- The number that turns about an axis go by: where the face on the axis stands in the order of a
place. If there is none, it is zero for faces at like ends of their axes. -/
def datum (axis : Axis) (faces : List Face) : Nat :=
  match faces.findIdx? (·.axis = axis) with
  | some index => index
  | none => if faces.all Face.isPositive ∨ ¬ faces.any Face.isPositive then 0 else 1

theorem twistBetween_add_datum {kind : PieceKind} (turnable : kind = .corner ∨ kind = .edge)
    (axis : Axis) (clockwise : Bool) :
    ∀ source ∈ slots kind, ∀ target ∈ slots kind, Carries axis clockwise source target →
      (twistBetween axis clockwise source target + datum axis source) % kind.twists =
        datum axis target % kind.twists := by
  obtain rfl | rfl := turnable <;> cases axis <;> cases clockwise <;> decide +kernel

end Place

namespace Cube

section

variable {size : Size} {kind : PieceKind} (turnable : kind = .corner ∨ kind = .edge) (axis : Axis)

include turnable

theorem shifts_quarterTurned (clockwise : Bool) : Seat.Shifts (size.count kind) kind.twists
    (quarterTurned size kind axis clockwise)
    (fun place => Place.datum axis (Place.faces size kind place)) (fun _ => 0) := by
  intro seat inside
  have visible := PieceKind.ne_center_of_turnable turnable
  have goal := Place.turn_lt visible inside.1 axis clockwise
  have change := Place.twistBetween_add_datum turnable axis clockwise
    _ (Place.mem_slots_of_faces visible inside.1) _ (Place.mem_slots_of_faces visible goal)
    (Place.carries_turn visible inside.1 axis clockwise)
  rw [← Place.twist_eq_twistBetween] at change
  show (_ + _) % _ + _ ≡ seat.twist + _ + 0 [MOD _]
  rw [Nat.add_zero]
  calc (seat.twist + Place.twist size kind axis clockwise seat.place) % kind.twists +
          Place.datum axis (Place.faces size kind seat.place)
      ≡ seat.twist + Place.twist size kind axis clockwise seat.place +
          Place.datum axis (Place.faces size kind seat.place) [MOD kind.twists] :=
        (Nat.mod_modEq _ _).add_right _
    _ = seat.twist + (Place.twist size kind axis clockwise seat.place +
          Place.datum axis (Place.faces size kind seat.place)) := Nat.add_assoc ..
    _ ≡ _ [MOD kind.twists] := Nat.ModEq.add_left _ change

/-- Turning layers shifts the twists by what the axis says of the places. -/
theorem shifts_twistSeat (mask : LayerMask) (angle : Int) : Seat.Shifts (size.count kind)
    kind.twists (twistSeat size kind axis mask angle)
    (fun place => Place.datum axis (Place.faces size kind place)) (fun _ => 0) := by
  have visible := PieceKind.ne_center_of_turnable turnable
  have turns (count : Nat) : Seat.Shifts (size.count kind) kind.twists
      (turned size kind axis true count)
      (fun place => Place.datum axis (Place.faces size kind place)) (fun _ => 0) := by
    induction count with
    | zero => exact fun seat _ => .rfl
    | succ count ih =>
      apply (shifts_quarterTurned turnable axis true).trans _ ih
      exact fun inside => inRange_quarterTurned visible inside axis true
  intro seat inside
  unfold twistSeat
  split
  · exact turns _ seat inside
  · exact .rfl

end

end Cube

namespace Cycle

/-- The face that the item for a place names. -/
def facing (c : Cycle) (place : Nat) : Nat :=
  ((c.items.find? (·.place = place)).map (·.orientation.toNat)).getD 0

/-- What the sign of a cycle adds to the twist of the piece in a place. -/
def closingTwist (c : Cycle) (place : Nat) : Nat :=
  if place = (c.items.getLast c.items_ne_nil).place then c.sign.twist c.kind.twists else 0

theorem facing_of_mem {c : Cycle} {item : Item} (member : item ∈ c.items) :
    c.facing item.place = item.orientation.toNat := by
  have found : (c.items.find? (·.place = item.place)).isSome := by
    rw [List.find?_isSome]
    exact ⟨item, member, decide_eq_true rfl⟩
  obtain ⟨other, found⟩ := Option.isSome_iff_exists.1 found
  have here : other.place = item.place := by simpa using List.find?_some found
  have same := List.inj_on_of_nodup_map c.nodup_places (List.mem_of_find?_eq_some found) member here
  rw [facing, found, same]
  rfl

/-- A cycle shifts the twists by the faces its items name, and by the sign. -/
theorem shifts_move {c : Cycle} (oriented : c.Oriented) (count : Nat) :
    Seat.Shifts count c.kind.twists c.move c.facing c.closingTwist := by
  intro seat _
  by_cases member : seat.place ∈ c.items.map Item.place
  · obtain ⟨source, leaves, target, enters, start, goes⟩ := exists_enter_of_mem member
    rw [goes seat rfl, ← start, facing_of_mem leaves]
    show (_ + c.closingTwist source.place) % _ + _ ≡ seat.twist + c.facing target.place + _ [MOD _]
    rw [facing_of_mem enters, twistAfter_eq (oriented _ leaves)]
    have few := (oriented source leaves).le
    generalize c.closingTwist source.place = extra
    calc ((seat.twist + (c.kind.twists - source.orientation.toNat) + target.orientation.toNat) %
          c.kind.twists + extra) % c.kind.twists + source.orientation.toNat
        ≡ (seat.twist + (c.kind.twists - source.orientation.toNat) + target.orientation.toNat) %
          c.kind.twists + extra + source.orientation.toNat [MOD c.kind.twists] :=
          (Nat.mod_modEq _ _).add_right _
      _ ≡ seat.twist + (c.kind.twists - source.orientation.toNat) + target.orientation.toNat +
          extra + source.orientation.toNat [MOD c.kind.twists] :=
          ((Nat.mod_modEq _ _).add_right _).add_right _
      _ = seat.twist + target.orientation.toNat + extra + c.kind.twists := by omega
      _ ≡ seat.twist + target.orientation.toNat + extra [MOD c.kind.twists] :=
          Nat.add_modEq_right
  · rw [move_of_notMem member]
    have elsewhere : seat.place ≠ (c.items.getLast c.items_ne_nil).place := by
      intro same
      exact member (same ▸ List.mem_map_of_mem (List.getLast_mem _))
    rw [closingTwist, if_neg elsewhere]
    exact .rfl

theorem sum_closingTwist {c : Cycle} {count : Nat}
    (inside : ∀ item ∈ c.items, item.place < count) :
    ((List.range count).map c.closingTwist).sum = c.sign.twist c.kind.twists := by
  have last := inside _ (List.getLast_mem c.items_ne_nil)
  rw [List.sum_map_eq_nsmul_single (c.items.getLast c.items_ne_nil).place,
    List.count_eq_one_of_mem List.nodup_range (List.mem_range.2 last), one_nsmul, closingTwist,
    if_pos rfl]
  exact fun place other _ => if_neg other

end Cycle

end CubeScript
