import CubeScript.Proofs.Cube.Cycling
import CubeScript.Proofs.Cube.Turning

/-!
# Motions of single seats

A turn and a cycle change a whole list of seats, but they give each piece its new seat on its own,
and they only look at the place it is in: a piece that is twisted in its place before the motion
ends up where it would have, twisted by as much. Such a motion (`Seat.Rigid`) is known from what
it does to pieces that are not twisted, one for each place, and those are what a solved cube has.

An angle is a number of clockwise quarter turns here, up to three of them. On seats of the cube
three are the same as one in the other sense, which is how a cube makes them.
-/

namespace CubeScript

namespace Seat

/-- The seat of a piece that has been twisted further in its place. -/
def twistedBy (twists extra : Nat) (seat : Seat) : Seat :=
  { seat with twist := (seat.twist + extra) % twists }

@[simp] theorem place_twistedBy (twists extra : Nat) (seat : Seat) :
    (seat.twistedBy twists extra).place = seat.place := rfl

/-- A seat is the one of an untwisted piece in the same place, twisted. -/
theorem InRange.eq_twistedBy {count twists : Nat} {seat : Seat}
    (inside : seat.InRange count twists) :
    seat = (Seat.mk seat.place 0).twistedBy twists seat.twist := by
  unfold Seat.twistedBy
  rw [Nat.zero_add, Nat.mod_eq_of_lt inside.2]

/-- Whether a motion keeps seats in range, and it makes no difference if a piece is twisted in its
place before the motion or afterwards. -/
structure Rigid (count twists : Nat) (motion : Seat → Seat) : Prop where
  inRange : ∀ {seat : Seat}, seat.InRange count twists → (motion seat).InRange count twists
  twistedBy : ∀ {seat : Seat}, seat.InRange count twists → ∀ extra,
    motion (seat.twistedBy twists extra) = (motion seat).twistedBy twists extra

namespace Rigid

variable {count twists : Nat} {first second : Seat → Seat}

theorem refl (count twists : Nat) : Rigid count twists fun seat => seat where
  inRange inside := inside
  twistedBy _ _ := rfl

theorem trans (before : Rigid count twists first) (after : Rigid count twists second) :
    Rigid count twists fun seat => second (first seat) where
  inRange inside := after.inRange (before.inRange inside)
  twistedBy inside extra := by
    rw [before.twistedBy inside, after.twistedBy (before.inRange inside)]

/-- Rigid motions that agree on the pieces of a solved cube are the same. -/
theorem eq_of_solved (one : Rigid count twists first) (other : Rigid count twists second)
    (agree : (solved count).map first = (solved count).map second) {seat : Seat}
    (inside : seat.InRange count twists) : first seat = second seat := by
  have home : Seat.mk seat.place 0 ∈ solved count :=
    List.mem_map_of_mem (List.mem_range.2 inside.1)
  have start : (Seat.mk seat.place 0).InRange count twists :=
    ⟨inside.1, Nat.zero_lt_of_lt inside.2⟩
  have same : first ⟨seat.place, 0⟩ = second ⟨seat.place, 0⟩ := List.map_inj_left.1 agree _ home
  calc first seat = first ((Seat.mk seat.place 0).twistedBy twists seat.twist) :=
        congrArg first inside.eq_twistedBy
    _ = (first ⟨seat.place, 0⟩).twistedBy twists seat.twist := one.twistedBy start _
    _ = (second ⟨seat.place, 0⟩).twistedBy twists seat.twist := by rw [same]
    _ = second ((Seat.mk seat.place 0).twistedBy twists seat.twist) :=
        (other.twistedBy start _).symm
    _ = second seat := congrArg second inside.eq_twistedBy.symm

end Rigid

end Seat

namespace Cube

/-! ### Turns of layers -/

theorem transform_eq_ok_iff {cube after : Cube} {axis : Axis} {mask : LayerMask} {angle : Int} :
    cube.transform axis.index mask angle = .ok after ↔
      (mask ≠ 0 ∧ mask.Within cube.size.layers) ∧ after = cube.twistBy axis mask angle := by
  unfold transform
  rw [Axis.ofIndex?_index]
  dsimp only
  split
  · rename_i refused
    exact iff_of_false nofun fun h => refused.elim h.1.1 (absurd h.1.2)
  · rename_i selected
    rw [not_or, not_not] at selected
    rw [Except.ok.injEq, eq_comm]
    exact (and_iff_right selected).symm

/-- The seat of a piece after the selected layers have been turned by an angle. -/
def twistSeat (size : Size) (kind : PieceKind) (axis : Axis) (mask : LayerMask) (angle : Int)
    (seat : Seat) : Seat :=
  if mask.getLsbD (Place.layer size kind seat.place axis) then
    turned size kind axis true (angle % 4).toNat seat
  else seat

section

variable {size : Size} {kind : PieceKind} (visible : kind ≠ .center) (axis : Axis)

include visible

/-- Three quarter turns in one sense are one in the other. -/
theorem turned_three (clockwise : Bool) {seat : Seat}
    (inside : seat.InRange (size.count kind) kind.twists) :
    turned size kind axis clockwise 3 seat = quarterTurned size kind axis (!clockwise) seat := by
  have once := inRange_quarterTurned visible inside axis (!clockwise)
  have back := quarterTurned_back visible once axis (!clockwise)
  have twice := quarterTurned_twice visible inside axis clockwise
  rw [Bool.not_not] at back
  rw [turned, turned, turned, turned, ← twice, back]

/-- Turning by an angle in one sense is turning by the opposite angle in the other. -/
theorem turned_not (clockwise : Bool) (angle : Int) {seat : Seat}
    (inside : seat.InRange (size.count kind) kind.twists) :
    turned size kind axis (!clockwise) (angle % 4).toNat seat =
      turned size kind axis clockwise (-angle % 4).toNat seat := by
  have angles : (angle % 4).toNat = 0 ∧ (-angle % 4).toNat = 0 ∨
      (angle % 4).toNat = 1 ∧ (-angle % 4).toNat = 3 ∨
      (angle % 4).toNat = 2 ∧ (-angle % 4).toNat = 2 ∨
      (angle % 4).toNat = 3 ∧ (-angle % 4).toNat = 1 := by omega
  obtain ⟨there, back⟩ | ⟨there, back⟩ | ⟨there, back⟩ | ⟨there, back⟩ := angles <;>
    rw [there, back]
  · rfl
  · exact (turned_three visible axis clockwise inside).symm
  · exact quarterTurned_twice visible inside axis clockwise
  · have three := turned_three visible axis (!clockwise) inside
    rwa [Bool.not_not] at three

/-- A twist of a cube moves each piece on its own. -/
theorem seats_twistBy {cube : Cube} (valid : cube.Valid) (mask : LayerMask) (angle : Int) :
    (cube.twistBy axis mask angle).seats kind =
      (cube.seats kind).map (twistSeat cube.size kind axis mask angle) := by
  have turns (clockwise : Bool) (count : Nat) (same : ∀ seat : Seat,
      seat.InRange (cube.size.count kind) kind.twists →
        turned cube.size kind axis clockwise count seat =
          turned cube.size kind axis true (angle % 4).toNat seat) :
      (cube.turnLayers axis mask clockwise count).seats kind =
        (cube.seats kind).map (twistSeat cube.size kind axis mask angle) := by
    rw [seats_turnLayers _ _ _ _ _ visible, turnSeats]
    apply List.map_congr_left
    intro seat member
    rw [twistSeat, same seat ((valid kind).inRange member)]
  have range : (angle % 4).toNat = 0 ∨ (angle % 4).toNat = 1 ∨ (angle % 4).toNat = 2 ∨
      (angle % 4).toNat = 3 := by omega
  rw [twistBy]
  obtain none | one | two | three := range
  · simp only [none]
    refine ((List.map_congr_left fun seat _ => ?_).trans (List.map_id _)).symm
    rw [twistSeat, none, turned, ite_self, id_eq]
  · simp only [one]
    exact turns true 1 fun seat _ => by rw [one]
  · simp only [two]
    exact turns true 2 fun seat _ => by rw [two]
  · simp only [three]
    refine turns false 1 fun seat inside => ?_
    rw [three]
    exact (turned_three visible axis true inside).symm

theorem rigid_quarterTurned (clockwise : Bool) :
    Seat.Rigid (size.count kind) kind.twists (quarterTurned size kind axis clockwise) where
  inRange inside := inRange_quarterTurned visible inside axis clockwise
  twistedBy _ _ := by
    simp only [quarterTurned, Seat.twistedBy, Nat.mod_add_mod, Nat.add_right_comm]

theorem rigid_turned (clockwise : Bool) (count : Nat) :
    Seat.Rigid (size.count kind) kind.twists (turned size kind axis clockwise count) := by
  induction count with
  | zero => exact .refl _ _
  | succ count ih => exact (rigid_quarterTurned visible axis clockwise).trans ih

/-- Whether a piece is turned depends on its place alone. -/
theorem rigid_twistSeat (mask : LayerMask) (angle : Int) :
    Seat.Rigid (size.count kind) kind.twists (twistSeat size kind axis mask angle) := by
  have rigid : Seat.Rigid (size.count kind) kind.twists
      (turned size kind axis true (angle % 4).toNat) := rigid_turned visible axis true _
  constructor
  · intro seat inside
    unfold twistSeat
    split
    · exact rigid.inRange inside
    · exact inside
  · intro seat inside extra
    unfold twistSeat
    rw [Seat.place_twistedBy]
    split
    · exact rigid.twistedBy inside extra
    · rfl

end

end Cube

namespace Cycle

/-! ### Cycles -/

/-- What a cycle does to the pieces in one of its places: they leave one item and enter another, and
the last item adds the twist of the sign. -/
theorem exists_enter_of_mem {c : Cycle} {place : Nat} (member : place ∈ c.items.map Item.place) :
    ∃ source ∈ c.items, ∃ target ∈ c.items, source.place = place ∧
      ∀ seat : Seat, seat.place = place → c.move seat = enter c.kind
        (if place = (c.items.getLast c.items_ne_nil).place then c.sign.twist c.kind.twists else 0)
        source target seat := by
  by_cases closing : place = (c.items.getLast c.items_ne_nil).place
  · rw [if_pos closing]
    refine ⟨_, List.getLast_mem c.items_ne_nil, _, List.head_mem c.items_ne_nil, closing.symm, ?_⟩
    exact fun seat here => move_closing (here.trans closing)
  · rw [if_neg closing]
    have within : (Seat.mk place 0).place ∈ c.items.map Item.place := member
    obtain ⟨source, target, step, start⟩ := exists_mem_steps within
    obtain linked | last := mem_steps_iff.1 step
    · refine ⟨source, linked.subset (by simp), target, linked.subset (by simp), start.symm, ?_⟩
      exact fun seat here => move_of_link linked (here.trans start)
    · exact absurd (start.trans (congrArg (fun step => step.1.place) last)) closing

/-- The turn from one face to another adds to the twist of a piece. -/
theorem twistAfter_eq {kind : PieceKind} {twist : Nat} {source target : Item}
    (leaves : source.orientation.toNat < kind.twists) :
    twistAfter kind twist source target = (twist + (kind.twists - source.orientation.toNat) +
      target.orientation.toNat) % kind.twists := by
  rw [twistAfter, twistSum, Nat.mod_eq_of_lt leaves, Nat.add_sub_assoc leaves.le, Nat.add_assoc,
    Nat.mod_add_mod, Nat.add_assoc]

/-- Where a cycle takes a piece depends on its place alone, and so does the twist it adds. -/
theorem rigid_move {c : Cycle} (oriented : c.Oriented) {count : Nat}
    (inside : ∀ item ∈ c.items, item.place < count) :
    Seat.Rigid count c.kind.twists c.move where
  inRange present := inRange_move inside present
  twistedBy {seat} _ extra := by
    by_cases member : seat.place ∈ c.items.map Item.place
    · obtain ⟨source, leaves, target, _, _, goes⟩ := exists_enter_of_mem member
      rw [goes _ rfl, goes _ (Seat.place_twistedBy ..)]
      simp only [enter, Seat.twistedBy, twistAfter_eq (oriented _ leaves),
        Nat.mod_add_mod, Nat.add_assoc, Nat.add_left_comm extra, Nat.add_comm extra]
    · rw [move_of_notMem member, move_of_notMem (by rwa [Seat.place_twistedBy])]

end Cycle

end CubeScript
