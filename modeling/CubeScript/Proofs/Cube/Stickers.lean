import CubeScript.Proofs.Cube.Turning

/-!
# Stickers

The twist of a piece is counted in the order of the faces of its place, so what a turn adds to it
depends on how the faces of two places happen to be listed. Seen from outside there is no such
order. A corner or an edge carries its first sticker on one of its faces, and the mark on a side
points in one of four directions. A cell and one direction (`Sticker`) tell as much as a seat
(`Seat.eq_of_sticker`), and a turn of the whole cube simply turns both
(`Cube.sticker_quarterTurned`).

The tables of twists are looked at once, slot by slot, to see that they do turn the marks.
-/

namespace CubeScript

/-- A mark on a cell of a cube, and the direction it looks or points in. -/
@[ext] structure Sticker where
  cell : Cell
  direction : Face
  deriving DecidableEq, Repr

/-- Where a sticker goes under a quarter turn of the whole cube. -/
def Sticker.turn (n : Nat) (axis : Axis) (clockwise : Bool) (s : Sticker) : Sticker where
  cell := s.cell.turn n axis clockwise
  direction := s.direction.turn axis clockwise

namespace Place

/-- The direction that a piece with a given twist shows by its mark: the face with its first
sticker, and for a side the direction that was up when it was not twisted. -/
def mark (faces : List Face) (twist : Nat) : Face :=
  match faces with
  | [face] => face.spin^[twist] face.reference
  | faces => faces.getD twist .right

/-- Pieces that are twisted differently show different marks. -/
theorem mark_inj (kind : PieceKind) : ∀ faces ∈ slots kind, ∀ twist < kind.twists,
    ∀ other < kind.twists, mark faces twist = mark faces other → twist = other := by
  cases kind <;> decide +kernel

/-- A turn takes the mark of a piece along. -/
theorem mark_twistBetween (kind : PieceKind) (axis : Axis) (clockwise : Bool) :
    ∀ source ∈ slots kind, ∀ target ∈ slots kind, Carries axis clockwise source target →
      ∀ twist < kind.twists,
        mark target ((twist + twistBetween axis clockwise source target) % kind.twists) =
          (mark source twist).turn axis clockwise := by
  cases kind <;> cases axis <;> cases clockwise <;> decide +kernel

end Place

/-- The sticker that marks a seat. -/
def Seat.sticker (size : Size) (kind : PieceKind) (seat : Seat) : Sticker where
  cell := Place.cell size kind seat.place
  direction := Place.mark (Place.faces size kind seat.place) seat.twist

section

variable {size : Size} {kind : PieceKind} (visible : kind ≠ .center) {seat : Seat}
  (inside : seat.InRange (size.count kind) kind.twists)

include visible inside

/-- Seats with the same sticker are the same. -/
theorem Seat.eq_of_sticker {other : Seat}
    (present : other.InRange (size.count kind) kind.twists)
    (same : seat.sticker size kind = other.sticker size kind) : seat = other := by
  have cells : Place.cell size kind seat.place = Place.cell size kind other.place :=
    congrArg Sticker.cell same
  have places : seat.place = other.place := by
    rw [← Place.atCell_cell visible inside.1, cells, Place.atCell_cell visible present.1]
  have marks : Place.mark (Place.faces size kind seat.place) seat.twist =
      Place.mark (Place.faces size kind seat.place) other.twist := by
    refine (congrArg Sticker.direction same).trans ?_
    rw [places]
    rfl
  have twists : seat.twist = other.twist :=
    Place.mark_inj kind _ (Place.mem_slots_of_faces visible inside.1) _ inside.2 _ present.2 marks
  calc seat = ⟨seat.place, seat.twist⟩ := rfl
    _ = other := by rw [places, twists]

theorem Cube.sticker_quarterTurned (axis : Axis) (clockwise : Bool) :
    (quarterTurned size kind axis clockwise seat).sticker size kind =
      (seat.sticker size kind).turn size.layers axis clockwise := by
  have goal := Place.turn_lt visible inside.1 axis clockwise
  apply Sticker.ext
  · exact Place.cell_turn visible inside.1 axis clockwise
  · show Place.mark _ _ = (Place.mark _ _).turn axis clockwise
    rw [quarterTurned, Place.twist_eq_twistBetween]
    exact Place.mark_twistBetween kind axis clockwise
      _ (Place.mem_slots_of_faces visible inside.1) _ (Place.mem_slots_of_faces visible goal)
      (Place.carries_turn visible inside.1 axis clockwise) _ inside.2

end

end CubeScript
