import CubeScript.Proofs.Cube.Symmetries
import CubeScript.Proofs.Script.Moving

/-!
# Turns that are reflected

Every seat has a mirror image through the center of the cube, and it is the image of its image. It
is found by its sticker: a corner lists its faces the other way round in the place across, so the
twist is not simply the opposite one. A turn that is reflected does to the image what the turn does
to the seat, and a list of turns that are reflected does to all images what the list does to the
seats. As every seat is an image, lists that agree on all seats still do when they are reflected.

The images of the pieces of a solved cube need not be untwisted. This is why agreeing there has to
be carried to all seats first.
-/

namespace CubeScript

namespace Cell

variable {size : Size} {c : Cell}

theorem mirrored_mirrored (inside : c.Inside size.layers) :
    (c.mirrored size.layers).mirrored size.layers = c := by
  obtain ⟨hx, hy, hz⟩ := inside
  simp only [mirrored, across_across hx, across_across hy, across_across hz]

theorem IsOf.mirrored {kind : PieceKind} (h : c.IsOf size kind) :
    (c.mirrored size.layers).IsOf size kind := by
  obtain ⟨⟨hx, hy, hz⟩, count⟩ := h
  refine ⟨⟨across_lt hx, across_lt hy, across_lt hz⟩, ?_⟩
  rw [← count]
  simp only [Cell.mirrored, faceCount, outer_across hx, outer_across hy, outer_across hz]

/-- The mirror image of a cell lies on the opposite faces. -/
theorem OnFace.mirrored {face : Face} (h : c.OnFace size face) :
    (c.mirrored size.layers).OnFace size face.opposite := by
  have := size.two_le
  cases face <;>
    simp_all [OnFace, Cell.mirrored, Face.opposite, Face.axis, Face.isPositive, Cell.layer, across]

end Cell

/-- In a place that shows the opposite faces, some twist shows the opposite mark. -/
theorem Place.exists_mark_opposite (kind : PieceKind) : ∀ source ∈ slots kind,
    ∀ target ∈ slots kind, (∀ face ∈ source, face.opposite ∈ target) →
      ∀ twist < kind.twists, ∃ image < kind.twists,
        mark target image = (mark source twist).opposite := by
  cases kind <;> decide +kernel

/-- Whether a seat is the mirror image of another. -/
def Seat.Mirrors (size : Size) (kind : PieceKind) (seat image : Seat) : Prop :=
  image.InRange (size.count kind) kind.twists ∧
    image.sticker size kind = (seat.sticker size kind).mirrored size.layers

namespace Seat

variable {size : Size} {kind : PieceKind} (visible : kind ≠ .center) {seat image : Seat}
  (inside : seat.InRange (size.count kind) kind.twists)

include visible inside

/-- Every seat has a mirror image. -/
theorem exists_mirrors : ∃ image, seat.Mirrors size kind image := by
  have here := Place.isOf_cell visible inside.1
  have cell := Place.cell_atCell visible here.mirrored
  have goal := Place.atCell_lt visible here.mirrored
  have opposite : ∀ face ∈ Place.faces size kind seat.place, face.opposite ∈ Place.faces size kind
      (Place.atCell size kind ((Place.cell size kind seat.place).mirrored size.layers)) := by
    intro face member
    rw [Place.mem_faces_iff visible goal, cell]
    exact ((Place.mem_faces_iff visible inside.1).1 member).mirrored
  obtain ⟨twist, twisted, shown⟩ := Place.exists_mark_opposite kind
    _ (Place.mem_slots_of_faces visible inside.1) _ (Place.mem_slots_of_faces visible goal)
    opposite _ inside.2
  exact ⟨⟨_, twist⟩, ⟨goal, twisted⟩, Sticker.ext cell shown⟩

theorem Mirrors.symm (mirrors : seat.Mirrors size kind image) : image.Mirrors size kind seat := by
  refine ⟨inside, ?_⟩
  rw [mirrors.2]
  apply Sticker.ext
  · exact (Cell.mirrored_mirrored (Place.isOf_cell visible inside.1).1).symm
  · exact (Face.opposite_opposite _).symm

end Seat

section

variable {size : Size} {kind : PieceKind} (visible : kind ≠ .center)

include visible

/-- A turn that is reflected does to the image what the turn does to the seat. -/
theorem Turn.mirrors_move (t : Turn) {seat image : Seat}
    (inside : seat.InRange (size.count kind) kind.twists)
    (mirrors : seat.Mirrors size kind image) :
    ((Op.turn t).move size kind seat).Mirrors size kind
      ((Op.turn (t.reflected size.layers)).move size kind image) := by
  refine ⟨(Cube.rigid_twistSeat visible _ _ _).inRange mirrors.1, ?_⟩
  rw [Op.move, t.layers_reflected]
  exact Cube.sticker_twistSeat visible (Sticker.conveys_mirrored size.layers t.axis) inside
    mirrors.1 mirrors.2 t.layers t.angle.toInt

theorem Turn.mirrors_moveAll (turns : List Turn) {seat image : Seat}
    (inside : seat.InRange (size.count kind) kind.twists)
    (mirrors : seat.Mirrors size kind image) :
    (Op.moveAll size kind (turns.map .turn) seat).Mirrors size kind
      (Op.moveAll size kind ((turns.map (Turn.reflected size.layers)).map .turn) image) := by
  induction turns generalizing seat image with
  | nil => exact mirrors
  | cons t turns ih =>
    have moved := (Cube.rigid_twistSeat visible t.axis t.layers t.angle.toInt).inRange inside
    exact ih moved (t.mirrors_move visible inside mirrors)

/-- Turns that move all pieces alike still do when they are reflected. -/
theorem Turn.moveAll_reflected_eq {first second : List Turn}
    (agree : ∀ seat : Seat, seat.InRange (size.count kind) kind.twists →
      Op.moveAll size kind (first.map .turn) seat = Op.moveAll size kind (second.map .turn) seat)
    {image : Seat} (inside : image.InRange (size.count kind) kind.twists) :
    Op.moveAll size kind ((first.map (Turn.reflected size.layers)).map .turn) image =
      Op.moveAll size kind ((second.map (Turn.reflected size.layers)).map .turn) image := by
  -- the image is one of a seat, namely of its own image
  obtain ⟨seat, found⟩ := Seat.exists_mirrors visible inside
  have mirrors := found.symm visible inside
  obtain ⟨range, shown⟩ := Turn.mirrors_moveAll visible first found.1 mirrors
  obtain ⟨rangeToo, shownToo⟩ := Turn.mirrors_moveAll visible second found.1 mirrors
  apply Seat.eq_of_sticker visible range rangeToo
  rw [shown, shownToo, agree seat found.1]

end

namespace Cube

/-- Make some turns one after the other, up to the first that fails. -/
def turnAll (cube : Cube) (turns : List Turn) : Cube × Option Fault :=
  cube.applyAll (turns.map .turn)

/-- Whether some turns can be made on a solved cube and do the same to it as some others. -/
def Agree (size : Size) (first second : List Turn) : Prop :=
  ∃ after, (solved size).turnAll first = (after, none) ∧
    (solved size).turnAll second = (after, none)

/-- Turns solve the cube again if they do the same as none at all. -/
theorem agree_nil_iff {size : Size} {turns : List Turn} :
    Agree size turns [] ↔ (solved size).turnAll turns = (solved size, none) := by
  constructor
  · rintro ⟨after, done, still⟩
    rw [done, ← still]
    rfl
  · intro solves
    exact ⟨_, solves, rfl⟩

variable {size : Size} {first second : List Turn}

theorem fits_map_reflected (fits : ∀ t ∈ first, (Op.turn t).Fits size) :
    ∀ t ∈ first.map (Turn.reflected size.layers), (Op.turn t).Fits size :=
  List.forall_mem_map.2 fun t member => (fits t member).reflected

theorem map_reflected_reflected (fits : ∀ t ∈ first, (Op.turn t).Fits size) :
    (first.map (Turn.reflected size.layers)).map (Turn.reflected size.layers) = first := by
  rw [List.map_map]
  refine (List.map_congr_left fun t member => ?_).trans (List.map_id _)
  exact Turn.reflected_reflected size.layers_pos size.layers_le_width
    (Op.fits_turn_iff.1 (fits t member)).2

/-- Turns that do the same to a solved cube still do when they are reflected. -/
theorem Agree.reflected (agree : Agree size first second)
    (fits : ∀ t ∈ first, (Op.turn t).Fits size) (fitsToo : ∀ t ∈ second, (Op.turn t).Fits size) :
    Agree size (first.map (Turn.reflected size.layers))
      (second.map (Turn.reflected size.layers)) := by
  obtain ⟨_, one, other⟩ := agree
  have oriented (turns : List Turn) : ∀ op ∈ turns.map Op.turn, op.Oriented :=
    List.forall_mem_map.2 fun _ _ => trivial
  apply applyAll_eq_of_moveAll (valid_solved size) (oriented _) (oriented _)
  · exact List.forall_mem_map.2 (fits_map_reflected fits)
  · exact List.forall_mem_map.2 (fits_map_reflected fitsToo)
  · intro kind visible image inside
    refine Turn.moveAll_reflected_eq visible (fun seat present => ?_) inside
    exact moveAll_eq_of_solved (oriented first) (oriented second) one other visible present

theorem agree_reflected_iff (fits : ∀ t ∈ first, (Op.turn t).Fits size)
    (fitsToo : ∀ t ∈ second, (Op.turn t).Fits size) :
    Agree size first second ↔ Agree size (first.map (Turn.reflected size.layers))
      (second.map (Turn.reflected size.layers)) := by
  refine ⟨fun agree => agree.reflected fits fitsToo, fun agree => ?_⟩
  -- reflected once more, the turns are the ones to begin with
  have back := agree.reflected (fits_map_reflected fits) (fits_map_reflected fitsToo)
  rwa [map_reflected_reflected fits, map_reflected_reflected fitsToo] at back

/-- Turns do the same to a solved cube exactly if they do when they are reflected. In particular,
turns solve it again exactly if the reflected ones do. -/
theorem turnAll_reflected_iff (fits : ∀ t ∈ first, (Op.turn t).Fits size)
    (fitsToo : ∀ t ∈ second, (Op.turn t).Fits size) :
    (Agree size first second ↔ Agree size (first.map (Turn.reflected size.layers))
      (second.map (Turn.reflected size.layers))) ∧
    ((solved size).turnAll first = (solved size, none) ↔
      (solved size).turnAll (first.map (Turn.reflected size.layers)) = (solved size, none)) := by
  refine ⟨agree_reflected_iff fits fitsToo, ?_⟩
  rw [← agree_nil_iff, ← agree_nil_iff]
  exact agree_reflected_iff fits (List.forall_mem_nil _)

/-- Three times the right and the upper face, and each of them back. -/
def rightAndUp : List Turn :=
  (List.replicate 3 [⟨.x, 4#32, .quarter⟩, ⟨.y, 4#32, .quarter⟩, ⟨.x, 4#32, .quarterBack⟩,
    ⟨.y, 4#32, .quarterBack⟩]).flatten

/-- Three times the upper and the right face, and each of them back. This is what undoes
`rightAndUp`, which undoes itself on a solved cube. -/
def upAndRight : List Turn :=
  (List.replicate 3 [⟨.y, 4#32, .quarter⟩, ⟨.x, 4#32, .quarter⟩, ⟨.y, 4#32, .quarterBack⟩,
    ⟨.x, 4#32, .quarterBack⟩]).flatten

theorem turnAll_reflected_iff_rightAndUp :
    (∀ t ∈ rightAndUp, (Op.turn t).Fits ⟨3, by decide, by decide⟩) ∧
      (∀ t ∈ upAndRight, (Op.turn t).Fits ⟨3, by decide, by decide⟩) ∧
      Agree ⟨3, by decide, by decide⟩ rightAndUp upAndRight ∧
      Agree ⟨3, by decide, by decide⟩ (rightAndUp.map (Turn.reflected 3))
        (upAndRight.map (Turn.reflected 3)) := by
  have fits : ∀ t ∈ rightAndUp, (Op.turn t).Fits ⟨3, by decide, by decide⟩ := by decide
  have fitsToo : ∀ t ∈ upAndRight, (Op.turn t).Fits ⟨3, by decide, by decide⟩ := by decide
  have agree : Agree ⟨3, by decide, by decide⟩ rightAndUp upAndRight :=
    ⟨((solved ⟨3, by decide, by decide⟩).turnAll rightAndUp).1, by decide +kernel,
      by decide +kernel⟩
  exact ⟨fits, fitsToo, agree, (turnAll_reflected_iff fits fitsToo).1.1 agree⟩

end Cube

end CubeScript
