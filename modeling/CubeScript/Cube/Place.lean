import CubeScript.Cube.Cell
import CubeScript.Cube.Size

/-!
# Places of pieces

The pieces of one kind are numbered by the places they have on a solved cube. Places that
show the same faces form a slot; they are told apart by the layers they lie in. The
number of a place is the number of its slot plus the number of slots for every step inside
the slot, so places of the first steps come first.

A place is known in two ways: by its number, and by the cell it occupies. `Place.cell`
and `Place.atCell` pass from one to the other, and every quarter turn is a turn of cells
seen through them. What a turn does to the twist of a piece only depends on the faces of
the two places: the twist of a corner or an edge says which face of its place, in the order
of `Place.faces`, carries its first sticker, and the twist of a side counts clockwise
quarter turns from the reference direction of the face.
-/

namespace CubeScript

namespace Place

/-- The faces of the corner slots. The face on the vertical axis comes first and the others
follow clockwise around the corner. -/
def cornerSlots : List (List Face) :=
  [[.up, .right, .front], [.down, .front, .right], [.up, .front, .left], [.down, .left, .front],
   [.up, .back, .right], [.down, .right, .back], [.up, .left, .back], [.down, .back, .left]]

/-- The faces of the edge slots. A face on the vertical axis comes first, else one on the
axis from the back to the front. -/
def edgeSlots : List (List Face) :=
  [[.up, .right], [.up, .front], [.up, .left], [.up, .back],
   [.down, .right], [.down, .front], [.down, .left], [.down, .back],
   [.front, .right], [.front, .left], [.back, .right], [.back, .left]]

/-- The faces of the side slots, in the order of the faces. -/
def sideSlots : List (List Face) := Face.all.map ([·])

/-- The faces of every slot of a kind. The center shows none. -/
def slots : PieceKind → List (List Face)
  | .corner => cornerSlots
  | .edge => edgeSlots
  | .side => sideSlots
  | .center => []

/-- How many slots a kind has. -/
def slotCount (kind : PieceKind) : Nat := (slots kind).length

/-- The faces of a place, in the order that names it. A place the cube does not have shows
no face. -/
def faces (size : Size) (kind : PieceKind) (place : Nat) : List Face :=
  if place < size.count kind then (slots kind).getD (place % slotCount kind) []
  else []

/-- How far inside its slot a place lies. -/
def step (kind : PieceKind) (place : Nat) : Nat := place / slotCount kind

/-- The cell that shows `faces` and lies `step` steps inside the slot of these faces. On an
axis with none of the faces, an edge counts its steps along the axis, and a side counts
them row by row, the rows along the earlier of its two free axes. -/
def cellOfFaces (size : Size) (faces : List Face) (step : Nat) : Cell :=
  .ofLayers fun axis =>
    match faces.find? (·.axis = axis) with
    | some face => if face.isPositive then size.layers - 1 else 0
    | none =>
      match faces with
      | [face] =>
        if axis = (if face.axis = .x then .y else .x) then step / size.inner + 1
        else step % size.inner + 1
      | _ => step + 1

/-- The cell of a place. -/
def cell (size : Size) (kind : PieceKind) (place : Nat) : Cell :=
  cellOfFaces size (faces size kind place) (step kind place)

/-- One for the first layer, which lies on the negative face, and zero for every other. -/
def lowest (k : Nat) : Nat := if k = 0 then 1 else 0

/-- Whether a layer lies between the two outer ones. -/
def IsInner (size : Size) (k : Nat) : Prop := 0 < k ∧ k < size.layers - 1

instance (size : Size) (k : Nat) : Decidable (IsInner size k) :=
  inferInstanceAs (Decidable (_ ∧ _))

/-- The number of the corner in a cell. -/
def cornerAt (c : Cell) : Nat := lowest c.y + 2 * lowest c.x + 4 * lowest c.z

/-- The number of the edge in a cell, read off the one layer that is not an outer one. -/
def edgeAt (size : Size) (c : Cell) : Nat :=
  if IsInner size c.z then 2 * lowest c.x + 4 * lowest c.y + 12 * (c.z - 1)
  else if IsInner size c.x then 1 + 2 * lowest c.z + 4 * lowest c.y + 12 * (c.x - 1)
  else 8 + lowest c.x + 2 * lowest c.z + 12 * (c.y - 1)

/-- The number of the side in a cell, read off the one layer that is an outer one. -/
def sideAt (size : Size) (c : Cell) : Nat :=
  if ¬ IsInner size c.x then
    3 * lowest c.x + 6 * ((c.y - 1) * size.inner + (c.z - 1))
  else if ¬ IsInner size c.y then
    1 + 3 * lowest c.y + 6 * ((c.x - 1) * size.inner + (c.z - 1))
  else
    2 + 3 * lowest c.z + 6 * ((c.x - 1) * size.inner + (c.y - 1))

/-- The number of the place of a kind in a cell. -/
def atCell (size : Size) (kind : PieceKind) (c : Cell) : Nat :=
  match kind with
  | .corner => cornerAt c
  | .edge => edgeAt size c
  | .side => sideAt size c
  | .center => 0

/-- The layer of a place along an axis. A place the cube does not have counts as one of
the first layer, and so does the center. -/
def layer (size : Size) (kind : PieceKind) (place : Nat) (axis : Axis) : Nat :=
  if kind ≠ .center ∧ place < size.count kind then (cell size kind place).layer axis else 0

/-- Where a place goes under a quarter turn of the whole cube. -/
def turn (size : Size) (kind : PieceKind) (axis : Axis) (clockwise : Bool) (place : Nat) : Nat :=
  atCell size kind ((cell size kind place).turn size.layers axis clockwise)

/-- By how much a quarter turn of the whole cube twists the piece in a place. -/
def twist (size : Size) (kind : PieceKind) (axis : Axis) (clockwise : Bool) (place : Nat) : Nat :=
  match faces size kind place with
  | [] => 0
  | [face] =>
    let target := face.turn axis clockwise
    target.spinsBetween target.reference (face.reference.turn axis clockwise)
  | face :: _ =>
    (faces size kind (turn size kind axis clockwise place)).idxOf (face.turn axis clockwise)

/-- The name of a place: the letters of its faces, and its number inside the slot, from
one, where the slot has more than one place. -/
def name (size : Size) (kind : PieceKind) (place : Nat) : String :=
  let letters := Face.letters (faces size kind place)
  let number := if 1 < size.perSlot kind then toString (step kind place + 1) else ""
  let suffix := if kind = .center then "center" else ""
  letters ++ number ++ suffix

/-- A place as it is written: the letters of some faces and a number, if there is one. -/
def describe (faces : List Face) (number : Option Nat) : String :=
  Face.letters faces ++ (number.map toString).getD ""

/-- Whether one list of faces is the other one begun `offset` places later. -/
def IsRotation (canonical faces : List Face) (offset : Nat) : Prop :=
  canonical.rotateLeft offset = faces

instance (canonical faces : List Face) (offset : Nat) :
    Decidable (IsRotation canonical faces offset) :=
  inferInstanceAs (Decidable (_ = _))

/-- The place named by some faces and a number inside their slot, one if none is given.
The faces may start anywhere in the order of the place, but have to go round in the same sense;
the result tells where they start. -/
def locate (size : Size) (faces : List Face) (number : Option Nat) :
    Except Cube.Fault (PieceKind × Nat × Nat) :=
  let name := describe faces number
  match PieceKind.ofFaceCount? faces.length with
  | none => .error (.impossiblePart name)
  | some kind =>
    if ¬ (faces.map Face.axis).Nodup then .error (.impossiblePart name)
    else
      let index := number.getD 1
      if index = 0 ∨ size.perSlot kind < index then .error (.noSuchPart name)
      else
        let place := atCell size kind (cellOfFaces size faces (index - 1))
        let canonical := Place.faces size kind place
        let offset := canonical.idxOf (faces.headD .right)
        if IsRotation canonical faces offset then .ok (kind, place, offset)
        else .error (.impossiblePart name)

end Place

end CubeScript
