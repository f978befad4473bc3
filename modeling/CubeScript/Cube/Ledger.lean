import CubeScript.Cube.State

/-!
# Cubes as they are kept

A `Cube` holds the seat of every piece, and which piece sits in a place is looked up there. A ledger
has this written down. Of each kind of pieces it keeps three lists (`Register`): the place and the
twist of every piece, and the piece in every place. The third list tells nothing that the first does
not, so whatever changes one of them has to write the other.

Entries are written one by one. A request that is refused is refused before the first of them is
written.
-/

namespace CubeScript

/-- What is kept of one kind of pieces. -/
structure Register where
  /-- The place of every piece. -/
  places : List Nat
  /-- The twist of every piece. -/
  twists : List Nat
  /-- The piece in every place, or `none` where nothing has been written. -/
  pieces : List (Option Nat)
  deriving DecidableEq, Repr

namespace Register

/-- The lists of `count` pieces that are all at home. -/
def solved (count : Nat) : Register where
  places := List.range count
  twists := List.replicate count 0
  pieces := (List.range count).map some

/-- Whether every piece is at home. The list of pieces by place is not looked at. -/
def IsSolved (r : Register) : Prop :=
  (∀ entry ∈ r.places.zipIdx, entry.1 = entry.2) ∧ ∀ twist ∈ r.twists, twist = 0

instance (r : Register) : Decidable r.IsSolved := inferInstanceAs (Decidable (_ ∧ _))

/-- The piece in a place. -/
def pieceAt? (r : Register) (place : Nat) : Option Nat := r.pieces[place]?.join

/-- Turn one piece, if it lies in a selected layer. -/
def turnPiece (size : Size) (kind : PieceKind) (axis : Axis) (mask : LayerMask) (clockwise : Bool)
    (count : Nat) (r : Register) (piece : Nat) : Register :=
  match r.places[piece]?, r.twists[piece]? with
  | some place, some twist =>
    if mask.getLsbD (Place.layer size kind place axis) then
      let seat := Cube.turned size kind axis clockwise count ⟨place, twist⟩
      { r with
        places := r.places.set piece seat.place
        twists := r.twists.set piece seat.twist }
    else r
  | _, _ => r

/-- Write every piece into the entry of its place. -/
def index (r : Register) : Register :=
  { r with
    pieces := r.places.zipIdx.foldl (fun pieces (place, piece) => pieces.set place (some piece))
      r.pieces }

/-- Turn the pieces that lie in the selected layers, one after the other, and then write down anew
where they are. -/
def turn (size : Size) (kind : PieceKind) (axis : Axis) (mask : LayerMask) (clockwise : Bool)
    (count : Nat) (r : Register) : Register :=
  ((List.range r.places.length).foldl (turnPiece size kind axis mask clockwise count) r).index

end Register

/-- A cube of some size as it is kept: the lists of its corners, edges and sides. -/
structure Ledger where
  size : Size
  corners : Register
  edges : Register
  sides : Register
  deriving DecidableEq

namespace Cube

/-- Write pieces into the slots of their places, where `piece` is the number of the first. This
fails if a place has no slot, or one that has been written already. -/
def fillSlots (slots : List (Option Nat)) (piece : Nat) : List Nat → Option (List (Option Nat))
  | [] => some slots
  | place :: places =>
    match slots[place]? with
    | some none => fillSlots (slots.set place (some piece)) (piece + 1) places
    | _ => none

end Cube

namespace Ledger

/-- The ledger of a cube with every piece at home. -/
def solved (size : Size) : Ledger where
  size := size
  corners := .solved (size.count .corner)
  edges := .solved (size.count .edge)
  sides := .solved (size.count .side)

/-- The lists of one kind of pieces. Those of the center never change. -/
def register (l : Ledger) : PieceKind → Register
  | .corner => l.corners
  | .edge => l.edges
  | .side => l.sides
  | .center => .solved 1

/-- The ledger with other lists for one kind of pieces. The center keeps its own. -/
def withRegister (l : Ledger) (kind : PieceKind) (r : Register) : Ledger :=
  match kind with
  | .corner => { l with corners := r }
  | .edge => { l with edges := r }
  | .side => { l with sides := r }
  | .center => l

/-- Whether every piece is at home. -/
def IsSolved (l : Ledger) : Prop := l.corners.IsSolved ∧ l.edges.IsSolved ∧ l.sides.IsSolved

instance (l : Ledger) : Decidable l.IsSolved := inferInstanceAs (Decidable (_ ∧ _ ∧ _))

/-- The ledger of the same size with every piece at home. -/
def reset (l : Ledger) : Ledger :=
  { l with
    corners := .solved (l.size.count .corner)
    edges := .solved (l.size.count .edge)
    sides := .solved (l.size.count .side) }

/-- The cube that a ledger is of. -/
def cube (l : Ledger) : Cube where
  size := l.size
  corners := List.zipWith Seat.mk l.corners.places l.corners.twists
  edges := List.zipWith Seat.mk l.edges.places l.edges.twists
  sides := List.zipWith Seat.mk l.sides.places l.sides.twists

/-- Turn the selected layers by some quarter turns, all in one sense. -/
def turnLayers (l : Ledger) (axis : Axis) (mask : LayerMask) (clockwise : Bool) (count : Nat) :
    Ledger where
  size := l.size
  corners := l.corners.turn l.size .corner axis mask clockwise count
  edges := l.edges.turn l.size .edge axis mask clockwise count
  sides := l.sides.turn l.size .side axis mask clockwise count

/-- Turn the layers a mask selects about the axis with a given number. Gives the ledger afterwards
and what is wrong with the request, if it is refused. -/
def transform (l : Ledger) (axis : Nat) (mask : LayerMask) (angle : Int) :
    Ledger × Option Cube.Fault :=
  match Axis.ofIndex? axis with
  | none => (l, some (.noSuchAxis axis))
  | some axis =>
    if mask = 0 ∨ ¬ mask.Within l.size.layers then
      (l, some (.maskOutOfRange mask l.size.layers))
    else
      match (angle % 4).toNat with
      | 0 => (l, none)
      | 1 => (l.turnLayers axis mask true 1, none)
      | 2 => (l.turnLayers axis mask true 2, none)
      | _ => (l.turnLayers axis mask false 1, none)

/-- Put the pieces of one kind into given places with given twists. Whether the places are those of
the kind in some order is told by filling empty slots, and these become the pieces by place. The
center is checked like the rest, but keeps its lists. -/
def assign (l : Ledger) (kind : PieceKind) (places twists : List Nat) :
    Ledger × Option Cube.Fault :=
  let count := l.size.count kind
  if places.length ≠ count then (l, some (.wrongLength kind count places.length))
  else if twists.length ≠ count then (l, some (.wrongLength kind count twists.length))
  else
    match Cube.fillSlots (List.replicate count none) 0 places with
    | none => (l, some (.notAPermutation kind))
    | some pieces =>
      match twists.find? (kind.twists ≤ ·) with
      | some twist => (l, some (.twistOutOfRange kind twist))
      | none => (l.withRegister kind ⟨places, twists, pieces⟩, none)

end Ledger

end CubeScript
