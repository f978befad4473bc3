import CubeScript.Cube.Place

/-!
# The state of a cube

A cube holds, for every corner, edge and side, the place it is in and how it is twisted
there. The lists are ordered by piece, and a piece has the number of the place it belongs to,
so on a solved cube every piece sits in the place of its own number, untwisted.

Which piece sits in a place is not stored: `Cube.pieceAt?` looks it up. A `Ledger` has it
written down, and is kept up with the cube. A list of seats is a legal one (`Seat.Legal`) when
its places are those of the kind, each used once, and its twists are in range. `Cube.assign`
lets no other list in.
-/

namespace CubeScript

/-- Where a piece sits, and how it is twisted there. -/
structure Seat where
  place : Nat
  twist : Nat
  deriving DecidableEq, Repr, Inhabited

namespace Seat

/-- The seats of `count` pieces that are all at home. -/
def solved (count : Nat) : List Seat :=
  (List.range count).map fun place => ⟨place, 0⟩

@[simp] theorem length_solved (count : Nat) : (solved count).length = count := by
  simp [solved]

/-- Whether seats use the places below their number once each and keep every twist below
`twists`. -/
def Legal (count twists : Nat) (seats : List Seat) : Prop :=
  (seats.map place).Perm (List.range count) ∧ ∀ seat ∈ seats, seat.twist < twists

theorem legal_solved (count : Nat) {twists : Nat} (h : 0 < twists) :
    Legal count twists (solved count) := by
  constructor
  · rw [solved, List.map_map]
    simp [Function.comp_def]
  · simp [solved, h]

end Seat

/-- A cube of some size: the seats of its corners, edges and sides. -/
structure Cube where
  size : Size
  corners : List Seat
  edges : List Seat
  sides : List Seat
  deriving DecidableEq

namespace Cube

/-- The cube with every piece at home. -/
def solved (size : Size) : Cube where
  size := size
  corners := Seat.solved (size.count .corner)
  edges := Seat.solved (size.count .edge)
  sides := Seat.solved (size.count .side)

/-- The seats of one kind of pieces. The center never moves. -/
def seats (cube : Cube) : PieceKind → List Seat
  | .corner => cube.corners
  | .edge => cube.edges
  | .side => cube.sides
  | .center => [⟨0, 0⟩]

/-- The cube with other seats for one kind of pieces. The center keeps its seat. -/
def withSeats (cube : Cube) (kind : PieceKind) (seats : List Seat) : Cube :=
  match kind with
  | .corner => { cube with corners := seats }
  | .edge => { cube with edges := seats }
  | .side => { cube with sides := seats }
  | .center => cube

@[simp] theorem size_withSeats (cube : Cube) (kind : PieceKind) (seats : List Seat) :
    (cube.withSeats kind seats).size = cube.size := by
  cases kind <;> rfl

@[simp] theorem seats_withSeats_self (cube : Cube) {kind : PieceKind} (seats : List Seat)
    (h : kind ≠ .center) : (cube.withSeats kind seats).seats kind = seats := by
  cases kind <;> simp_all [withSeats, Cube.seats]

theorem seats_withSeats_of_ne (cube : Cube) {kind other : PieceKind} (seats : List Seat)
    (h : other ≠ kind) : (cube.withSeats kind seats).seats other = cube.seats other := by
  cases kind <;> cases other <;> simp_all [withSeats, Cube.seats]

/-- Whether every piece is in a place of its kind, no two share one, and all twists are in
range. -/
def Valid (cube : Cube) : Prop :=
  ∀ kind, Seat.Legal (cube.size.count kind) kind.twists (cube.seats kind)

theorem valid_solved (size : Size) : (solved size).Valid := by
  intro kind
  cases kind
  · exact Seat.legal_solved _ (by decide)
  · exact Seat.legal_solved _ (by decide)
  · exact Seat.legal_solved _ (by decide)
  · exact Seat.legal_solved 1 (by decide)

/-- Whether every piece is at home. -/
def IsSolved (cube : Cube) : Prop :=
  cube.corners = Seat.solved cube.corners.length ∧
    cube.edges = Seat.solved cube.edges.length ∧
      cube.sides = Seat.solved cube.sides.length

instance (cube : Cube) : Decidable cube.IsSolved :=
  inferInstanceAs (Decidable (_ ∧ _ ∧ _))

/-- The cube of the same size with every piece at home. -/
def reset (cube : Cube) : Cube := solved cube.size

/-- The places of the pieces of a kind, by piece. -/
def places (cube : Cube) (kind : PieceKind) : List Nat := (cube.seats kind).map Seat.place

/-- The twists of the pieces of a kind, by piece. -/
def twists (cube : Cube) (kind : PieceKind) : List Nat := (cube.seats kind).map Seat.twist

/-- The piece of a kind that sits in a place. -/
def pieceAt? (cube : Cube) (kind : PieceKind) (place : Nat) : Option Nat :=
  (cube.seats kind).findIdx? (·.place = place)

/-- The number of pieces of all kinds. -/
def pieceCount (size : Size) : Nat :=
  PieceKind.all.foldr (fun kind total => size.count kind + total) 0

/-- The kind of a piece that is numbered through all kinds, and its number in the kind. -/
def kindOf? (size : Size) (piece : Nat) : Option (PieceKind × Nat) :=
  go piece PieceKind.all
where
  /-- Skip the kinds whose pieces all come earlier. -/
  go (piece : Nat) : List PieceKind → Option (PieceKind × Nat)
    | [] => none
    | kind :: kinds =>
      if piece < size.count kind then some (kind, piece)
      else go (piece - size.count kind) kinds

/-- The place of a piece, both numbered through all kinds. -/
def placeOf? (cube : Cube) (piece : Nat) : Option Nat := do
  let (kind, index) ← kindOf? cube.size piece
  let seat ← (cube.seats kind)[index]?
  return piece - index + seat.place

/-- The twist of a piece that is numbered through all kinds. -/
def twistOf? (cube : Cube) (piece : Nat) : Option Nat := do
  let (kind, index) ← kindOf? cube.size piece
  let seat ← (cube.seats kind)[index]?
  return seat.twist

/-! ### Turning layers -/

/-- The seat of a piece after a quarter turn that moves it. -/
def quarterTurned (size : Size) (kind : PieceKind) (axis : Axis) (clockwise : Bool)
    (seat : Seat) : Seat where
  place := Place.turn size kind axis clockwise seat.place
  twist := (seat.twist + Place.twist size kind axis clockwise seat.place) % kind.twists

/-- The seat of a piece after `count` quarter turns that move it. -/
def turned (size : Size) (kind : PieceKind) (axis : Axis) (clockwise : Bool) :
    Nat → Seat → Seat
  | 0, seat => seat
  | count + 1, seat =>
    turned size kind axis clockwise count (quarterTurned size kind axis clockwise seat)

/-- Turn the pieces of one kind that lie in the selected layers. A quarter turn keeps
a piece in its layer along the axis, so the layers are looked at once. -/
def turnSeats (size : Size) (kind : PieceKind) (axis : Axis) (mask : LayerMask)
    (clockwise : Bool) (count : Nat) (seats : List Seat) : List Seat :=
  seats.map fun seat =>
    if mask.getLsbD (Place.layer size kind seat.place axis) then
      turned size kind axis clockwise count seat
    else seat

/-- Turn the selected layers by some quarter turns, all in one sense. -/
def turnLayers (cube : Cube) (axis : Axis) (mask : LayerMask) (clockwise : Bool)
    (count : Nat) : Cube where
  size := cube.size
  corners := turnSeats cube.size .corner axis mask clockwise count cube.corners
  edges := turnSeats cube.size .edge axis mask clockwise count cube.edges
  sides := turnSeats cube.size .side axis mask clockwise count cube.sides

/-- Turn the selected layers about an axis by a number of quarter turns, clockwise as seen
from the positive face if the number is positive. Three quarter turns are made as one
in the other sense, and four as none. -/
def twistBy (cube : Cube) (axis : Axis) (mask : LayerMask) (angle : Int) : Cube :=
  match (angle % 4).toNat with
  | 0 => cube
  | 1 => cube.turnLayers axis mask true 1
  | 2 => cube.turnLayers axis mask true 2
  | _ => cube.turnLayers axis mask false 1

/-- Turn the layers a mask selects about the axis with a given number. The mask has to select a
layer, and none that the cube does not have. -/
def transform (cube : Cube) (axis : Nat) (mask : LayerMask) (angle : Int) :
    Except Fault Cube :=
  match Axis.ofIndex? axis with
  | none => .error (.noSuchAxis axis)
  | some axis =>
    if mask = 0 ∨ ¬ mask.Within cube.size.layers then
      .error (.maskOutOfRange mask cube.size.layers)
    else .ok (cube.twistBy axis mask angle)

/-! ### Assigning seats -/

/-- Whether a list holds every number below `count` once. -/
def IsPermutation (count : Nat) (places : List Nat) : Prop :=
  places.length = count ∧ (∀ place ∈ places, place < count) ∧ places.Nodup

/-- Whether places are below a number and used once, and not by those that have been seen before.
The bits of `seen` mark the latter. -/
def usedOnce (count : Nat) : (seen : Nat) → List Nat → Bool
  | _, [] => true
  | seen, place :: places =>
    decide (place < count) && !seen.testBit place && usedOnce count (seen ||| 1 <<< place) places

theorem testBit_mark (seen place other : Nat) :
    (seen ||| 1 <<< place).testBit other = (seen.testBit other || decide (place = other)) := by
  rw [Bool.eq_iff_iff]
  simp only [Nat.testBit_or, Nat.testBit_shiftLeft, Bool.or_eq_true, Bool.and_eq_true,
    decide_eq_true_eq, Nat.testBit_one_eq_true_iff_self_eq_zero]
  exact or_congr_right (by omega)

theorem usedOnce_iff {count seen : Nat} {places : List Nat} : usedOnce count seen places = true ↔
    (∀ place ∈ places, place < count ∧ seen.testBit place = false) ∧ places.Nodup := by
  induction places generalizing seen with
  | nil => simp [usedOnce]
  | cons place places ih =>
    simp only [usedOnce, Bool.and_eq_true, decide_eq_true_eq, Bool.not_eq_true', ih, testBit_mark,
      Bool.or_eq_false_iff, decide_eq_false_iff_not, List.forall_mem_cons, List.nodup_cons]
    grind

instance (count : Nat) (places : List Nat) : Decidable (IsPermutation count places) :=
  decidable_of_iff (places.length = count ∧ usedOnce count 0 places = true) (by
    rw [usedOnce_iff, IsPermutation]
    simp)

/-- Put the pieces of one kind into given places with given twists. Nothing changes unless
the lists describe a legal arrangement. The center is checked like the rest, but keeps its
seat. -/
def assign (cube : Cube) (kind : PieceKind) (places twists : List Nat) : Except Fault Cube :=
  let count := cube.size.count kind
  if places.length ≠ count then .error (.wrongLength kind count places.length)
  else if twists.length ≠ count then .error (.wrongLength kind count twists.length)
  else if ¬ IsPermutation count places then .error (.notAPermutation kind)
  else
    match twists.find? (kind.twists ≤ ·) with
    | some twist => .error (.twistOutOfRange kind twist)
    | none => .ok (cube.withSeats kind (List.zipWith Seat.mk places twists))

end Cube

end CubeScript
