import CubeScript.Proofs.Cube.Assigning

/-!
# Ledgers that are kept up

The ledger of a cube (`Ledger.ofCube`) has the places and twists that the cube has, and of every place
the piece that is looked up there. What changes a cube changes its ledger alike: one of these can be
done first and the other one read off.

For a turn this takes two loops. The first goes through the pieces and writes their new places over
the old ones, so halfway through two pieces may have one place. When it is over the places are those
of the kind again, each used once, and so the second loop writes every entry of the list by place.
What was there before does not matter (`Register.index_eq`).
-/

namespace CubeScript

/-- The piece that is found in a place is the one that sits there. -/
theorem Seat.Legal.findIdx?_eq_some_iff {count twists : Nat} {seats : List Seat}
    (legal : Legal count twists seats) {place piece : Nat} :
    seats.findIdx? (·.place = place) = some piece ↔ (seats.map Seat.place)[piece]? = some place := by
  rw [List.findIdx?_eq_some_iff_getElem, List.getElem?_eq_some_iff]
  simp only [decide_eq_true_eq, List.getElem_map, List.length_map]
  constructor
  · rintro ⟨inside, here, _⟩
    exact ⟨inside, here⟩
  · rintro ⟨inside, here⟩
    refine ⟨inside, here, fun other before same => ?_⟩
    have present : other < seats.length := Nat.lt_trans before inside
    exact absurd (legal.index_eq present inside (same.trans here.symm)) (Nat.ne_of_lt before)

namespace Register

variable {size : Size} {kind : PieceKind} {axis : Axis} {mask : LayerMask} {clockwise : Bool}
  {count twists times : Nat} {seats : List Seat}

/-- The lists of pieces in given seats, with anything written down by place. -/
def withPieces (seats : List Seat) (pieces : List (Option Nat)) : Register where
  places := seats.map Seat.place
  twists := seats.map Seat.twist
  pieces := pieces

/-- The lists of pieces in given seats. -/
def ofSeats (seats : List Seat) : Register :=
  withPieces seats ((List.range seats.length).map fun place => seats.findIdx? (·.place = place))

theorem ofSeats_solved (count : Nat) : ofSeats (Seat.solved count) = solved count := by
  have places : (Seat.solved count).map Seat.place = List.range count := by
    simp [Seat.solved, Function.comp_def]
  have twists : (Seat.solved count).map Seat.twist = List.replicate count 0 := by
    simp [Seat.solved, Function.comp_def]
  have pieces : (List.range (Seat.solved count).length).map
      (fun place => (Seat.solved count).findIdx? (·.place = place)) =
        (List.range count).map some := by
    rw [Seat.length_solved]
    refine List.map_congr_left fun place member => ?_
    rw [(Seat.legal_solved count Nat.one_pos).findIdx?_eq_some_iff, places]
    exact List.getElem?_range (List.mem_range.1 member)
  rw [ofSeats, withPieces, places, twists, pieces, solved]

/-! ### Turning piece by piece -/

/-- The seat of a piece after a turn of some layers, whether it lies in one of them or not. -/
def moved (size : Size) (kind : PieceKind) (axis : Axis) (mask : LayerMask) (clockwise : Bool)
    (count : Nat) (seat : Seat) : Seat :=
  if mask.getLsbD (Place.layer size kind seat.place axis) then
    Cube.turned size kind axis clockwise count seat
  else seat

theorem turnPiece_withPieces (seats : List Seat) (pieces : List (Option Nat)) (piece : Nat) :
    turnPiece size kind axis mask clockwise times (withPieces seats pieces) piece =
      withPieces (seats.modify piece (moved size kind axis mask clockwise times)) pieces := by
  rw [turnPiece, withPieces, List.getElem?_map, List.getElem?_map, List.modify_eq_set_getElem?]
  cases stored : seats[piece]? with
  | none => rfl
  | some seat =>
    by_cases selected : mask.getLsbD (Place.layer size kind seat.place axis)
    · simp [moved, selected, withPieces, List.map_set]
    · obtain ⟨inside, rfl⟩ := List.getElem?_eq_some_iff.1 stored
      simp [moved, selected, withPieces, List.set_getElem_self]

/-- Changing the entries of a list one after the other is changing all of them. -/
theorem foldl_modify {α : Type} (f : α → α) (as : List α) {n : Nat} (enough : n ≤ as.length) :
    (List.range n).foldl (fun bs i => bs.modify i f) as = (as.take n).map f ++ as.drop n := by
  induction n with
  | zero => simp
  | succ n ih =>
    have inside : n < as.length := enough
    have before : ((as.take n).map f).length = n := by simp [Nat.le_of_lt inside]
    rw [List.range_succ, List.foldl_append, ih (Nat.le_of_lt inside), List.foldl_cons,
      List.foldl_nil, List.modify_eq_take_drop, List.take_left' before, List.drop_left' before,
      List.drop_eq_getElem_cons inside, List.modifyHead_cons,
      List.take_succ_eq_append_getElem inside, List.map_append, List.append_assoc]
    rfl

theorem foldl_turnPiece (seats : List Seat) (pieces : List (Option Nat)) :
    (List.range seats.length).foldl (turnPiece size kind axis mask clockwise times)
        (withPieces seats pieces) =
      withPieces (Cube.turnSeats size kind axis mask clockwise times seats) pieces := by
  have each (ps : List Nat) (seats : List Seat) :
      ps.foldl (turnPiece size kind axis mask clockwise times) (withPieces seats pieces) =
        withPieces (ps.foldl (fun seats piece =>
          seats.modify piece (moved size kind axis mask clockwise times)) seats) pieces := by
    induction ps generalizing seats with
    | nil => rfl
    | cons piece ps ih => rw [List.foldl_cons, turnPiece_withPieces, ih, List.foldl_cons]
  rw [each, foldl_modify _ _ (Nat.le_refl _), List.take_length, List.drop_length, List.append_nil]
  rfl

/-! ### Writing the pieces by place -/

/-- What is left in every entry when some pieces have been written, where `first` is the number of
the first. -/
theorem getElem?_foldl_set {places : List Nat} (distinct : places.Nodup) (first : Nat)
    (pieces : List (Option Nat)) (place : Nat) :
    ((places.zipIdx first).foldl (fun pieces (place, piece) => pieces.set place (some piece))
        pieces)[place]? =
      if place ∈ places ∧ place < pieces.length then some (some (first + places.idxOf place))
      else pieces[place]? := by
  induction places generalizing first pieces with
  | nil => simp
  | cons head places ih =>
    obtain ⟨apart, distinct⟩ := List.nodup_cons.1 distinct
    rw [List.zipIdx_cons, List.foldl_cons, ih distinct, List.length_set]
    by_cases same : place = head
    · subst same
      rw [if_neg fun later => apart later.1, List.idxOf_cons_self, List.getElem?_set_self']
      by_cases inside : place < pieces.length
      · rw [if_pos ⟨List.mem_cons_self, inside⟩, List.getElem?_eq_getElem inside]
        rfl
      · rw [if_neg fun h => inside h.2, List.getElem?_eq_none (Nat.le_of_not_lt inside)]
        rfl
    · have later : (head :: places).idxOf place = places.idxOf place + 1 :=
        List.idxOf_cons_ne _ (Ne.symm same)
      rw [later, List.getElem?_set_ne (Ne.symm same)]
      simp only [List.mem_cons, same, false_or]
      rw [Nat.add_assoc, Nat.add_comm 1]

/-- When all pieces have been written, nothing is left of what was there before. -/
theorem index_withPieces (legal : Seat.Legal count twists seats) {pieces : List (Option Nat)}
    (length : pieces.length = count) : (withPieces seats pieces).index = ofSeats seats := by
  obtain ⟨size, distinct, _⟩ := Seat.legal_iff.1 legal
  have written : (seats.map Seat.place).zipIdx.foldl
      (fun pieces (place, piece) => pieces.set place (some piece)) pieces =
        (List.range seats.length).map fun place => seats.findIdx? (·.place = place) := by
    refine List.ext_getElem? fun place => ?_
    rw [getElem?_foldl_set distinct, length, List.getElem?_map, size]
    by_cases inside : place < count
    · have taken : place ∈ seats.map Seat.place := legal.1.mem_iff.2 (List.mem_range.2 inside)
      have found := legal.findIdx?_eq_some_iff.2 (List.getElem?_idxOf taken)
      rw [if_pos ⟨taken, inside⟩, List.getElem?_range inside, Option.map_some, found, Nat.zero_add]
    · have outside : (List.range count)[place]? = none := by simpa using inside
      have nothing : pieces[place]? = none := List.getElem?_eq_none (length ▸ Nat.le_of_not_lt inside)
      rw [if_neg fun h => inside h.2, outside, nothing, Option.map_none]
  rw [index, withPieces, written, ofSeats, withPieces]

/-- Turning the pieces one after the other and writing down where they are then gives the lists of
the turned seats. -/
theorem turn_ofSeats (legal : Seat.Legal count twists seats)
    (turned : Seat.Legal count twists (Cube.turnSeats size kind axis mask clockwise times seats)) :
    (ofSeats seats).turn size kind axis mask clockwise times =
      ofSeats (Cube.turnSeats size kind axis mask clockwise times seats) := by
  have many : (ofSeats seats).places.length = seats.length := List.length_map ..
  have listed : ((List.range seats.length).map fun place =>
      seats.findIdx? (·.place = place)).length = count := by
    rw [List.length_map, List.length_range, (Seat.legal_iff.1 legal).1]
  rw [turn, many, ofSeats, foldl_turnPiece, index_withPieces turned listed]

/-- Every piece is at home if its place is its number and it is not twisted. -/
theorem isSolved_ofSeats_iff : (ofSeats seats).IsSolved ↔ seats = Seat.solved seats.length := by
  constructor
  · rintro ⟨home, straight⟩
    refine List.ext_getElem (Seat.length_solved _).symm fun i inside _ => ?_
    have place : seats[i].place = i :=
      home (seats[i].place, i) (by simp [ofSeats, withPieces, List.mem_zipIdx_iff_getElem?, inside])
    have twist : seats[i].twist = 0 :=
      straight _ (List.mem_map_of_mem (List.getElem_mem inside))
    have seat : seats[i] = ⟨seats[i].place, seats[i].twist⟩ := rfl
    rw [seat, place, twist]
    simp [Seat.solved]
  · intro same
    rw [same, ofSeats_solved]
    constructor
    · rintro ⟨place, piece⟩ member
      obtain ⟨_, here⟩ := List.getElem?_eq_some_iff.1 (List.mem_zipIdx_iff_getElem?.1 member)
      exact here.symm.trans (List.getElem_range _)
    · exact fun twist member => List.eq_of_mem_replicate member

/-- Looking up the list by place finds the piece that sits there. -/
theorem pieceAt?_ofSeats (legal : Seat.Legal count twists seats) (place : Nat) :
    (ofSeats seats).pieceAt? place = seats.findIdx? (·.place = place) := by
  have size := (Seat.legal_iff.1 legal).1
  rw [pieceAt?, ofSeats, withPieces, List.getElem?_map, size]
  by_cases inside : place < count
  · rw [List.getElem?_range inside, Option.map_some, Option.join_some]
  · have outside : (List.range count)[place]? = none := by simpa using inside
    rw [outside, Option.map_none, Option.join_none, eq_comm, Option.eq_none_iff_forall_ne_some]
    intro piece found
    have taken := List.mem_of_getElem? (legal.findIdx?_eq_some_iff.1 found)
    exact inside (List.mem_range.1 (legal.1.mem_iff.1 taken))

end Register

namespace Ledger

variable {cube : Cube} {kind : PieceKind}

/-- The ledger of a cube. -/
def ofCube (cube : Cube) : Ledger where
  size := cube.size
  corners := .ofSeats cube.corners
  edges := .ofSeats cube.edges
  sides := .ofSeats cube.sides

theorem register_ofCube (cube : Cube) (kind : PieceKind) :
    (ofCube cube).register kind = .ofSeats (cube.seats kind) := by
  cases kind <;> rfl

theorem ofCube_solved (size : Size) : ofCube (.solved size) = solved size := by
  simp only [ofCube, Cube.solved, Register.ofSeats_solved]
  rfl

theorem cube_ofCube (cube : Cube) : (ofCube cube).cube = cube := by
  have back (seats : List Seat) :
      List.zipWith Seat.mk (seats.map Seat.place) (seats.map Seat.twist) = seats := by
    rw [List.zipWith_map, List.zipWith_self]
    exact List.map_id' _
  obtain ⟨size, corners, edges, sides⟩ := cube
  simp only [ofCube, Ledger.cube, Register.ofSeats, Register.withPieces, back]

/-- What has become of the ledger of a cube, beside what has become of the cube. -/
def ofOutcome (outcome : Cube × Option Cube.Fault) : Ledger × Option Cube.Fault :=
  (ofCube outcome.1, outcome.2)

/-! ### Requests -/

theorem turnLayers_ofCube (valid : cube.Valid) (axis : Axis) (mask : LayerMask) (clockwise : Bool)
    (count : Nat) : (ofCube cube).turnLayers axis mask clockwise count =
      ofCube (cube.turnLayers axis mask clockwise count) := by
  have each (kind : PieceKind) (visible : kind ≠ .center) :
      (Register.ofSeats (cube.seats kind)).turn cube.size kind axis mask clockwise count =
        .ofSeats (Cube.turnSeats cube.size kind axis mask clockwise count (cube.seats kind)) :=
    Register.turn_ofSeats (valid kind)
      (Cube.legal_turnSeats visible (valid kind) axis mask clockwise count)
  have corners := each .corner (by decide)
  have edges := each .edge (by decide)
  have sides := each .side (by decide)
  simp only [Cube.seats] at corners edges sides
  simp only [turnLayers, ofCube, Cube.turnLayers, corners, edges, sides]

theorem transform_ofCube (valid : cube.Valid) (axis : Nat) (mask : LayerMask) (angle : Int) :
    (ofCube cube).transform axis mask angle =
      ofOutcome (Call.outcome cube (cube.transform axis mask angle)) := by
  rw [transform, Cube.transform]
  cases Axis.ofIndex? axis with
  | none => rfl
  | some axis =>
    change (if mask = 0 ∨ ¬ mask.Within cube.size.layers then _ else _) = _
    by_cases refused : mask = 0 ∨ ¬ mask.Within cube.size.layers
    · simp only [if_pos refused]
      rfl
    · simp only [if_neg refused, Cube.twistBy]
      obtain _ | _ | _ | quarters := (angle % 4).toNat
      · rfl
      all_goals exact Prod.ext (turnLayers_ofCube valid ..) rfl

/-- What an assignment writes are the lists of the cube after it. -/
theorem withRegister_ofCube {after : Cube} {places twists : List Nat}
    (decided : cube.assign kind places twists = .ok after) :
    (ofCube cube).withRegister kind ⟨places, twists,
      (List.range (cube.size.count kind)).map (after.pieceAt? kind)⟩ = ofCube after := by
  have assigned := Cube.assigned_of_assign decided
  have many : (after.seats kind).length = cube.size.count kind := by
    rw [← (Cube.assign_eq_ok_iff.1 decided).1.1.1, ← assigned.placed, Cube.places, List.length_map]
  have own : Register.mk places twists
      ((List.range (cube.size.count kind)).map (after.pieceAt? kind)) =
        .ofSeats (after.seats kind) := by
    rw [← assigned.placed, ← assigned.twisted, Register.ofSeats, many]
    rfl
  have corners (other : .corner ≠ kind) : after.corners = cube.corners := assigned.kept _ other
  have edges (other : .edge ≠ kind) : after.edges = cube.edges := assigned.kept _ other
  have sides (other : .side ≠ kind) : after.sides = cube.sides := assigned.kept _ other
  rw [own]
  cases kind with
  | center => rw [assigned.center rfl, withRegister]
  | corner =>
    simp [withRegister, ofCube, Cube.seats, assigned.size, edges, sides]
  | edge =>
    simp [withRegister, ofCube, Cube.seats, assigned.size, corners, sides]
  | side =>
    simp [withRegister, ofCube, Cube.seats, assigned.size, corners, edges]

theorem assign_ofCube (cube : Cube) (kind : PieceKind) (places twists : List Nat) :
    (ofCube cube).assign kind places twists =
      ofOutcome (Call.outcome cube (cube.assign kind places twists)) := by
  have tabled : (ofCube cube).assign kind places twists =
      match cube.assignTabled kind places twists with
      | .error fault => (ofCube cube, some fault)
      | .ok (_, pieces) => ((ofCube cube).withRegister kind ⟨places, twists, pieces⟩, none) := by
    rw [assign, Cube.assignTabled, show (ofCube cube).size = cube.size from rfl]
    split
    · rfl
    · split
      · rfl
      · cases Cube.fillSlots (List.replicate (cube.size.count kind) none) 0 places with
        | none => rfl
        | some pieces => cases twists.find? (kind.twists ≤ ·) <;> rfl
  rw [tabled, Cube.assignTabled_eq]
  cases decided : cube.assign kind places twists with
  | error fault => rfl
  | ok after =>
    exact Prod.ext (withRegister_ofCube decided) rfl

theorem reset_ofCube (cube : Cube) : (ofCube cube).reset = ofCube cube.reset :=
  (ofCube_solved cube.size).symm

/-! ### Lists that agree -/

/-- Whether the lists of a ledger agree with each other: the places of a kind are rearranged among
the pieces, the list by place has an entry for every place and is the exact inverse of the places,
and every twist is one the kind has. -/
structure Consistent (l : Ledger) : Prop where
  rearranged : ∀ kind, (l.register kind).places.Perm (List.range (l.size.count kind))
  filled : ∀ kind, (l.register kind).pieces.length = l.size.count kind ∧
    none ∉ (l.register kind).pieces
  found : ∀ kind (place piece : Nat), (l.register kind).pieces[place]? = some (some piece) ↔
    (l.register kind).places[piece]? = some place
  twisted : ∀ kind, (l.register kind).twists.length = l.size.count kind ∧
    ∀ twist ∈ (l.register kind).twists, twist < kind.twists

theorem consistent_ofCube (valid : cube.Valid) : (ofCube cube).Consistent := by
  have size (kind : PieceKind) : (cube.seats kind).length = cube.size.count kind :=
    (Seat.legal_iff.1 (valid kind)).1
  refine ⟨fun kind => ?_, fun kind => ?_, fun kind place piece => ?_, fun kind => ?_⟩
  all_goals rw [register_ofCube]
  · exact (valid kind).1
  · constructor
    · rw [Register.ofSeats, Register.withPieces, List.length_map, List.length_range, size]
      rfl
    · intro missing
      obtain ⟨place, member, empty⟩ := List.mem_map.1 missing
      rw [size, List.mem_range] at member
      have taken := Cycle.pieceAt?_isSome (valid kind) member
      rw [Cube.pieceAt?, empty] at taken
      cases taken
  · have here := Register.pieceAt?_ofSeats (valid kind) place
    rw [Register.pieceAt?] at here
    rw [← Option.join_eq_some_iff, here]
    exact (valid kind).findIdx?_eq_some_iff
  · exact valid.consistent.twisted kind

theorem isSolved_ofCube_iff : (ofCube cube).IsSolved ↔ cube.IsSolved :=
  and_congr Register.isSolved_ofSeats_iff
    (and_congr Register.isSolved_ofSeats_iff Register.isSolved_ofSeats_iff)

theorem isSolved_iff (valid : cube.Valid) :
    (ofCube cube).IsSolved ↔ ofCube cube = solved cube.size := by
  rw [isSolved_ofCube_iff, Cube.isSolved_iff valid, ← ofCube_solved]
  refine ⟨fun same => congrArg ofCube same, fun same => ?_⟩
  have cubes := congrArg Ledger.cube same
  rwa [cube_ofCube, cube_ofCube] at cubes

end Ledger

end CubeScript
