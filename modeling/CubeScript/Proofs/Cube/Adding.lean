import CubeScript.Proofs.Cube.Symmetries

/-!
# Turns about one axis

Turns about one axis do not get in each other's way: a piece stays in its layer along the axis, so
each turn of the layer moves it on by its angle and all others pass it by. What some turns do to a
piece is what one turn does, by the sum of the angles at which its layer is turned (`Cube.angleAt`),
and of this only the remainder modulo four counts. So turns that add up to the same in every layer
do the same to a cube, in whatever order they come and however the layers are put into masks.
-/

namespace CubeScript

namespace Cube

/-- Turn layers about the axis with a given number, one choice of layers after the other. -/
def transformAll (cube : Cube) (axis : Nat) : List (LayerMask × Int) → Except Fault Cube
  | [] => .ok cube
  | (mask, angle) :: turns => do (← cube.transform axis mask angle).transformAll axis turns

/-- By how much some turns turn a layer in all. -/
def angleAt (layer : Nat) (turns : List (LayerMask × Int)) : Int :=
  (turns.map fun (mask, angle) => if mask.getLsbD layer then angle else 0).sum

@[simp] theorem angleAt_nil (layer : Nat) : angleAt layer [] = 0 := rfl

@[simp] theorem angleAt_cons (layer : Nat) (mask : LayerMask) (angle : Int)
    (turns : List (LayerMask × Int)) : angleAt layer ((mask, angle) :: turns) =
      (if mask.getLsbD layer then angle else 0) + angleAt layer turns := rfl

/-- Whether all turns are of layers that a cube has, one or more of them. -/
def Turnable (size : Size) (turns : List (LayerMask × Int)) : Prop :=
  ∀ turn ∈ turns, turn.1 ≠ 0 ∧ turn.1.Within size.layers

instance (size : Size) (turns : List (LayerMask × Int)) : Decidable (Turnable size turns) :=
  inferInstanceAs (Decidable (∀ turn ∈ turns, _ ∧ _))

/-! ### Single pieces -/

section

variable {size : Size} {kind : PieceKind} (visible : kind ≠ .center) (axis : Axis)
  (clockwise : Bool)

theorem turned_add (first second : Nat) (seat : Seat) :
    turned size kind axis clockwise (first + second) seat =
      turned size kind axis clockwise second (turned size kind axis clockwise first seat) := by
  induction first generalizing seat with
  | zero => rw [Nat.zero_add, turned]
  | succ first ih => rw [Nat.succ_add, turned, turned, ih]

include visible

/-- Four quarter turns are none. -/
theorem turned_four {seat : Seat} (inside : seat.InRange (size.count kind) kind.twists) :
    turned size kind axis clockwise 4 seat = seat := by
  have three := turned_three visible axis clockwise
    (inRange_quarterTurned visible inside axis clockwise)
  rw [turned, three]
  exact quarterTurned_back visible inside axis clockwise

theorem turned_mod_four (count : Nat) {seat : Seat}
    (inside : seat.InRange (size.count kind) kind.twists) :
    turned size kind axis clockwise (count % 4) seat =
      turned size kind axis clockwise count seat := by
  have rounds (number : Nat) :
      turned size kind axis clockwise (4 * number) seat = seat := by
    induction number with
    | zero => rfl
    | succ number ih => rw [Nat.mul_succ, turned_add, ih, turned_four visible axis _ inside]
  conv_rhs => rw [← Nat.div_add_mod count 4, turned_add, rounds]

/-- Turning by one angle and then by another is turning by their sum. -/
theorem turned_angle_add (first second : Int) {seat : Seat}
    (inside : seat.InRange (size.count kind) kind.twists) :
    turned size kind axis clockwise (second % 4).toNat
        (turned size kind axis clockwise (first % 4).toNat seat) =
      turned size kind axis clockwise ((first + second) % 4).toNat seat := by
  have total : ((first % 4).toNat + (second % 4).toNat) % 4 = ((first + second) % 4).toNat := by
    omega
  rw [← turned_add, ← turned_mod_four visible axis clockwise _ inside, total]

end

/-- The seat of a piece after every layer has been turned by an angle of its own. -/
def layerTurned (size : Size) (kind : PieceKind) (axis : Axis) (angles : Nat → Int)
    (seat : Seat) : Seat :=
  turned size kind axis true (angles (Place.layer size kind seat.place axis) % 4).toNat seat

/-- A piece outside the selected layers is turned by nothing. -/
theorem twistSeat_eq_layerTurned {size : Size} {kind : PieceKind} (axis : Axis) (mask : LayerMask)
    (angle : Int) (seat : Seat) : twistSeat size kind axis mask angle seat =
      layerTurned size kind axis (fun layer => if mask.getLsbD layer then angle else 0) seat := by
  unfold twistSeat layerTurned
  dsimp only
  split
  · rfl
  · rfl

theorem layerTurned_layerTurned {size : Size} {kind : PieceKind} (visible : kind ≠ .center)
    (axis : Axis) (angles more : Nat → Int) {seat : Seat}
    (inside : seat.InRange (size.count kind) kind.twists) :
    layerTurned size kind axis more (layerTurned size kind axis angles seat) =
      layerTurned size kind axis (fun layer => angles layer + more layer) seat := by
  unfold layerTurned
  rw [layer_turned visible inside, turned_angle_add visible axis true _ _ inside]

/-! ### Whole cubes -/

/-- The cube with every layer along an axis turned by an angle of its own. -/
def turnedBy (cube : Cube) (axis : Axis) (angles : Nat → Int) : Cube where
  size := cube.size
  corners := cube.corners.map (layerTurned cube.size .corner axis angles)
  edges := cube.edges.map (layerTurned cube.size .edge axis angles)
  sides := cube.sides.map (layerTurned cube.size .side axis angles)

theorem seats_turnedBy (cube : Cube) (axis : Axis) (angles : Nat → Int) {kind : PieceKind}
    (visible : kind ≠ .center) : (cube.turnedBy axis angles).seats kind =
      (cube.seats kind).map (layerTurned cube.size kind axis angles) := by
  cases kind with
  | center => exact absurd rfl visible
  | _ => rfl

section

variable {cube : Cube} (valid : cube.Valid) (axis : Axis)

include valid

/-- Only the layers that there are matter, and full turns do not. -/
theorem turnedBy_congr {angles others : Nat → Int}
    (same : ∀ layer < cube.size.layers, angles layer % 4 = others layer % 4) :
    cube.turnedBy axis angles = cube.turnedBy axis others := by
  apply ext_seats
  · rfl
  intro kind visible
  rw [seats_turnedBy _ _ _ visible, seats_turnedBy _ _ _ visible]
  apply List.map_congr_left
  intro seat member
  have inside := (valid kind).inRange member
  have low := (Place.isOf_cell visible inside.1).1.layer_lt axis
  rw [← Place.layer_eq_layer_cell visible inside.1] at low
  rw [layerTurned, layerTurned, same _ low]

/-- To turn no layer, or all by full turns, changes nothing. -/
theorem turnedBy_eq_self {angles : Nat → Int}
    (full : ∀ layer < cube.size.layers, angles layer % 4 = 0) :
    cube.turnedBy axis angles = cube := by
  have none : cube.turnedBy axis angles = cube.turnedBy axis fun _ => 0 :=
    turnedBy_congr valid axis full
  rw [none]
  apply ext_seats
  · rfl
  intro kind visible
  rw [seats_turnedBy _ _ _ visible]
  exact List.map_id _

theorem twistBy_eq_turnedBy (mask : LayerMask) (angle : Int) : cube.twistBy axis mask angle =
    cube.turnedBy axis fun layer => if mask.getLsbD layer then angle else 0 := by
  apply ext_seats
  · exact size_twistBy cube axis mask angle
  intro kind visible
  rw [seats_twistBy visible axis valid, seats_turnedBy _ _ _ visible]
  apply List.map_congr_left
  intro seat _
  exact twistSeat_eq_layerTurned axis mask angle seat

/-- A piece stays in its layer, so the second angle is that of the same layer as the first. -/
theorem turnedBy_turnedBy (angles more : Nat → Int) :
    (cube.turnedBy axis angles).turnedBy axis more =
      cube.turnedBy axis fun layer => angles layer + more layer := by
  apply ext_seats
  · rfl
  intro kind visible
  rw [seats_turnedBy _ _ _ visible, seats_turnedBy _ _ _ visible, seats_turnedBy _ _ _ visible,
    List.map_map]
  apply List.map_congr_left
  intro seat member
  exact layerTurned_layerTurned visible axis angles more ((valid kind).inRange member)

/-- Turns of layers that there are can be made, and turn every layer by what its turns add up
to. -/
theorem transformAll_eq {turns : List (LayerMask × Int)} (fits : Turnable cube.size turns) :
    cube.transformAll axis.index turns = .ok (cube.turnedBy axis (angleAt · turns)) := by
  induction turns generalizing cube with
  | nil =>
    rw [turnedBy_eq_self valid axis fun _ _ => rfl]
    rfl
  | cons turn turns ih =>
    obtain ⟨mask, angle⟩ := turn
    obtain ⟨selected, fits⟩ := List.forall_mem_cons.1 fits
    have begun : cube.transform axis.index mask angle = .ok (cube.twistBy axis mask angle) :=
      transform_eq_ok_iff.2 ⟨selected, rfl⟩
    have went := ih (valid_twistBy valid axis mask angle) (by rwa [size_twistBy])
    rw [twistBy_eq_turnedBy valid, turnedBy_turnedBy valid] at went
    rw [transformAll, begun, twistBy_eq_turnedBy valid]
    exact went

/-! ### What follows for a few turns -/

/-- Two turns can change places. -/
theorem transformAll_comm {first second : LayerMask × Int}
    (fits : Turnable cube.size [first, second]) :
    cube.transformAll axis.index [first, second] =
      cube.transformAll axis.index [second, first] := by
  have swapped : Turnable cube.size [second, first] :=
    fun turn member => fits turn (List.mem_pair.2 (List.mem_pair.1 member).symm)
  rw [transformAll_eq valid axis fits, transformAll_eq valid axis swapped]
  refine congrArg Except.ok (turnedBy_congr valid axis fun layer _ => ?_)
  simp only [angleAt, List.map_cons, List.sum_cons, Int.add_left_comm]

/-- Layers that are turned together can be turned one mask after the other. -/
theorem transformAll_or {mask other : LayerMask} (apart : mask &&& other = 0) {angle : Int}
    (fits : Turnable cube.size [(mask, angle), (other, angle)]) :
    cube.transformAll axis.index [(mask ||| other, angle)] =
      cube.transformAll axis.index [(mask, angle), (other, angle)] := by
  have bits (layer : Nat) : ¬ (mask.getLsbD layer ∧ other.getLsbD layer) := by
    rintro ⟨first, second⟩
    have both : (mask &&& other).getLsbD layer = true := by simp [first, second]
    simp [apart] at both
  have first := fits (mask, angle) (by simp)
  have second := fits (other, angle) (by simp)
  have joined : Turnable cube.size [(mask ||| other, angle)] := by
    rintro turn member
    rw [List.mem_singleton.1 member]
    refine ⟨fun none => first.1 ?_, ?_⟩
    · exact (BitVec.or_eq_zero_iff.1 none).1
    · rw [LayerMask.within_iff] at first second ⊢
      intro layer selected
      rw [BitVec.getLsbD_or, Bool.or_eq_true] at selected
      exact selected.elim (first.2 layer) (second.2 layer)
  rw [transformAll_eq valid axis fits, transformAll_eq valid axis joined]
  refine congrArg Except.ok (turnedBy_congr valid axis fun layer _ => ?_)
  by_cases selected : mask.getLsbD layer
  · have other : ¬ other.getLsbD layer := fun both => bits layer ⟨selected, both⟩
    simp [selected, other]
  · simp [selected]

/-- Four quarter turns change nothing. -/
theorem transformAll_four {mask : LayerMask} (fits : Turnable cube.size [(mask, 1)]) :
    cube.transformAll axis.index (List.replicate 4 (mask, 1)) = .ok cube := by
  have all : Turnable cube.size (List.replicate 4 (mask, 1)) := by
    intro turn member
    rw [List.eq_of_mem_replicate member]
    exact fits _ (List.mem_singleton_self _)
  rw [transformAll_eq valid axis all, turnedBy_eq_self valid]
  intro layer _
  simp only [List.replicate, angleAt_cons, angleAt_nil]
  split <;> decide

/-- A turn is undone by the turn through the opposite angle. -/
theorem transformAll_neg {mask : LayerMask} {angle : Int}
    (fits : Turnable cube.size [(mask, angle)]) :
    cube.transformAll axis.index [(mask, angle), (mask, -angle)] = .ok cube := by
  have selected := fits _ (List.mem_singleton_self _)
  have both : Turnable cube.size [(mask, angle), (mask, -angle)] := by
    intro turn member
    obtain rfl | rfl := List.mem_pair.1 member <;> exact selected
  rw [transformAll_eq valid axis both, turnedBy_eq_self valid]
  intro layer _
  simp only [angleAt_cons, angleAt_nil]
  split <;> simp

end

/-- Turns about one axis that add up to the same in every layer, up to full turns, do the same to a
cube. So they can change places, layers that are turned together can be turned one mask after the
other, four quarter turns change nothing, and a turn is undone by the opposite one. -/
theorem turns_add_up {cube : Cube} (valid : cube.Valid) (axis : Axis) :
    (∀ turns others, Turnable cube.size turns → Turnable cube.size others →
      (∀ layer < cube.size.layers, angleAt layer turns % 4 = angleAt layer others % 4) →
      ∃ after, cube.transformAll axis.index turns = .ok after ∧
        cube.transformAll axis.index others = .ok after) ∧
    (∀ first second, Turnable cube.size [first, second] →
      cube.transformAll axis.index [first, second] =
        cube.transformAll axis.index [second, first]) ∧
    (∀ mask other angle, mask &&& other = 0 →
      Turnable cube.size [(mask, angle), (other, angle)] →
      cube.transformAll axis.index [(mask ||| other, angle)] =
        cube.transformAll axis.index [(mask, angle), (other, angle)]) ∧
    (∀ mask, Turnable cube.size [(mask, 1)] →
      cube.transformAll axis.index (List.replicate 4 (mask, 1)) = .ok cube) ∧
    ∀ mask angle, Turnable cube.size [(mask, angle)] →
      cube.transformAll axis.index [(mask, angle), (mask, -angle)] = .ok cube := by
  refine ⟨fun turns others fits fitsToo same => ?_,
    fun _ _ => transformAll_comm valid axis,
    fun _ _ _ apart => transformAll_or valid axis apart,
    fun _ => transformAll_four valid axis,
    fun _ _ => transformAll_neg valid axis⟩
  refine ⟨_, transformAll_eq valid axis fits, ?_⟩
  rw [transformAll_eq valid axis fitsToo, turnedBy_congr valid axis same]

/-- On a cube of four layers that has been turned before. The turns on the left add up to half a
turn of the upper two layers, in one layer by way of a full turn and a half. -/
theorem turns_add_up_upperLayers :
    let cube := (solved ⟨4, by decide, by decide⟩).twistBy .x 8#32 1
    let turns : List (LayerMask × Int) := [(8, 3), (12, -2), (15, 4), (8, 1)]
    let others : List (LayerMask × Int) := [(12, 2)]
    cube.Valid ∧ Turnable cube.size turns ∧ Turnable cube.size others ∧
      (∀ layer < cube.size.layers, angleAt layer turns % 4 = angleAt layer others % 4) ∧
      ∃ after, cube.transformAll 1 turns = .ok after ∧ cube.transformAll 1 others = .ok after ∧
        after ≠ cube := by
  intro cube turns others
  have valid : cube.Valid := valid_twistBy (valid_solved _) .x 8#32 1
  have fits : Turnable cube.size turns := by decide
  have fitsToo : Turnable cube.size others := by decide
  have same : ∀ layer < cube.size.layers, angleAt layer turns % 4 = angleAt layer others % 4 := by
    decide
  obtain ⟨after, made, madeToo⟩ := (turns_add_up valid .y).1 turns others fits fitsToo same
  refine ⟨valid, fits, fitsToo, same, after, made, madeToo, ?_⟩
  rintro rfl
  have moved : cube.transformAll 1 others ≠ .ok cube := by decide +kernel
  exact moved madeToo

end Cube

end CubeScript
