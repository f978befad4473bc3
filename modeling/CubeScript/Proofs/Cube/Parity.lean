import CubeScript.Proofs.Cube.Adding
import CubeScript.Proofs.Cube.Orbits
import Mathlib.Data.List.FinRange
import Mathlib.GroupTheory.Perm.Sign

/-!
# Parity

The places of the pieces of one kind are a permutation, which takes each piece to its place
(`Cube.Valid.arrangement`). Turning layers puts another permutation after it, the one that the same
turn makes of a solved cube, so the signs of the two are multiplied.

Any turn is a run of quarter turns of single layers. On a cube of three layers such a quarter turn
moves four edges round. If the layer is an outer one, it moves four corners round as well, and if it
is the middle one, four sides. So two of three signs change, and their product, the parity of the
cube, stays. To exchange two pieces alone would change a single sign, so no turns do it.
-/

namespace CubeScript

theorem Axis.exists_index {number : Nat} (low : number < 3) : ∃ axis : Axis, axis.index = number :=
  match number with
  | 0 => ⟨.x, rfl⟩
  | 1 => ⟨.y, rfl⟩
  | 2 => ⟨.z, rfl⟩

namespace Cube

open Equiv.Perm (sign)

/-! ### Rearrangements as permutations -/

namespace IsPermutation

variable {count : Nat} {places : List Nat}

theorem mem_of_lt (perm : IsPermutation count places) (place : Fin count) :
    place.val ∈ places :=
  (perm_range_iff.2 perm).mem_iff.2 (List.mem_range.2 place.isLt)

/-- A rearrangement of the numbers below `count`, as a permutation of them. -/
def toPerm (perm : IsPermutation count places) : Equiv.Perm (Fin count) where
  toFun index := ⟨places.get (index.cast perm.1.symm), perm.2.1 _ (List.get_mem ..)⟩
  invFun place := ⟨places.idxOf place.val,
    (List.idxOf_lt_length_of_mem (perm.mem_of_lt place)).trans_eq perm.1⟩
  left_inv index := Fin.ext (perm.2.2.idxOf_getElem index.val (by simp [perm.1]))
  right_inv place :=
    Fin.ext (List.getElem_idxOf (List.idxOf_lt_length_of_mem (perm.mem_of_lt place)))

theorem getElem?_toPerm (perm : IsPermutation count places) (index : Fin count) :
    places[index.val]? = some (perm.toPerm index).val :=
  List.getElem?_eq_getElem (by simp [perm.1])

/-- To send every place on is to put a permutation after another one. -/
theorem sign_map {home after : List Nat} {move : Nat → Nat} (before : IsPermutation count places)
    (moved : IsPermutation count home) (reached : IsPermutation count after)
    (homes : home = (List.range count).map move) (sent : after = places.map move) :
    sign reached.toPerm = sign moved.toPerm * sign before.toPerm := by
  have product : reached.toPerm = moved.toPerm * before.toPerm := by
    subst homes sent
    ext index
    have inside := (before.toPerm index).isLt
    have first := reached.getElem?_toPerm index
    have second := moved.getElem?_toPerm (before.toPerm index)
    rw [List.getElem?_map, before.getElem?_toPerm, Option.map_some, Option.some_inj] at first
    rw [List.getElem?_map, List.getElem?_range inside, Option.map_some, Option.some_inj] at second
    rw [Equiv.Perm.mul_apply, ← first, second]
  rw [product, Equiv.Perm.sign_mul]

theorem sign_congr {total : Nat} {after : List Nat} (before : IsPermutation count places)
    (reached : IsPermutation total after) (same : total = count) (kept : after = places) :
    sign reached.toPerm = sign before.toPerm := by
  subst same kept
  rfl

/-- To exchange two entries is to put a transposition before a permutation. -/
theorem sign_exchange {total : Nat} {after : List Nat} {first second : Nat}
    (before : IsPermutation count places) (reached : IsPermutation total after)
    (same : total = count) (apart : first ≠ second) (inside : first < count)
    (insideToo : second < count)
    (exchanged : ∀ index : Nat, after[index]? = places[Equiv.swap first second index]?) :
    sign reached.toPerm = -sign before.toPerm := by
  subst same
  have product : reached.toPerm =
      before.toPerm * Equiv.swap ⟨first, inside⟩ ⟨second, insideToo⟩ := by
    ext index
    have entry := exchanged index.val
    have swapped := Fin.val_injective.map_swap ⟨first, inside⟩ ⟨second, insideToo⟩ index
    rw [← swapped, before.getElem?_toPerm, reached.getElem?_toPerm, Option.some_inj] at entry
    exact entry
  have differ : (⟨first, inside⟩ : Fin total) ≠ ⟨second, insideToo⟩ :=
    fun same => apart (congrArg Fin.val same)
  rw [product, Equiv.Perm.sign_mul, Equiv.Perm.sign_swap differ, mul_neg_one]

end IsPermutation

/-! ### The arrangement of a cube -/

/-- The permutation that takes each piece of a kind to its place. -/
def Valid.arrangement {cube : Cube} (valid : cube.Valid) (kind : PieceKind) :
    Equiv.Perm (Fin (cube.size.count kind)) :=
  (perm_range_iff.1 (valid kind).1).toPerm

/-- The product of the signs of the corners, the edges and the sides. -/
def Valid.parity {cube : Cube} (valid : cube.Valid) : ℤˣ :=
  sign (valid.arrangement .corner) * sign (valid.arrangement .edge) *
    sign (valid.arrangement .side)

/-- Whether a cube is valid and of a given parity. -/
def HasParity (cube : Cube) (parity : ℤˣ) : Prop := ∃ valid : cube.Valid, valid.parity = parity

theorem HasParity.valid {cube : Cube} {parity : ℤˣ} : cube.HasParity parity → cube.Valid
  | ⟨valid, _⟩ => valid

/-- Where a piece goes depends on its place alone. -/
theorem place_layerTurned (size : Size) (kind : PieceKind) (axis : Axis) (angles : Nat → Int)
    (seat : Seat) : (layerTurned size kind axis angles seat).place =
      (layerTurned size kind axis angles ⟨seat.place, 0⟩).place := by
  unfold layerTurned
  rw [place_turned, place_turned]

theorem places_turnedBy (cube : Cube) (axis : Axis) (angles : Nat → Int) {kind : PieceKind}
    (visible : kind ≠ .center) : (cube.turnedBy axis angles).places kind =
      (cube.places kind).map fun place =>
        (layerTurned cube.size kind axis angles ⟨place, 0⟩).place := by
  unfold places
  rw [seats_turnedBy _ _ _ visible, List.map_map, List.map_map]
  exact List.map_congr_left fun seat _ => place_layerTurned ..

theorem places_solved (size : Size) (kind : PieceKind) :
    (solved size).places kind = List.range (size.count kind) := by
  have home (count : Nat) : (Seat.solved count).map Seat.place = List.range count := by
    rw [Seat.solved, List.map_map]
    exact List.map_id _
  cases kind with
  | center => rfl
  | _ => exact home _

section

variable {cube : Cube} (valid : cube.Valid) (axis : Axis) (angles : Nat → Int)

include valid

/-- Pieces of one layer are turned alike, and those of different layers do not meet. -/
theorem valid_turnedBy : (cube.turnedBy axis angles).Valid := by
  apply Valid.of_visible
  intro kind visible
  rw [seats_turnedBy _ _ _ visible]
  apply (valid kind).map
  · intro seat inside
    exact inRange_turned visible inside axis true _
  · intro seat other inside present same
    have layers : Place.layer cube.size kind seat.place axis =
        Place.layer cube.size kind other.place axis := by
      rw [← layer_turned visible inside axis true, ← layer_turned visible present axis true]
      exact congrArg (Place.layer cube.size kind · axis) same
    unfold layerTurned at same
    rw [layers] at same
    exact place_eq_of_turned visible inside axis true _ present same

/-- A turn changes the sign of a kind as it does on a solved cube. -/
theorem sign_turnedBy {kind : PieceKind} (visible : kind ≠ .center) :
    sign ((valid_turnedBy valid axis angles).arrangement kind) =
      sign ((valid_turnedBy (valid_solved cube.size) axis angles).arrangement kind) *
        sign (valid.arrangement kind) := by
  refine IsPermutation.sign_map _ _ _ ?_ (places_turnedBy cube axis angles visible)
  rw [← places_solved]
  exact places_turnedBy (solved cube.size) axis angles visible

theorem parity_turnedBy : (valid_turnedBy valid axis angles).parity =
    (valid_turnedBy (valid_solved cube.size) axis angles).parity * valid.parity := by
  unfold Valid.parity
  rw [sign_turnedBy valid axis angles (by decide), sign_turnedBy valid axis angles (by decide),
    sign_turnedBy valid axis angles (by decide)]
  ac_rfl

end

/-! ### Quarter turns of single layers -/

/-- How often each layer is in a list, as angles to turn the layers by. -/
def quarters (layers : List Nat) (layer : Nat) : Int := layers.count layer

theorem quarters_cons (layer : Nat) (layers : List Nat) :
    quarters (layer :: layers) = fun other => quarters [layer] other + quarters layers other := by
  funext other
  simp only [quarters, List.count_cons, List.count_nil]
  omega

/-- Every turn is a run of quarter turns of single layers, up to full turns. -/
theorem exists_quarters (n : Nat) (angles : Nat → Int) : ∃ layers : List Nat,
    (∀ layer ∈ layers, layer < n) ∧ ∀ layer < n, quarters layers layer % 4 = angles layer % 4 := by
  induction n with
  | zero => exact ⟨[], List.forall_mem_nil _, fun _ inside => absurd inside (Nat.not_lt_zero _)⟩
  | succ n ih =>
    obtain ⟨layers, inside, same⟩ := ih
    refine ⟨layers ++ List.replicate (angles n % 4).toNat n, fun layer member => ?_,
      fun layer low => ?_⟩
    · obtain earlier | last := List.mem_append.1 member
      · exact Nat.lt_succ_of_lt (inside layer earlier)
      · rw [List.eq_of_mem_replicate last]
        exact Nat.lt_succ_self n
    · unfold quarters at same ⊢
      rw [List.count_append, List.count_replicate]
      obtain earlier | rfl := Nat.lt_succ_iff_lt_or_eq.1 low
      · simp [earlier.ne', same layer earlier]
      · have fresh : layers.count layer = 0 :=
          List.count_eq_zero.2 fun member => absurd (inside layer member) (Nat.lt_irrefl layer)
        simp only [fresh, beq_self_eq_true, if_true]
        omega

/-- What every quarter turn of a single layer keeps is kept by all turns. -/
theorem turnedBy_induction {motive : Cube → Prop} {axis : Axis}
    (step : ∀ (cube : Cube) (layer : Nat), cube.Valid → layer < cube.size.layers →
      motive cube → motive (cube.turnedBy axis (quarters [layer])))
    {cube : Cube} (valid : cube.Valid) (angles : Nat → Int) (start : motive cube) :
    motive (cube.turnedBy axis angles) := by
  obtain ⟨layers, inside, same⟩ := exists_quarters cube.size.layers angles
  rw [← turnedBy_congr valid axis same]
  clear same
  induction layers generalizing cube with
  | nil => rwa [turnedBy_eq_self valid axis fun _ _ => rfl]
  | cons layer layers ih =>
    obtain ⟨first, inside⟩ := List.forall_mem_cons.1 inside
    rw [quarters_cons, ← turnedBy_turnedBy valid]
    exact ih (valid_turnedBy valid axis _) (step cube layer valid first start) inside

/-! ### Three layers -/

/-- The size of a cube of three layers. -/
def threeLayers : Size := ⟨3, by decide, by decide⟩

/-- A quarter turn of an outer layer is odd on corners, one of the middle layer on sides, and both
are odd on edges. -/
theorem signs_quarter (axis : Axis) : ∀ layer < 3,
    let valid := valid_turnedBy (valid_solved threeLayers) axis (quarters [layer])
    sign (valid.arrangement .corner) = (if layer = 1 then 1 else -1) ∧
      sign (valid.arrangement .edge) = -1 ∧
      sign (valid.arrangement .side) = if layer = 1 then -1 else 1 := by
  cases axis <;> decide +kernel

theorem parity_quarter (axis : Axis) {layer : Nat} (inside : layer < 3) :
    (valid_turnedBy (valid_solved threeLayers) axis (quarters [layer])).parity = 1 := by
  obtain ⟨corner, edge, side⟩ := signs_quarter axis layer inside
  unfold Valid.parity
  rw [corner, edge, side]
  split <;> decide

theorem HasParity.turnedBy {cube : Cube} {parity : ℤˣ} (start : cube.HasParity parity)
    (three : cube.size = threeLayers) (axis : Axis) (angles : Nat → Int) :
    (cube.turnedBy axis angles).HasParity parity := by
  refine (turnedBy_induction (motive := fun cube => cube.size = threeLayers ∧ cube.HasParity parity)
    ?_ start.valid angles ⟨three, start⟩).2
  rintro cube layer - inside ⟨three, valid, rfl⟩
  have quarter (size : Size) (three : size = threeLayers) (inside : layer < size.layers) :
      (valid_turnedBy (valid_solved size) axis (quarters [layer])).parity = 1 := by
    subst three
    exact parity_quarter axis inside
  refine ⟨three, valid_turnedBy valid axis _, ?_⟩
  rw [parity_turnedBy, quarter cube.size three inside, one_mul]

/-! ### Turns one after the other -/

/-- Turn layers as requested, one turn after the other, until one is refused. -/
def transformEach (cube : Cube) : List (Nat × LayerMask × Int) → Except Fault Cube
  | [] => .ok cube
  | (axis, mask, angle) :: turns => do (← cube.transform axis mask angle).transformEach turns

/-- Whether turns lead from the solved cube of three layers to a cube. -/
def Reached (cube : Cube) : Prop := ∃ turns, (solved threeLayers).transformEach turns = .ok cube

theorem exists_axis_of_transform {cube after : Cube} {axis : Nat} {mask : LayerMask} {angle : Int}
    (turned : cube.transform axis mask angle = .ok after) :
    ∃ axis, after = cube.twistBy axis mask angle := by
  unfold transform at turned
  split at turned
  · cases turned
  · rename_i axis _
    split at turned <;> cases turned
    exact ⟨axis, rfl⟩

/-- A turn keeps the parity of a cube of three layers. -/
theorem HasParity.transform {cube after : Cube} {parity : ℤˣ} (start : cube.HasParity parity)
    (three : cube.size = threeLayers) {axis : Nat} {mask : LayerMask} {angle : Int}
    (turned : cube.transform axis mask angle = .ok after) :
    after.size = threeLayers ∧ after.HasParity parity := by
  obtain ⟨axis, rfl⟩ := exists_axis_of_transform turned
  refine ⟨(size_twistBy ..).trans three, ?_⟩
  rw [twistBy_eq_turnedBy start.valid]
  exact start.turnedBy three axis _

theorem HasParity.transformEach {cube after : Cube} {parity : ℤˣ} (start : cube.HasParity parity)
    (three : cube.size = threeLayers) {turns : List (Nat × LayerMask × Int)}
    (turned : cube.transformEach turns = .ok after) :
    after.size = threeLayers ∧ after.HasParity parity := by
  induction turns generalizing cube with
  | nil =>
    cases turned
    exact ⟨three, start⟩
  | cons turn turns ih =>
    obtain ⟨axis, mask, angle⟩ := turn
    rw [Cube.transformEach] at turned
    cases first : cube.transform axis mask angle with
    | error fault =>
      rw [first] at turned
      cases turned
    | ok next =>
      rw [first] at turned
      obtain ⟨threeNext, kept⟩ := start.transform three first
      exact ih kept threeNext turned

/-- Turns are made if their axes and layers exist. -/
theorem exists_transformEach {cube : Cube} (three : cube.size = threeLayers)
    {turns : List (Nat × LayerMask × Int)}
    (fits : ∀ turn ∈ turns, turn.1 < 3 ∧ 1 ≤ turn.2.1.toNat ∧ turn.2.1.toNat < 8) :
    ∃ after, cube.transformEach turns = .ok after := by
  induction turns generalizing cube with
  | nil => exact ⟨cube, rfl⟩
  | cons turn turns ih =>
    obtain ⟨number, mask, angle⟩ := turn
    obtain ⟨⟨low, some, small⟩, rest⟩ := List.forall_mem_cons.1 fits
    obtain ⟨axis, rfl⟩ := Axis.exists_index low
    have filled : mask ≠ 0 := by
      rintro rfl
      cases some
    have within : mask.Within cube.size.layers := by
      rw [three]
      exact LayerMask.within_iff_toNat_lt.2 small
    have made : cube.transform axis.index mask angle = .ok (cube.twistBy axis mask angle) :=
      transform_eq_ok_iff.2 ⟨⟨filled, within⟩, rfl⟩
    rw [transformEach, made]
    exact ih ((size_twistBy ..).trans three) rest

/-! ### Exchanging two pieces -/

/-- Whether two pieces of a kind have exchanged their places, and no others have moved. Any of them
may be twisted. -/
structure Exchanged (cube : Cube) (kind : PieceKind) (first second : Nat) (other : Cube) :
    Prop where
  size : other.size = cube.size
  apart : first ≠ second
  first_lt : first < cube.size.count kind
  second_lt : second < cube.size.count kind
  places : ∀ piece : Nat, (other.places kind)[piece]? =
    (cube.places kind)[Equiv.swap first second piece]?
  keptKinds : ∀ kept ≠ kind, other.places kept = cube.places kept

/-- An exchange changes the parity. -/
theorem Exchanged.parity {cube other : Cube} {kind : PieceKind} {first second : Nat}
    (exchanged : cube.Exchanged kind first second other) (valid : cube.Valid)
    (validOther : other.Valid) : validOther.parity = -valid.parity := by
  have count (kind : PieceKind) : other.size.count kind = cube.size.count kind := by
    rw [exchanged.size]
  have changed : sign (validOther.arrangement kind) = -sign (valid.arrangement kind) :=
    IsPermutation.sign_exchange _ _ (count kind) exchanged.apart exchanged.first_lt
      exchanged.second_lt exchanged.places
  have kept (kept : PieceKind) (differ : kept ≠ kind) :
      sign (validOther.arrangement kept) = sign (valid.arrangement kept) :=
    IsPermutation.sign_congr _ _ (count kept) (exchanged.keptKinds kept differ)
  unfold Valid.parity
  cases kind with
  | corner => rw [changed, kept .edge (by decide), kept .side (by decide), neg_mul, neg_mul]
  | edge => rw [changed, kept .corner (by decide), kept .side (by decide), mul_neg, neg_mul]
  | side => rw [changed, kept .corner (by decide), kept .edge (by decide), mul_neg]
  | center =>
    have none : first = second :=
      (Nat.lt_one_iff.1 exchanged.first_lt).trans (Nat.lt_one_iff.1 exchanged.second_lt).symm
    exact absurd none exchanged.apart

/-- Two entries of a list can be exchanged. -/
theorem exists_perm_exchange {α : Type} (entries : List α) {first second : Nat}
    (inside : first < entries.length) (insideToo : second < entries.length) :
    ∃ after : List α, after.Perm entries ∧
      ∀ index : Nat, after[index]? = entries[Equiv.swap first second index]? := by
  let swap : Equiv.Perm (Fin entries.length) := Equiv.swap ⟨first, inside⟩ ⟨second, insideToo⟩
  have perm := swap.ofFn_comp_perm entries.get
  rw [List.ofFn_get] at perm
  refine ⟨_, perm, fun index => ?_⟩
  by_cases present : index < entries.length
  · have swapped : (swap ⟨index, present⟩).val = Equiv.swap first second index :=
      Fin.val_injective.map_swap ..
    rw [← swapped, List.getElem?_eq_getElem (swap ⟨index, present⟩).isLt, List.getElem?_ofFn,
      dif_pos present]
    rfl
  · have others : index ≠ first ∧ index ≠ second := by omega
    rw [Equiv.swap_apply_of_ne_of_ne others.1 others.2, List.getElem?_ofFn, dif_neg present,
      List.getElem?_eq_none (Nat.le_of_not_lt present)]

/-- Any two pieces of a valid cube can be taken out and put in for each other. -/
theorem exists_exchanged {cube : Cube} (valid : cube.Valid) {kind : PieceKind}
    (visible : kind ≠ .center) {first second : Nat} (apart : first ≠ second)
    (inside : first < cube.size.count kind) (insideToo : second < cube.size.count kind) :
    ∃ other, other.Valid ∧ cube.Exchanged kind first second other := by
  have length : (cube.seats kind).length = cube.size.count kind :=
    (Seat.legal_iff.1 (valid kind)).1
  obtain ⟨seats, perm, exchanged⟩ := exists_perm_exchange (cube.seats kind)
    (inside.trans_eq length.symm) (insideToo.trans_eq length.symm)
  have legal : Seat.Legal (cube.size.count kind) kind.twists seats :=
    ⟨(perm.map Seat.place).trans (valid kind).1,
      fun seat member => (valid kind).2 seat (perm.mem_iff.1 member)⟩
  refine ⟨cube.withSeats kind seats, valid_withSeats valid legal, size_withSeats .., apart, inside,
    insideToo, fun piece => ?_, fun kept differ => ?_⟩
  · unfold places
    rw [seats_withSeats_self _ _ visible, List.getElem?_map, List.getElem?_map, exchanged]
  · unfold places
    rw [seats_withSeats_of_ne _ _ differ]

/-- Turns of layers that there are can be made on a solved cube of three layers, and its parity is
one afterwards. No turns lead to a cube that differs from this one by an exchange of two pieces. -/
theorem parity_of_turns {turns : List (Nat × LayerMask × Int)}
    (fits : ∀ turn ∈ turns, turn.1 < 3 ∧ 1 ≤ turn.2.1.toNat ∧ turn.2.1.toNat < 8) :
    ∃ cube, (solved threeLayers).transformEach turns = .ok cube ∧ cube.HasParity 1 ∧
      ∀ kind first second other, cube.Exchanged kind first second other → ¬ other.Reached := by
  have start : (solved threeLayers).HasParity 1 := ⟨valid_solved _, by decide +kernel⟩
  obtain ⟨cube, turned⟩ : ∃ cube, (solved threeLayers).transformEach turns = .ok cube :=
    exists_transformEach rfl fits
  obtain ⟨_, valid, even⟩ := start.transformEach rfl turned
  refine ⟨cube, turned, ⟨valid, even⟩, ?_⟩
  rintro kind first second other exchanged ⟨others, reached⟩
  obtain ⟨_, validOther, evenToo⟩ := start.transformEach rfl reached
  have opposite := exchanged.parity valid validOther
  rw [even, evenToo] at opposite
  exact absurd opposite (by decide)

/-- Turns of one layer, of two and of all three. If two corners are exchanged afterwards, the cube
is valid, but turns do not lead to it. -/
theorem parity_of_turns_exchangedCorners :
    let turns : List (Nat × LayerMask × Int) :=
      [(0, 1, 1), (1, 6, -1), (2, 7, 2), (0, 2, 2147483647), (1, 4, -2147483648)]
    (∀ turn ∈ turns, turn.1 < 3 ∧ 1 ≤ turn.2.1.toNat ∧ turn.2.1.toNat < 8) ∧
      ∃ cube, (solved threeLayers).transformEach turns = .ok cube ∧ cube ≠ solved threeLayers ∧
        cube.HasParity 1 ∧
        ∃ other, other.Valid ∧ cube.Exchanged .corner 0 1 other ∧ ¬ other.Reached := by
  intro turns
  have fits : ∀ turn ∈ turns, turn.1 < 3 ∧ 1 ≤ turn.2.1.toNat ∧ turn.2.1.toNat < 8 := by decide
  obtain ⟨cube, turned, even, never⟩ := parity_of_turns fits
  have moved : (solved threeLayers).transformEach turns ≠ .ok (solved threeLayers) := by
    decide +kernel
  have corners : cube.size.count .corner = 8 := rfl
  obtain ⟨other, validOther, exchanged⟩ : ∃ other : Cube, other.Valid ∧
      cube.Exchanged .corner 0 1 other :=
    exists_exchanged even.valid (by decide) (by decide) (by omega) (by omega)
  refine ⟨fits, cube, turned, ?_, even, other, validOther, exchanged, never _ _ _ _ exchanged⟩
  rintro rfl
  exact moved turned

end Cube

end CubeScript
