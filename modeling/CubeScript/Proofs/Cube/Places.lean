import CubeScript.Cube.Place
import Mathlib.Tactic.IntervalCases

/-!
# Places and cells

The number of a place and the cell it occupies say the same. What makes a cell one of a kind is
how many of its layers are outer ones (`Cell.IsOf`), and this is all that `Place.cell_atCell` and
`Place.atCell_cell` need: each is checked slot by slot, with the steps inside the slot left open.
Turns of the whole cube are simple on cells, so what they do to places is read off there. A turn
of a place stays in its layer, stays among the places of the kind, and is undone by the turn back.

Twists only depend on the faces that a place shows, and a turn takes the faces of a place to the
faces of its target. The twists of a turn and of the turn back therefore add up to nothing.
-/

namespace CubeScript

namespace Cell

/-- One for an outer layer, and zero for an inner one. -/
def outer (size : Size) (k : Nat) : Nat := if Place.IsInner size k then 0 else 1

/-- How many faces of the cube a cell shows. -/
def faceCount (size : Size) (c : Cell) : Nat := outer size c.x + outer size c.y + outer size c.z

/-- Whether a cell is one that pieces of a kind can be in. -/
def IsOf (size : Size) (kind : PieceKind) (c : Cell) : Prop :=
  c.Inside size.layers ∧ c.faceCount size = kind.faceCount

/-- Whether a cell lies in the layer of a face. -/
def OnFace (size : Size) (c : Cell) (face : Face) : Prop :=
  c.layer face.axis = if face.isPositive then size.layers - 1 else 0

theorem outer_across {size : Size} {k : Nat} (h : k < size.layers) :
    outer size (across size.layers k) = outer size k := by
  unfold outer Place.IsInner across
  congr 1
  apply propext
  omega

/-- Turning the whole cube keeps how many faces a cell shows. -/
theorem IsOf.turn {size : Size} {kind : PieceKind} {c : Cell} (h : c.IsOf size kind)
    (axis : Axis) (clockwise : Bool) : (c.turn size.layers axis clockwise).IsOf size kind := by
  obtain ⟨inside, count⟩ := h
  refine ⟨inside.turn axis clockwise, ?_⟩
  rw [← count]
  obtain ⟨hx, hy, hz⟩ := inside
  cases axis <;> cases clockwise <;>
    simp only [Cell.turn, faceCount, outer_across hx, outer_across hy, outer_across hz] <;> omega

/-- A turn takes the face that a cell lies on along with it. -/
theorem OnFace.turn {size : Size} {c : Cell} {face : Face} (h : c.OnFace size face) (axis : Axis)
    (clockwise : Bool) :
    (c.turn size.layers axis clockwise).OnFace size (face.turn axis clockwise) := by
  have := size.two_le
  cases axis <;> cases clockwise <;> cases face <;>
    simp_all [OnFace, Cell.turn, Face.turn, Face.axis, Face.isPositive, Cell.layer, across]

end Cell

namespace Place

@[simp] theorem not_isInner_zero (size : Size) : ¬ IsInner size 0 := by
  simp [IsInner]

@[simp] theorem not_isInner_last (size : Size) : ¬ IsInner size (size.layers - 1) := by
  simp [IsInner]

theorem isInner_succ {size : Size} {k : Nat} : IsInner size (k + 1) ↔ k < size.inner := by
  unfold IsInner Size.inner
  omega

@[simp] theorem lowest_zero : lowest 0 = 1 := rfl

@[simp] theorem lowest_last (size : Size) : lowest (size.layers - 1) = 0 := by
  have := size.two_le
  exact if_neg (by omega)

theorem row_lt {size : Size} {step : Nat} (h : step < size.inner * size.inner) :
    step / size.inner < size.inner :=
  Nat.div_lt_of_lt_mul h

theorem column_lt {size : Size} {step : Nat} (h : step < size.inner * size.inner) :
    step % size.inner < size.inner :=
  Nat.mod_lt _ (Nat.pos_of_ne_zero fun zero => by simp [zero] at h)

/-- The cell of a slot and a step is one of its kind, and its number is made of the two. -/
theorem cellOfFaces_spec {size : Size} {kind : PieceKind} {slot step : Nat}
    (hslot : slot < slotCount kind) (hstep : step < size.perSlot kind) :
    (cellOfFaces size ((slots kind).getD slot []) step).IsOf size kind ∧
      atCell size kind (cellOfFaces size ((slots kind).getD slot []) step) =
        slot + slotCount kind * step := by
  have positive := size.layers_pos
  have last : size.layers - 1 < size.layers := by omega
  cases kind with
  | corner =>
    change slot < 8 at hslot
    change step < 1 at hstep
    obtain rfl : step = 0 := by omega
    interval_cases slot <;>
      simp [slots, cornerSlots, cellOfFaces, Cell.ofLayers, Face.axis, Face.isPositive,
        Cell.IsOf, Cell.Inside, Cell.faceCount, Cell.outer, PieceKind.faceCount, atCell,
        cornerAt, positive, last]
  | edge =>
    change slot < 12 at hslot
    change step < size.inner at hstep
    have inside : step + 1 < size.layers := by
      unfold Size.inner at hstep
      omega
    interval_cases slot <;>
      simp [slots, edgeSlots, cellOfFaces, Cell.ofLayers, Face.axis, Face.isPositive,
        Cell.IsOf, Cell.Inside, Cell.faceCount, Cell.outer, PieceKind.faceCount, atCell,
        edgeAt, positive, last, inside, isInner_succ, hstep, slotCount]
  | side =>
    change slot < 6 at hslot
    change step < size.inner * size.inner at hstep
    have row := row_lt hstep
    have column := column_lt hstep
    have index : step / size.inner * size.inner + step % size.inner = step := Nat.div_add_mod' ..
    have rowInside : step / size.inner + 1 < size.layers := by
      unfold Size.inner at *
      omega
    have columnInside : step % size.inner + 1 < size.layers := by
      unfold Size.inner at *
      omega
    interval_cases slot <;>
      simp [slots, sideSlots, Face.all, cellOfFaces, Cell.ofLayers, Face.axis, Face.isPositive,
        Cell.IsOf, Cell.Inside, Cell.faceCount, Cell.outer, PieceKind.faceCount, atCell,
        sideAt, positive, last, rowInside, columnInside, isInner_succ, row, column, index,
        slotCount]
  | center => exact absurd hslot (Nat.not_lt_zero slot)

/-- A layer is the first, the last or one of those between. -/
theorem layer_cases {size : Size} {k : Nat} (h : k < size.layers) :
    k = 0 ∨ k = size.layers - 1 ∨ ∃ j < size.inner, k = j + 1 := by
  have := size.two_le
  unfold Size.inner
  by_cases first : k = 0
  · exact .inl first
  · by_cases last : k = size.layers - 1
    · exact .inr (.inl last)
    · exact .inr (.inr ⟨k - 1, by omega, by omega⟩)

theorem index_lt {n row column : Nat} (hrow : row < n) (hcolumn : column < n) :
    row * n + column < n * n := by
  calc row * n + column < row * n + n := by omega
    _ = (row + 1) * n := by rw [Nat.succ_mul]
    _ ≤ n * n := Nat.mul_le_mul_right n hrow

/-- Every cell of a visible kind belongs to a slot and a step. -/
theorem exists_cellOfFaces {size : Size} {kind : PieceKind} (visible : kind ≠ .center) {c : Cell}
    (h : c.IsOf size kind) : ∃ slot < slotCount kind, ∃ step < size.perSlot kind,
      cellOfFaces size ((slots kind).getD slot []) step = c := by
  obtain ⟨⟨hx, hy, hz⟩, count⟩ := h
  obtain ⟨x, y, z⟩ := c
  cases kind with
  | center => exact absurd rfl visible
  | corner =>
    refine ⟨cornerAt ⟨x, y, z⟩, ?_⟩
    obtain rfl | rfl | ⟨i, hi, rfl⟩ := layer_cases hx <;>
      obtain rfl | rfl | ⟨j, hj, rfl⟩ := layer_cases hy <;>
      obtain rfl | rfl | ⟨k, hk, rfl⟩ := layer_cases hz <;>
      simp_all [cornerAt, slots, slotCount, cornerSlots, cellOfFaces, Cell.ofLayers, Face.axis,
        Face.isPositive, Cell.faceCount, Cell.outer, PieceKind.faceCount, isInner_succ,
        Size.perSlot]
  | edge =>
    refine ⟨edgeAt size ⟨x, y, z⟩ % 12, Nat.mod_lt _ (by decide),
      edgeAt size ⟨x, y, z⟩ / 12, ?_⟩
    have quotient : ∀ slot step, (slot + 12 * step) / 12 = slot / 12 + step := by omega
    obtain rfl | rfl | ⟨i, hi, rfl⟩ := layer_cases hx <;>
      obtain rfl | rfl | ⟨j, hj, rfl⟩ := layer_cases hy <;>
      obtain rfl | rfl | ⟨k, hk, rfl⟩ := layer_cases hz <;>
      simp_all [edgeAt, slots, edgeSlots, cellOfFaces, Cell.ofLayers, Face.axis,
        Face.isPositive, Cell.faceCount, Cell.outer, PieceKind.faceCount, isInner_succ,
        Size.perSlot]
  | side =>
    refine ⟨sideAt size ⟨x, y, z⟩ % 6, Nat.mod_lt _ (by decide),
      sideAt size ⟨x, y, z⟩ / 6, ?_⟩
    have quotient : ∀ slot step, (slot + 6 * step) / 6 = slot / 6 + step := by omega
    have row : ∀ {i j}, j < size.inner → (i * size.inner + j) / size.inner = i := by
      intro i j hj
      rw [Nat.add_comm, Nat.add_mul_div_right _ _ (by omega), Nat.div_eq_of_lt hj, Nat.zero_add]
    obtain rfl | rfl | ⟨i, hi, rfl⟩ := layer_cases hx <;>
      obtain rfl | rfl | ⟨j, hj, rfl⟩ := layer_cases hy <;>
      obtain rfl | rfl | ⟨k, hk, rfl⟩ := layer_cases hz <;>
      simp_all [sideAt, slots, sideSlots, Face.all, cellOfFaces, Cell.ofLayers, Face.axis,
        Face.isPositive, Cell.faceCount, Cell.outer, PieceKind.faceCount, isInner_succ,
        Size.perSlot, index_lt, Nat.mod_eq_of_lt]

/-! ### The slot and the step of a place -/

theorem count_eq (size : Size) {kind : PieceKind} (visible : kind ≠ .center) :
    size.count kind = slotCount kind * size.perSlot kind := by
  cases kind with
  | center => exact absurd rfl visible
  | _ => rfl

/-- A place of a visible kind is some steps inside one of the slots. -/
theorem exists_slot {size : Size} {kind : PieceKind} (visible : kind ≠ .center) {place : Nat}
    (inside : place < size.count kind) : ∃ slot < slotCount kind, ∃ step < size.perSlot kind,
      place = slot + slotCount kind * step := by
  rw [count_eq size visible] at inside
  have positive : 0 < slotCount kind := Nat.pos_of_ne_zero fun zero => by simp [zero] at inside
  exact ⟨place % slotCount kind, Nat.mod_lt _ positive, place / slotCount kind,
    Nat.div_lt_of_lt_mul inside, (Nat.mod_add_div _ _).symm⟩

section

variable {size : Size} {kind : PieceKind} {slot index : Nat}

theorem lt_count_of_slot (hslot : slot < slotCount kind) (hindex : index < size.perSlot kind) :
    slot + slotCount kind * index < size.count kind := by
  have visible : kind ≠ .center := by
    rintro rfl
    exact Nat.not_lt_zero slot hslot
  rw [count_eq size visible]
  calc slot + slotCount kind * index < slotCount kind + slotCount kind * index := by omega
    _ = slotCount kind * (index + 1) := by rw [Nat.mul_succ, Nat.add_comm]
    _ ≤ slotCount kind * size.perSlot kind := Nat.mul_le_mul_left _ hindex

theorem faces_of_slot (hslot : slot < slotCount kind) (hindex : index < size.perSlot kind) :
    faces size kind (slot + slotCount kind * index) = (slots kind).getD slot [] := by
  rw [faces, if_pos (lt_count_of_slot hslot hindex), Nat.add_mul_mod_self_left,
    Nat.mod_eq_of_lt hslot]

theorem cell_of_slot (hslot : slot < slotCount kind) (hindex : index < size.perSlot kind) :
    cell size kind (slot + slotCount kind * index) =
      cellOfFaces size ((slots kind).getD slot []) index := by
  rw [cell, faces_of_slot hslot hindex, step, Nat.add_mul_div_left _ _ (by omega),
    Nat.div_eq_of_lt hslot, Nat.zero_add]

end

/-! ### Numbers and cells say the same -/

section

variable {size : Size} {kind : PieceKind} (visible : kind ≠ .center)

include visible

theorem mem_slots_of_faces {place : Nat} (h : place < size.count kind) :
    faces size kind place ∈ slots kind := by
  obtain ⟨slot, hslot, index, hindex, rfl⟩ := exists_slot visible h
  rw [faces_of_slot hslot hindex, List.getD_eq_getElem?_getD, List.getElem?_eq_getElem hslot]
  exact List.getElem_mem hslot

theorem isOf_cell {place : Nat} (h : place < size.count kind) :
    (cell size kind place).IsOf size kind := by
  obtain ⟨slot, hslot, index, hindex, rfl⟩ := exists_slot visible h
  rw [cell_of_slot hslot hindex]
  exact (cellOfFaces_spec hslot hindex).1

theorem atCell_cell {place : Nat} (h : place < size.count kind) :
    atCell size kind (cell size kind place) = place := by
  obtain ⟨slot, hslot, index, hindex, rfl⟩ := exists_slot visible h
  rw [cell_of_slot hslot hindex]
  exact (cellOfFaces_spec hslot hindex).2

theorem atCell_lt {c : Cell} (h : c.IsOf size kind) : atCell size kind c < size.count kind := by
  obtain ⟨slot, hslot, index, hindex, rfl⟩ := exists_cellOfFaces visible h
  rw [(cellOfFaces_spec hslot hindex).2]
  exact lt_count_of_slot hslot hindex

theorem cell_atCell {c : Cell} (h : c.IsOf size kind) :
    cell size kind (atCell size kind c) = c := by
  obtain ⟨slot, hslot, index, hindex, rfl⟩ := exists_cellOfFaces visible h
  rw [(cellOfFaces_spec hslot hindex).2, cell_of_slot hslot hindex]

/-- A place shows the faces that its cell lies on. -/
theorem mem_faces_iff {place : Nat} (h : place < size.count kind) {face : Face} :
    face ∈ faces size kind place ↔ (cell size kind place).OnFace size face := by
  obtain ⟨slot, hslot, index, hindex, rfl⟩ := exists_slot visible h
  rw [faces_of_slot hslot hindex, cell_of_slot hslot hindex]
  have last : size.layers - 1 ≠ 0 := by
    have := size.two_le
    omega
  cases kind with
  | center => exact absurd rfl visible
  | corner =>
    change slot < 8 at hslot
    cases face <;> interval_cases slot <;>
      simp [slots, cornerSlots, cellOfFaces, Cell.OnFace, Face.axis, Face.isPositive, last,
        last.symm]
  | edge =>
    change slot < 12 at hslot
    change index < size.inner at hindex
    have inner : index + 1 ≠ size.layers - 1 := by
      unfold Size.inner at hindex
      omega
    cases face <;> interval_cases slot <;>
      simp [slots, edgeSlots, cellOfFaces, Cell.OnFace, Face.axis, Face.isPositive, last,
        last.symm, inner]
  | side =>
    change slot < 6 at hslot
    have row := row_lt hindex
    have column := column_lt hindex
    have rowInner : index / size.inner + 1 ≠ size.layers - 1 := by
      unfold Size.inner at *
      omega
    have columnInner : index % size.inner + 1 ≠ size.layers - 1 := by
      unfold Size.inner at *
      omega
    cases face <;> interval_cases slot <;>
      simp [slots, sideSlots, Face.all, cellOfFaces, Cell.OnFace, Face.axis, Face.isPositive,
        last, last.symm, rowInner, columnInner]

/-! ### Turning places -/

section

variable {place : Nat} (h : place < size.count kind) (axis : Axis) (clockwise : Bool)

include h

theorem turn_lt : turn size kind axis clockwise place < size.count kind :=
  atCell_lt visible ((isOf_cell visible h).turn axis clockwise)

theorem cell_turn : cell size kind (turn size kind axis clockwise place) =
    (cell size kind place).turn size.layers axis clockwise :=
  cell_atCell visible ((isOf_cell visible h).turn axis clockwise)

/-- The turn back undoes a turn. -/
theorem turn_turn_not :
    turn size kind axis (!clockwise) (turn size kind axis clockwise place) = place := by
  rw [turn, cell_turn visible h, Cell.turn_turn_not (isOf_cell visible h).1,
    atCell_cell visible h]

/-- Two turns in one sense are two in the other. -/
theorem turn_turn : turn size kind axis (!clockwise) (turn size kind axis (!clockwise) place) =
    turn size kind axis clockwise (turn size kind axis clockwise place) := by
  rw [turn, cell_turn visible h, turn.eq_def size kind axis clockwise (turn ..),
    cell_turn visible h]
  cases axis <;> cases clockwise <;> rfl

/-- A turn keeps places in their layers. -/
theorem layer_turn : layer size kind (turn size kind axis clockwise place) axis =
    layer size kind place axis := by
  rw [layer, layer, if_pos ⟨visible, turn_lt visible h axis clockwise⟩, if_pos ⟨visible, h⟩,
    cell_turn visible h, Cell.layer_turn]

/-- A turn takes the faces of a place along with it. -/
theorem turn_mem_faces {face : Face} (member : face ∈ faces size kind place) :
    face.turn axis clockwise ∈ faces size kind (turn size kind axis clockwise place) := by
  rw [mem_faces_iff visible (turn_lt visible h axis clockwise), cell_turn visible h]
  exact ((mem_faces_iff visible h).1 member).turn axis clockwise

end

end

/-! ### Naming places -/

/-- Only places that the cube has can be named by their faces, since no others show any. -/
theorem lt_of_locate {size : Size} {faces : List Face} {number : Option Nat} {kind : PieceKind}
    {place offset : Nat} (located : locate size faces number = .ok (kind, place, offset)) :
    place < size.count kind := by
  simp only [locate] at located
  split at located
  · cases located
  · rename_i counted
    split at located
    · cases located
    · split at located
      · cases located
      · split at located
        · rename_i rotated
          cases located
          by_contra outside
          rw [IsRotation, Place.faces, if_neg outside] at rotated
          have faceless : faces = [] := rotated.symm
          rw [faceless] at counted
          cases counted
        · cases located

end Place

end CubeScript
