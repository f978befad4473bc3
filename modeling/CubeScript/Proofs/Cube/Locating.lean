import CubeScript.Proofs.Cube.Places
import Mathlib.Data.List.Basic
import Mathlib.Data.List.TakeWhile

/-!
# Finding places by name

A place can be found by the faces it shows and its number inside the slot of these faces.
The faces may be listed from any of them on, as long as they go round the place in its own sense,
and `Place.locate` tells from which. The cell that the faces and the number lead to is the same
wherever the list begins (`Place.cellOfFaces_rotateLeft`), and the number is read off the place
again, so faces and number are all that a place needs for a name.

Another way to number the places is to make a table of them, slot after slot, with the cell and
the faces of each. The table has the places in the order of their numbers (`Place.table_eq`), and
the place that a cell leads to is where the table has this cell (`Place.findIdx?_table`). Faces on
different axes always lead to a cell of the table, even if no place shows them in this order.
-/

namespace CubeScript

theorem Face.letter_injective : Function.Injective letter := by
  intro f g same
  have letters := congrArg ofLetter? same
  rw [ofLetter?_letter, ofLetter?_letter] at letters
  exact Option.some.inj letters

theorem PieceKind.faceCount_pos {kind : PieceKind} (visible : kind ≠ .center) :
    0 < kind.faceCount := by
  cases kind with
  | center => exact absurd rfl visible
  | _ => exact Nat.succ_pos _

theorem PieceKind.ofFaceCount?_eq_some_iff {count : Nat} {kind : PieceKind} :
    ofFaceCount? count = some kind ↔ count = kind.faceCount ∧ kind ≠ .center := by
  constructor
  · intro counted
    unfold ofFaceCount? at counted
    split at counted
    all_goals cases counted
    all_goals exact ⟨rfl, nofun⟩
  · rintro ⟨rfl, visible⟩
    exact ofFaceCount?_faceCount visible

namespace Place

variable {size : Size} {kind : PieceKind}

/-! ### Faces from another one on -/

theorem mem_of_mem_rotateLeft {faces : List Face} {offset : Nat} {face : Face}
    (member : face ∈ faces.rotateLeft offset) : face ∈ faces := by
  dsimp only [List.rotateLeft] at member
  split at member
  · exact member
  · exact (List.mem_append.1 member).elim List.mem_of_mem_drop List.mem_of_mem_take

section

variable {canonical : List Face} (listed : canonical ∈ slots kind)

include listed

theorem length_of_mem_slots : canonical.length = kind.faceCount := by
  revert canonical
  cases kind <;> decide

variable {offset : Nat} (inside : offset < canonical.length)

include inside

/-- No two faces of a slot lie on one axis. -/
theorem nodup_axis_rotateLeft : ((canonical.rotateLeft offset).map Face.axis).Nodup := by
  revert canonical offset
  cases kind <;> decide

theorem idxOf_headD_rotateLeft :
    canonical.idxOf ((canonical.rotateLeft offset).headD .right) = offset := by
  revert canonical offset
  cases kind <;> decide

theorem length_rotateLeft : (canonical.rotateLeft offset).length = canonical.length := by
  revert canonical offset
  cases kind <;> decide

theorem find?_rotateLeft (axis : Axis) :
    (canonical.rotateLeft offset).find? (·.axis = axis) = canonical.find? (·.axis = axis) := by
  revert canonical offset
  cases axis <;> cases kind <;> decide

/-- The faces of a slot lead to the same cell wherever they begin. -/
theorem cellOfFaces_rotateLeft (step : Nat) :
    cellOfFaces size (canonical.rotateLeft offset) step = cellOfFaces size canonical step := by
  by_cases single : canonical.length = 1
  · obtain ⟨face, rfl⟩ := List.length_eq_one_iff.1 single
    rfl
  · have same := length_rotateLeft listed inside
    unfold cellOfFaces
    congr 1
    funext axis
    rw [find?_rotateLeft listed inside]
    split
    · rfl
    · split
      · rename_i one
        rw [one] at same
        exact absurd same.symm single
      · split
        · exact absurd rfl single
        · rfl

end

/-- The faces of a place and its step inside the slot lead back to it. -/
theorem atCell_cellOfFaces {place offset : Nat} (visible : kind ≠ .center)
    (existing : place < size.count kind) (inside : offset < (faces size kind place).length) :
    atCell size kind (cellOfFaces size ((faces size kind place).rotateLeft offset)
      (step kind place)) = place := by
  rw [cellOfFaces_rotateLeft (mem_slots_of_faces visible existing) inside]
  exact atCell_cell visible existing

/-- The step that faces and a number lead to is the one that the number asks for. -/
theorem step_atCell_cellOfFaces {place offset index : Nat} (visible : kind ≠ .center)
    (existing : place < size.count kind) (inside : offset < (faces size kind place).length)
    (fits : index < size.perSlot kind) :
    step kind (atCell size kind (cellOfFaces size ((faces size kind place).rotateLeft offset)
      index)) = index := by
  rw [cellOfFaces_rotateLeft (mem_slots_of_faces visible existing) inside]
  obtain ⟨slot, hslot, other, hother, rfl⟩ := exists_slot visible existing
  rw [faces_of_slot hslot hother, (cellOfFaces_spec hslot fits).2, step,
    Nat.add_mul_div_left _ _ (by omega), Nat.div_eq_of_lt hslot, Nat.zero_add]

theorem step_lt {place : Nat} (visible : kind ≠ .center) (existing : place < size.count kind) :
    step kind place < size.perSlot kind := by
  rw [count_eq size visible] at existing
  exact Nat.div_lt_of_lt_mul existing

/-- Only places that exist show faces. -/
theorem lt_count_of_rotateLeft {faces : List Face} {place offset : Nat}
    (inside : offset < faces.length)
    (rotated : faces = (Place.faces size kind place).rotateLeft offset) :
    place < size.count kind := by
  by_contra outside
  rw [Place.faces, if_neg outside] at rotated
  rw [rotated] at inside
  exact Nat.not_lt_zero offset inside

/-! ### What can be located -/

/-- The places that `Place.locate` finds, and from which face on. -/
theorem locate_eq_ok_iff {faces : List Face} {number : Option Nat} {place offset : Nat} :
    locate size faces number = .ok (kind, place, offset) ↔
      offset < faces.length ∧ faces.length = kind.faceCount ∧
        faces = (Place.faces size kind place).rotateLeft offset ∧
        number.getD 1 = step kind place + 1 := by
  constructor
  · intro located
    have existing := lt_of_locate located
    simp only [locate] at located
    split at located
    · cases located
    rename_i found counted
    split at located
    · cases located
    split at located
    · cases located
    rename_i fits
    split at located
    · rename_i rotated
      injection located with same
      injection same with same_kind same
      injection same with same_place same_offset
      subst same_kind
      rw [same_place] at rotated same_offset
      rw [same_offset] at rotated
      obtain ⟨counted, visible⟩ := PieceKind.ofFaceCount?_eq_some_iff.1 counted
      have listed := mem_slots_of_faces visible existing
      have length := length_of_mem_slots listed
      have inside : offset < (Place.faces size found place).length := by
        obtain ⟨first, rest, rfl⟩ : ∃ first rest, faces = first :: rest := by
          refine List.exists_cons_of_length_pos ?_
          rw [counted]
          exact PieceKind.faceCount_pos visible
        have member : first ∈ (Place.faces size found place).rotateLeft offset := by
          rw [rotated]
          exact List.mem_cons_self
        rw [← same_offset, List.idxOf_lt_length_iff]
        exact mem_of_mem_rotateLeft member
      refine ⟨by omega, counted, rotated.symm, ?_⟩
      have below : number.getD 1 - 1 < size.perSlot found := by omega
      have step := step_atCell_cellOfFaces visible existing inside below
      rw [rotated, same_place] at step
      omega
    · cases located
  · rintro ⟨inside, counted, rotated, numbered⟩
    have existing := lt_count_of_rotateLeft inside rotated
    have visible : kind ≠ .center := by
      rintro rfl
      rw [counted] at inside
      exact Nat.not_lt_zero _ inside
    have listed := mem_slots_of_faces visible existing
    have begins : offset < (Place.faces size kind place).length := by
      rw [length_of_mem_slots listed, ← counted]
      exact inside
    have index : number.getD 1 - 1 = step kind place := by omega
    have fits := step_lt visible existing
    have back := atCell_cellOfFaces visible existing begins
    rw [← rotated] at back
    have first := idxOf_headD_rotateLeft listed begins
    rw [← rotated] at first
    have distinct := nodup_axis_rotateLeft listed begins
    rw [← rotated] at distinct
    simp only [locate, PieceKind.ofFaceCount?_eq_some_iff.2 ⟨counted, visible⟩, index, back, first]
    rw [if_neg (not_not_intro distinct), if_neg (by omega)]
    exact if_pos rotated.symm

example : locate ⟨4, by decide, by decide⟩ [.right, .up] (some 2) = .ok (.edge, 12, 1) := rfl

/-! ### The table of places -/

/-- The ends of the axes that the corners are at, corner by corner. -/
def cornerEnds : List (Bool × Bool × Bool) :=
  [(true, true, true), (true, false, true), (false, true, true), (false, false, true),
   (true, true, false), (true, false, false), (false, true, false), (false, false, false)]

/-- The two faces of the edges, edge by edge. -/
def edgeEnds : List (Face × Face) :=
  [(.up, .right), (.up, .front), (.up, .left), (.up, .back),
   (.down, .right), (.down, .front), (.down, .left), (.down, .back),
   (.front, .right), (.front, .left), (.back, .right), (.back, .left)]

/-- The two axes along a face. -/
def axesAlong (face : Face) : Axis × Axis :=
  match face.axis with
  | .x => (.y, .z)
  | .y => (.x, .z)
  | .z => (.x, .y)

/-- The outward normal of a face, by its coordinates. -/
def normal (face : Face) (axis : Axis) : Int :=
  if axis = face.axis then if face.isPositive then 1 else -1 else 0

/-- Whether three faces follow one another clockwise around their corner. -/
def Clockwise (a b c : Face) : Prop :=
  normal a .x * (normal b .y * normal c .z - normal b .z * normal c .y) +
    normal a .y * (normal b .z * normal c .x - normal b .x * normal c .z) +
    normal a .z * (normal b .x * normal c .y - normal b .y * normal c .x) = -1

instance (a b c : Face) : Decidable (Clockwise a b c) := inferInstanceAs (Decidable (_ = _))

/-- The layer of an end of an axis. -/
def endLayer (size : Size) (positive : Bool) : Nat := if positive then size.layers - 1 else 0

/-- The faces of the corner at some ends of the axes, the one on the vertical axis first. -/
def cornerFaces (right up front : Bool) : List Face :=
  let vertical := if up then Face.up else .down
  let lateral := if right then Face.right else .left
  let frontal := if front then Face.front else .back
  if Clockwise vertical lateral frontal then [vertical, lateral, frontal]
  else [vertical, frontal, lateral]

/-- The places of a kind in the order of their numbers, each with its cell and its faces. -/
def table (size : Size) : PieceKind → List (Cell × List Face)
  | .corner => cornerEnds.map fun (right, up, front) =>
    (⟨endLayer size right, endLayer size up, endLayer size front⟩, cornerFaces right up front)
  | .edge => (List.range size.inner).flatMap fun ring => edgeEnds.map fun (first, second) =>
    let layer (axis : Axis) : Nat :=
      if axis = first.axis then endLayer size first.isPositive
      else if axis = second.axis then endLayer size second.isPositive
      else ring + 1
    (.ofLayers layer, [first, second])
  | .side => (List.range (size.inner * size.inner)).flatMap fun slot => Face.all.map fun face =>
    let layer (axis : Axis) : Nat :=
      if axis = face.axis then endLayer size face.isPositive
      else if axis = (axesAlong face).1 then slot / size.inner + 1
      else slot % size.inner + 1
    (.ofLayers layer, [face])
  | .center => []

theorem flatMap_range_map {α : Type} (entry : Nat → Nat → α) (slots steps : Nat) :
    ((List.range steps).flatMap fun step => (List.range slots).map fun slot => entry slot step) =
      (List.range (slots * steps)).map fun place => entry (place % slots) (place / slots) := by
  induction steps with
  | zero => rfl
  | succ steps ih =>
    rw [List.range_succ, List.flatMap_append, ih, Nat.mul_succ, List.range_add, List.map_append,
      List.map_map, List.flatMap_singleton]
    congr 1
    apply List.map_congr_left
    intro slot inside
    have small := List.mem_range.1 inside
    rw [Function.comp_apply, Nat.mul_add_mod, Nat.mod_eq_of_lt small,
      Nat.mul_add_div (by omega), Nat.div_eq_of_lt small, Nat.add_zero]

/-- The table has every place under its number. -/
theorem table_eq (size : Size) (visible : kind ≠ .center) :
    table size kind = (List.range (size.count kind)).map fun place =>
      (cell size kind place, faces size kind place) := by
  have slotwise : (List.range (size.count kind)).map
      (fun place => (cell size kind place, faces size kind place)) =
        (List.range (size.perSlot kind)).flatMap fun step =>
          (List.range (slotCount kind)).map fun slot =>
            (cellOfFaces size ((slots kind).getD slot []) step, (slots kind).getD slot []) := by
    rw [flatMap_range_map (fun slot step =>
      (cellOfFaces size ((slots kind).getD slot []) step, (slots kind).getD slot [])),
      ← count_eq size visible]
    apply List.map_congr_left
    intro place listed
    rw [cell, faces, if_pos (List.mem_range.1 listed), step]
  rw [slotwise]
  cases kind with
  | center => exact absurd rfl visible
  | _ => rfl

theorem cell_injective (visible : kind ≠ .center) {place other : Nat}
    (existing : place < size.count kind) (present : other < size.count kind)
    (same : cell size kind place = cell size kind other) : place = other := by
  rw [← atCell_cell visible existing, same, atCell_cell visible present]

/-- The place in a cell is where the table has the cell. -/
theorem findIdx?_table (visible : kind ≠ .center) {c : Cell} (h : c.IsOf size kind) :
    (table size kind).findIdx? (fun entry => entry.1 = c) = some (atCell size kind c) := by
  have existing := atCell_lt visible h
  rw [table_eq size visible, List.findIdx?_map, List.findIdx?_eq_some_iff_getElem]
  refine ⟨by simpa using existing, by simpa using cell_atCell visible h, ?_⟩
  intro place before
  have other : cell size kind place ≠ c := by
    intro same
    have apart := cell_injective visible (Nat.lt_trans before existing) existing
      (same.trans (cell_atCell visible h).symm)
    exact Nat.ne_of_lt before apart
  simpa using other

/-- Faces on different axes are as many as the axes they are on. -/
theorem length_eq_of_nodup_axis {axes : List Axis} (distinct : axes.Nodup) : axes.length =
    (if .x ∈ axes then 1 else 0) + (if .y ∈ axes then 1 else 0) + if .z ∈ axes then 1 else 0 := by
  induction axes with
  | nil => rfl
  | cons axis axes ih =>
    obtain ⟨new, distinct⟩ := List.nodup_cons.1 distinct
    have length := ih distinct
    cases axis <;> simp [new, length] at * <;> omega

section

variable {faces : List Face} (counted : faces.length = kind.faceCount)
  (distinct : (faces.map Face.axis).Nodup) {step : Nat} (fits : step < size.perSlot kind)

include counted distinct fits

theorem layer_cellOfFaces (visible : kind ≠ .center) (axis : Axis) :
    (cellOfFaces size faces step).layer axis < size.layers ∧
      Cell.outer size ((cellOfFaces size faces step).layer axis) =
        if axis ∈ faces.map Face.axis then 1 else 0 := by
  have two := size.two_le
  rw [cellOfFaces, Cell.layer_ofLayers]
  cases found : faces.find? (·.axis = axis) with
  | some face =>
    have member : axis ∈ faces.map Face.axis := by
      have on : face.axis = axis := by simpa using List.find?_some found
      rw [← on]
      exact List.mem_map_of_mem (List.mem_of_find?_eq_some found)
    rw [if_pos member]
    cases positive : face.isPositive <;> simp [positive, Cell.outer, size.layers_pos]
  | none =>
    have free : axis ∉ faces.map Face.axis := by
      intro member
      obtain ⟨face, listed, on⟩ := List.mem_map.1 member
      exact List.find?_eq_none.1 found face listed (decide_eq_true on)
    have inner {k : Nat} (inside : k < size.inner) :
        k + 1 < size.layers ∧ Cell.outer size (k + 1) = 0 := by
      refine ⟨?_, if_pos (isInner_succ.2 inside)⟩
      unfold Size.inner at inside
      omega
    rw [if_neg free]
    cases kind with
    | center => exact absurd rfl visible
    | corner =>
      have length := length_eq_of_nodup_axis distinct
      rw [List.length_map, counted] at length
      change 3 = _ at length
      cases axis <;> rw [if_neg free] at length <;> split at length <;> split at length <;> omega
    | edge =>
      obtain ⟨first, second, rfl⟩ := List.length_eq_two.1 counted
      exact inner fits
    | side =>
      obtain ⟨face, rfl⟩ := List.length_eq_one_iff.1 counted
      change step < size.inner * size.inner at fits
      dsimp only
      by_cases row : axis = if face.axis = .x then .y else .x
      · rw [if_pos row]
        exact inner (row_lt fits)
      · rw [if_neg row]
        exact inner (column_lt fits)

/-- Faces on different axes lead to a cell of their kind, whichever way they go round. -/
theorem isOf_cellOfFaces (visible : kind ≠ .center) :
    (cellOfFaces size faces step).IsOf size kind := by
  have layer := layer_cellOfFaces counted distinct fits visible
  refine ⟨⟨(layer .x).1, (layer .y).1, (layer .z).1⟩, ?_⟩
  rw [← counted, ← List.length_map Face.axis, length_eq_of_nodup_axis distinct, ← (layer .x).2,
    ← (layer .y).2, ← (layer .z).2]
  rfl

/-- Looking up the cell that some faces lead to cannot fail. -/
theorem findIdx?_table_cellOfFaces (visible : kind ≠ .center) :
    (table size kind).findIdx? (fun entry => entry.1 = cellOfFaces size faces step) =
      some (atCell size kind (cellOfFaces size faces step)) :=
  findIdx?_table visible (isOf_cellOfFaces counted distinct fits visible)

end

/-! ### Names -/

/-- The number that the name of a place has, where it has one. -/
def number (size : Size) (kind : PieceKind) (place : Nat) : Option Nat :=
  if 1 < size.perSlot kind then some (step kind place + 1) else none

theorem name_eq_describe (visible : kind ≠ .center) (place : Nat) :
    name size kind place = describe (faces size kind place) (number size kind place) := by
  rw [name, describe, number, if_neg visible]
  split <;> simp

/-- A place is found by the faces and the number of its name. -/
theorem locate_of_name {place : Nat} (visible : kind ≠ .center)
    (existing : place < size.count kind) :
    locate size (faces size kind place) (number size kind place) = .ok (kind, place, 0) := by
  have length := length_of_mem_slots (mem_slots_of_faces visible existing)
  have positive := PieceKind.faceCount_pos visible
  refine locate_eq_ok_iff.2 ⟨by omega, length, ?_, ?_⟩
  · simp [List.rotateLeft]
  · have fits := step_lt visible existing
    rw [number]
    split
    · rfl
    · rw [Option.getD_none]
      omega

/-- The digits that a number is written with, none if there is no number. -/
def digits (number : Option Nat) : List Char := (number.map (Nat.toDigits 10)).getD []

theorem toList_describe (faces : List Face) (number : Option Nat) :
    (describe faces number).toList = faces.map Face.letter ++ digits number := by
  cases number with
  | none => simp [describe, digits, Face.letters]
  | some n => simp [describe, digits, Face.letters, Nat.toString_eq_repr, Nat.toList_repr]

theorem digits_injective : Function.Injective digits := by
  intro number other same
  have filled (n : Nat) : digits (some n) ≠ digits none := Nat.toDigits_ne_nil
  cases number with
  | none =>
    cases other with
    | none => rfl
    | some m => exact absurd same.symm (filled m)
  | some n =>
    cases other with
    | none => exact absurd same (filled n)
    | some m =>
      have value := congrArg (fun ds => Nat.ofDigitChars 10 ds 0) same
      simpa [digits] using value

/-- The letters of a name end where its digits begin, so both can be told from it. -/
theorem describe_injective {faces others : List Face} {number other : Option Nat}
    (same : describe faces number = describe others other) : faces = others ∧ number = other := by
  have letters (faces : List Face) : ∀ c ∈ faces.map Face.letter, (!c.isDigit) = true := by
    simp only [List.mem_map]
    rintro c ⟨face, _, rfl⟩
    cases face <;> rfl
  have numeral (number : Option Nat) : (digits number).takeWhile (!·.isDigit) = [] := by
    cases number with
    | none => rfl
    | some n =>
      obtain ⟨c, cs, split⟩ := List.exists_cons_of_ne_nil (Nat.toDigits_ne_nil (b := 10) (n := n))
      have digit : c.isDigit := by
        refine Nat.isDigit_of_mem_toDigits (b := 10) (n := n) (by decide) (by decide) ?_
        rw [split]
        exact List.mem_cons_self
      change (Nat.toDigits 10 n).takeWhile (!·.isDigit) = []
      rw [split]
      exact List.takeWhile_cons_of_neg (by simp [digit])
  have split := congrArg String.toList same
  rw [toList_describe, toList_describe] at split
  have first := congrArg (List.takeWhile (!·.isDigit)) split
  rw [List.takeWhile_append_of_pos (letters faces), List.takeWhile_append_of_pos (letters others),
    numeral, numeral, List.append_nil, List.append_nil] at first
  rw [first] at split
  exact ⟨List.map_injective_iff.2 Face.letter_injective first,
    digits_injective (List.append_cancel_left split)⟩

/-- The name of a visible place begins with the letter of a face, and that of the center does
not. -/
theorem name_ne_center {place elsewhere : Nat} (visible : kind ≠ .center)
    (existing : place < size.count kind) :
    name size kind place ≠ name size .center elsewhere := by
  intro same
  obtain ⟨face, rest, split⟩ : ∃ face rest, faces size kind place = face :: rest := by
    apply List.exists_cons_of_length_pos
    rw [length_of_mem_slots (mem_slots_of_faces visible existing)]
    exact PieceKind.faceCount_pos visible
  have center : name size .center elsewhere = "center" := by
    simp [name, faces, slots, Size.perSlot, Face.letters]
  have first := congrArg (·.toList.head?) same
  simp only [name_eq_describe visible, toList_describe, split, center] at first
  revert first
  cases face <;> simp [Face.letter]

/-- Two places of a cube have different names, also if they are of different kinds. -/
theorem name_injective {other : PieceKind} {place elsewhere : Nat}
    (existing : place < size.count kind) (present : elsewhere < size.count other)
    (same : name size kind place = name size other elsewhere) :
    kind = other ∧ place = elsewhere := by
  by_cases visible : kind = .center
  · subst visible
    by_cases seen : other = .center
    · subst seen
      change place < 1 at existing
      change elsewhere < 1 at present
      exact ⟨rfl, by omega⟩
    · exact absurd same.symm (name_ne_center seen present)
  · by_cases seen : other = .center
    · subst seen
      exact absurd same (name_ne_center visible existing)
    · rw [name_eq_describe visible, name_eq_describe seen] at same
      obtain ⟨sameFaces, sameNumber⟩ := describe_injective same
      have located := locate_of_name visible existing
      rw [sameFaces, sameNumber, locate_of_name seen present] at located
      simp_all

/-- Locating faces and a number undoes the naming of places. It succeeds just where the faces are
those of a place from some face on, in their order, and the number is that of the place, and tells
the place and the face. Else it says what is wrong with the name. So every place is found by the
faces and the number of its name, and no two places have the same name. The places are numbered as
in the table of them, and the place that faces lead to is where the table has their cell. -/
theorem locate_undoes_naming (size : Size) :
    (∀ faces number kind place offset,
      locate size faces number = .ok (kind, place, offset) ↔
        offset < faces.length ∧ faces.length = kind.faceCount ∧
          faces = (Place.faces size kind place).rotateLeft offset ∧
          number.getD 1 = match kind with
            | .edge => place / 12 + 1
            | .side => place / 6 + 1
            | _ => 1) ∧
      (∀ faces number fault, locate size faces number = .error fault →
        fault = .impossiblePart (describe faces number) ∨
          fault = .noSuchPart (describe faces number)) ∧
      (∀ kind place, kind ≠ .center → place < size.count kind →
        name size kind place = describe (faces size kind place) (number size kind place) ∧
          locate size (faces size kind place) (number size kind place) = .ok (kind, place, 0)) ∧
      (∀ kind place other elsewhere, place < size.count kind → elsewhere < size.count other →
        name size kind place = name size other elsewhere → kind = other ∧ place = elsewhere) ∧
      ∀ kind, kind ≠ .center →
        table size kind = (List.range (size.count kind)).map (fun place =>
          (cell size kind place, faces size kind place)) ∧
        ∀ faces step, faces.length = kind.faceCount → (faces.map Face.axis).Nodup →
          step < size.perSlot kind →
          (table size kind).findIdx? (fun entry => entry.1 = cellOfFaces size faces step) =
            some (atCell size kind (cellOfFaces size faces step)) := by
  refine ⟨fun faces number kind place offset => ?_, fun faces number fault refused => ?_,
    fun kind place visible existing => ?_, fun kind place other elsewhere existing present same =>
      name_injective existing present same, fun kind visible => ⟨table_eq size visible, ?_⟩⟩
  · rw [locate_eq_ok_iff]
    refine and_congr_right fun inside => and_congr_right fun counted =>
      and_congr_right fun rotated => ?_
    cases kind with
    | edge => rfl
    | side => rfl
    | corner =>
      have existing : place < 8 := lt_count_of_rotateLeft inside rotated
      rw [step, show slotCount .corner = 8 from rfl, Nat.div_eq_of_lt existing]
    | center =>
      rw [counted] at inside
      exact absurd inside (Nat.not_lt_zero offset)
  · simp only [locate] at refused
    split at refused
    · cases refused
      exact .inl rfl
    split at refused
    · cases refused
      exact .inl rfl
    split at refused
    · cases refused
      exact .inr rfl
    split at refused
    · cases refused
    · cases refused
      exact .inl rfl
  · exact ⟨name_eq_describe visible place, locate_of_name visible existing⟩
  · intro faces step counted distinct fits
    exact findIdx?_table_cellOfFaces counted distinct fits visible

end Place

end CubeScript
