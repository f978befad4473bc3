import CubeScript.Cycle
import CubeScript.Proofs.Cube.Seats
import Mathlib.Data.List.Infix

/-!
# Moving pieces back along a cycle

`Cycle.moveAlong` looks up the piece in each place and gives it a new seat. As no two steps begin
in the same place, this is the same as to move every piece on its own: to the next place if its
place is in the cycle, and not at all otherwise. No two pieces are sent to one place, so their seats
pass the check of `Cube.assign`, and whether a cycle can be applied only depends on its places being
there and on the sums for the twists (`Cycle.apply_eq_ok_iff`).

The inverse of a cycle has the links of the cycle the other way round, and the step that closes
it is the closing one backwards, which is why the sign goes with the same piece. The turn from one
face to another and back is nothing, and a sign that a kind keeps is made up for by the sign that
undoes it. What is summed up for a twist has to fit in a byte, and it does as long as the items name
faces their places have (`Cycle.Oriented.sumsFit`).
-/

namespace CubeScript

namespace Cycle

/-! ### The steps of a cycle -/

/-- The items that follow one another, each with the next one. -/
def links (items : List Item) : List (Item × Item) := items.zip items.tail

theorem mem_links_iff {items : List Item} {source target : Item} :
    (source, target) ∈ links items ↔ [source, target] <:+: items := by
  induction items with
  | nil => simp [links]
  | cons first rest ih =>
    cases rest with
    | nil => simp [links, List.infix_cons_iff]
    | cons second rest =>
      rw [List.infix_cons_iff, ← ih]
      simp [links, Prod.ext_iff]

theorem rotateLeft_one (first : Item) (rest : List Item) :
    (first :: rest).rotateLeft 1 = rest ++ [first] := by
  cases rest <;> simp [List.rotateLeft]

theorem zip_concat (first last : Item) (rest : List Item) :
    (first :: rest).zip (rest ++ [last]) =
      (first :: rest).zip rest ++ [((first :: rest).getLast (List.cons_ne_nil _ _), last)] := by
  induction rest generalizing first with
  | nil => rfl
  | cons second rest ih => simp [ih]

/-- The steps of a cycle are its links and the step from the last item to the first. -/
theorem steps_eq (c : Cycle) : c.steps = links c.items ++
    [(c.items.getLast c.items_ne_nil, c.items.head c.items_ne_nil)] := by
  obtain ⟨kind, items, sign, filled, _, _, _⟩ := c
  cases items with
  | nil => exact absurd rfl filled
  | cons first rest =>
    change (first :: rest).zip ((first :: rest).rotateLeft 1) = _
    rw [rotateLeft_one, zip_concat]
    rfl

theorem sources_steps (c : Cycle) : c.steps.map Prod.fst = c.items := by
  have length : c.items.length ≤ (c.items.rotateLeft 1).length := by
    cases items : c.items with
    | nil => exact Nat.zero_le _
    | cons first rest => simp [rotateLeft_one]
  exact List.map_fst_zip length

theorem length_steps (c : Cycle) : c.steps.length = c.items.length := by
  rw [← sources_steps c, List.length_map]

/-- The step from an item leads to the next one, and from the last one to the first. -/
theorem getElem?_steps {c : Cycle} {i : Nat} {source target : Item}
    (here : c.items[i]? = some source)
    (next : c.items[(i + 1) % c.items.length]? = some target) :
    c.steps[i]? = some (source, target) := by
  obtain ⟨kind, items, sign, filled, _, _, _⟩ := c
  cases items with
  | nil => exact absurd rfl filled
  | cons first rest =>
    rw [steps, rotateLeft_one, List.getElem?_zip_eq_some]
    refine ⟨here, ?_⟩
    have inside : i < rest.length + 1 := (List.getElem?_eq_some_iff.1 here).1
    rw [List.length_cons] at next
    obtain last | before := Nat.eq_or_lt_of_le (Nat.le_of_lt_succ inside)
    · rw [last, Nat.mod_self] at next
      rw [last, List.getElem?_concat_length, ← next]
      rfl
    · rw [Nat.mod_eq_of_lt (Nat.succ_lt_succ before), List.getElem?_cons_succ] at next
      rw [List.getElem?_append_left before, next]

theorem mem_steps_iff {c : Cycle} {source target : Item} : (source, target) ∈ c.steps ↔
    [source, target] <:+: c.items ∨
      (source, target) = (c.items.getLast c.items_ne_nil, c.items.head c.items_ne_nil) := by
  rw [steps_eq, List.mem_append, mem_links_iff, List.mem_singleton]

theorem items_of_mem_steps {c : Cycle} {source target : Item}
    (member : (source, target) ∈ c.steps) : source ∈ c.items ∧ target ∈ c.items := by
  obtain ⟨leaves, enters⟩ := List.of_mem_zip member
  refine ⟨leaves, ?_⟩
  cases items : c.items with
  | nil => exact absurd items c.items_ne_nil
  | cons first rest =>
    rw [items, rotateLeft_one, List.mem_append, List.mem_singleton] at enters
    exact List.mem_cons.2 enters.symm

/-! ### Moving one piece -/

/-- The seat of a piece that leaves one item and enters the next, with an extra twist. -/
def enter (kind : PieceKind) (extra : Nat) (source target : Item) (seat : Seat) : Seat where
  place := target.place
  twist := (twistAfter kind seat.twist source target + extra) % kind.twists

/-- Where a piece goes along some steps, the last of which has an extra twist. -/
def move? (kind : PieceKind) (extra : Nat) : List (Item × Item) → Seat → Option Seat
  | [], _ => none
  | (source, target) :: steps, seat =>
    if seat.place = source.place then
      some (enter kind (if steps.isEmpty then extra else 0) source target seat)
    else move? kind extra steps seat

/-- The places that steps begin in. -/
def startPlaces (steps : List (Item × Item)) : List Nat := steps.map fun step => step.1.place

@[simp] theorem startPlaces_nil : startPlaces [] = [] := rfl

@[simp] theorem startPlaces_cons (step : Item × Item) (steps : List (Item × Item)) :
    startPlaces (step :: steps) = step.1.place :: startPlaces steps := rfl

theorem startPlaces_steps (c : Cycle) : startPlaces c.steps = c.items.map Item.place := by
  rw [startPlaces, ← sources_steps c, List.map_map]
  rfl

section

variable {kind : PieceKind} {extra : Nat} {steps : List (Item × Item)} {seat : Seat}

theorem move?_eq_none_iff : move? kind extra steps seat = none ↔
    seat.place ∉ startPlaces steps := by
  induction steps with
  | nil => simp [move?]
  | cons step steps ih =>
    rw [move?]
    split <;> simp_all

/-- The place a piece goes to only depends on the place it is in. -/
theorem place_move? {other : Seat} (same : seat.place = other.place) :
    (move? kind extra steps seat).map Seat.place =
      (move? kind extra steps other).map Seat.place := by
  induction steps with
  | nil => rfl
  | cons step steps ih =>
    rw [move?, move?, same]
    split
    · rfl
    · exact ih

/-- A piece in the place that some step begins in makes this step, as no other step begins there. -/
theorem move?_of_getElem? (distinct : (startPlaces steps).Nodup) {i : Nat} {source target : Item}
    (found : steps[i]? = some (source, target)) (start : seat.place = source.place) :
    move? kind extra steps seat =
      some (enter kind (if i + 1 = steps.length then extra else 0) source target seat) := by
  induction steps generalizing i with
  | nil => cases found
  | cons step steps ih =>
    rw [startPlaces_cons, List.nodup_cons] at distinct
    cases i with
    | zero =>
      obtain rfl : step = (source, target) := Option.some.inj found
      rw [move?, if_pos start]
      cases steps <;> simp
    | succ i =>
      rw [List.getElem?_cons_succ] at found
      have elsewhere : seat.place ≠ step.1.place := by
        intro same
        apply distinct.1
        rw [← same, start]
        exact List.mem_map_of_mem (List.mem_of_getElem? found)
      rw [move?, if_neg elsewhere, ih distinct.2 found]
      simp only [List.length_cons, Nat.add_right_cancel_iff]

end

/-- The seat of a piece after a cycle. -/
def move (c : Cycle) (seat : Seat) : Seat :=
  (move? c.kind (c.sign.twist c.kind.twists) c.steps seat).getD seat

/-! ### Moving one piece back -/

theorem twists_le (kind : PieceKind) : kind.twists ≤ 4 := by
  cases kind <;> decide

theorem twistAfter_lt (kind : PieceKind) (twist : Nat) (source target : Item) :
    twistAfter kind twist source target < kind.twists :=
  Nat.mod_lt _ kind.twists_pos

/-- A sign and the one that undoes it twist by a whole turn. -/
theorem Sign.twist_add_undoing {kind : PieceKind} {s : Sign} (legal : s.legal? kind = some s) :
    (s.twist kind.twists + (s.undoing kind).twist kind.twists) % kind.twists = 0 := by
  cases kind <;> cases s <;> first | rfl | cases legal

/-- If an item names a face that its place has, the sum stays within a byte. -/
theorem twistSum_lt {kind : PieceKind} {twist : Nat} {source target : Item}
    (enters : target.orientation.toNat < kind.twists) :
    twistSum kind twist source target < 256 := by
  have few := twists_le kind
  have reduced : twist % kind.twists < kind.twists := Nat.mod_lt _ kind.twists_pos
  unfold twistSum
  omega

/-- Leaving an item and coming back to it restores a seat if the extra twists make up for each
other. -/
theorem enter_enter {kind : PieceKind} {there back : Nat} {source target : Item} {seat : Seat}
    (start : seat.place = source.place) (twisted : seat.twist < kind.twists)
    (even : (there + back) % kind.twists = 0) :
    enter kind back target source (enter kind there source target seat) = seat := by
  obtain ⟨place, twist⟩ := seat
  obtain rfl : place = source.place := start
  unfold enter twistAfter twistSum
  simp only [Seat.mk.injEq, true_and]
  generalize source.orientation.toNat = leaves
  generalize target.orientation.toNat = enters
  cases kind <;> simp only [PieceKind.twists] at * <;> omega

theorem nodup_startPlaces (c : Cycle) : (startPlaces c.steps).Nodup := by
  rw [startPlaces_steps]
  exact c.nodup_places

/-- A piece in the place of an item goes to the next item, and from the last one to the first. -/
theorem move_of_getElem? {c : Cycle} {i : Nat} {source target : Item}
    (here : c.items[i]? = some source)
    (next : c.items[(i + 1) % c.items.length]? = some target) {seat : Seat}
    (start : seat.place = source.place) : c.move seat = enter c.kind
      (if i + 1 = c.items.length then c.sign.twist c.kind.twists else 0) source target seat := by
  rw [move, move?_of_getElem? c.nodup_startPlaces (getElem?_steps here next) start, length_steps,
    Option.getD_some]

theorem move_of_link {c : Cycle} {source target : Item} {seat : Seat}
    (linked : [source, target] <:+: c.items) (start : seat.place = source.place) :
    c.move seat = enter c.kind 0 source target seat := by
  obtain ⟨before, after, items⟩ := linked
  have inside : before.length + 1 < c.items.length := by
    rw [← items]
    simp
  have here : c.items[before.length]? = some source := by simp [← items]
  have next : c.items[(before.length + 1) % c.items.length]? = some target := by
    rw [Nat.mod_eq_of_lt inside]
    simp [← items]
  rw [move_of_getElem? here next start, if_neg (Nat.ne_of_lt inside)]

theorem move_closing {c : Cycle} {seat : Seat}
    (start : seat.place = (c.items.getLast c.items_ne_nil).place) :
    c.move seat = enter c.kind (c.sign.twist c.kind.twists) (c.items.getLast c.items_ne_nil)
      (c.items.head c.items_ne_nil) seat := by
  have full : c.items.length - 1 + 1 = c.items.length :=
    Nat.sub_add_cancel (List.length_pos_of_ne_nil c.items_ne_nil)
  have here : c.items[c.items.length - 1]? = some (c.items.getLast c.items_ne_nil) := by
    rw [← List.getLast?_eq_getElem?, List.getLast?_eq_some_getLast]
  have next : c.items[(c.items.length - 1 + 1) % c.items.length]? =
      some (c.items.head c.items_ne_nil) := by
    rw [full, Nat.mod_self, ← List.head?_eq_getElem?, List.head?_eq_some_head]
  rw [move_of_getElem? here next start, if_pos full]

theorem move_of_notMem {c : Cycle} {seat : Seat}
    (elsewhere : seat.place ∉ c.items.map Item.place) : c.move seat = seat := by
  rw [← startPlaces_steps] at elsewhere
  rw [move, move?_eq_none_iff.2 elsewhere, Option.getD_none]

/-- In every place of a cycle a step begins. -/
theorem exists_mem_steps {c : Cycle} {seat : Seat} (member : seat.place ∈ c.items.map Item.place) :
    ∃ source target, (source, target) ∈ c.steps ∧ seat.place = source.place := by
  rw [← startPlaces_steps] at member
  obtain ⟨⟨source, target⟩, step, start⟩ := List.mem_map.1 member
  exact ⟨source, target, step, start.symm⟩

/-- What a cycle does to a piece in the place where a step begins. The inverse has the step
backwards, and its extra twist makes up for that of the cycle. -/
theorem exists_enter {c : Cycle} {source target : Item} (step : (source, target) ∈ c.steps) :
    ∃ there back, (target, source) ∈ c.inverse.steps ∧ (there + back) % c.kind.twists = 0 ∧
      (∀ seat : Seat, seat.place = source.place →
        c.move seat = enter c.kind there source target seat) ∧
      ∀ moved : Seat, moved.place = target.place →
        c.inverse.move moved = enter c.kind back target source moved := by
  obtain linked | closing := mem_steps_iff.1 step
  · have back : [target, source] <:+: c.inverse.items := List.reverse_infix.2 linked
    exact ⟨0, 0, mem_steps_iff.2 (.inl back), Nat.zero_mod _,
      fun _ here => move_of_link linked here, fun _ there => move_of_link back there⟩
  · obtain ⟨rfl, rfl⟩ := Prod.ext_iff.1 closing
    have first : c.inverse.items.getLast c.inverse.items_ne_nil = c.items.head c.items_ne_nil :=
      List.getLast_reverse _
    have last : c.inverse.items.head c.inverse.items_ne_nil = c.items.getLast c.items_ne_nil :=
      List.head_reverse _
    have closing : (c.items.head c.items_ne_nil, c.items.getLast c.items_ne_nil) ∈
        c.inverse.steps := mem_steps_iff.2 (.inr (by rw [first, last]))
    refine ⟨_, _, closing, Sign.twist_add_undoing c.legal_sign, fun _ here => move_closing here,
      fun moved there => ?_⟩
    rw [move_closing (by rw [first]; exact there), first, last]
    rfl

/-- A piece outside a cycle is outside its inverse. -/
theorem move_inverse_of_notMem {c : Cycle} {seat : Seat}
    (elsewhere : seat.place ∉ c.items.map Item.place) : c.inverse.move seat = seat :=
  move_of_notMem (by simpa [inverse] using elsewhere)

/-- The inverse of a cycle takes every piece back. -/
theorem move_inverse {c : Cycle} {seat : Seat} (twisted : seat.twist < c.kind.twists) :
    c.inverse.move (c.move seat) = seat := by
  by_cases member : seat.place ∈ c.items.map Item.place
  · obtain ⟨source, target, step, start⟩ := exists_mem_steps member
    obtain ⟨there, back, _, even, goes, returns⟩ := exists_enter step
    rw [goes _ start, returns _ rfl]
    exact enter_enter start twisted even
  · rw [move_of_notMem member, move_inverse_of_notMem member]

/-! ### Moving all pieces -/

theorem place_of_pieceAt? {cube : Cube} {kind : PieceKind} {place piece : Nat}
    (found : cube.pieceAt? kind place = some piece) :
    ∃ h : piece < (cube.seats kind).length, (cube.seats kind)[piece].place = place := by
  obtain ⟨inside, here, _⟩ := List.findIdx?_eq_some_iff_getElem.1 found
  exact ⟨inside, by simpa using here⟩

theorem pieceAt?_isSome {cube : Cube} {kind : PieceKind} (legal : Seat.Legal
    (cube.size.count kind) kind.twists (cube.seats kind)) {place : Nat}
    (inside : place < cube.size.count kind) : (cube.pieceAt? kind place).isSome := by
  obtain ⟨seat, member, rfl⟩ := legal.exists_mem inside
  rw [Cube.pieceAt?, List.findIdx?_isSome, List.any_eq_true]
  exact ⟨seat, member, decide_eq_true rfl⟩

/-- Give those pieces new seats that some steps move. -/
def moveAll (kind : PieceKind) (extra : Nat) (steps : List (Item × Item))
    (before now : List Seat) : List Seat :=
  before.zipWith (fun seat present => (move? kind extra steps seat).getD present) now

/-- Whether no sum goes past a byte when the pieces of a cube are moved along some steps. -/
def SumsFit (cube : Cube) (kind : PieceKind) (steps : List (Item × Item)) : Prop :=
  ∀ step ∈ steps, ∀ seat ∈ cube.seats kind, seat.place = step.1.place →
    twistSum kind seat.twist step.1 step.2 < 256

theorem sumsFit_cons {cube : Cube} {kind : PieceKind} {step : Item × Item}
    {steps : List (Item × Item)} : SumsFit cube kind (step :: steps) ↔
      (∀ seat ∈ cube.seats kind, seat.place = step.1.place →
        twistSum kind seat.twist step.1 step.2 < 256) ∧ SumsFit cube kind steps :=
  List.forall_mem_cons

section

variable {cube : Cube} {kind : PieceKind} {extra : Nat} {steps : List (Item × Item)}
  (legal : Seat.Legal (cube.size.count kind) kind.twists (cube.seats kind))

include legal

theorem lt_of_pieceAt? {place piece : Nat} (found : cube.pieceAt? kind place = some piece) :
    place < cube.size.count kind := by
  obtain ⟨inside, rfl⟩ := place_of_pieceAt? found
  exact (legal.inRange (List.getElem_mem inside)).1

/-- The one seat in the place where a step begins is that of the piece found there, so the step
goes through if and only if the sum for its twist fits. -/
theorem forall_twistSum_lt_iff {source target : Item} {piece : Nat}
    (present : piece < (cube.seats kind).length)
    (here : (cube.seats kind)[piece].place = source.place) :
    (∀ seat ∈ cube.seats kind, seat.place = source.place →
      twistSum kind seat.twist source target < 256) ↔
        twistSum kind (cube.seats kind)[piece].twist source target < 256 := by
  constructor
  · exact fun all => all _ (List.getElem_mem present) here
  · intro fits seat member start
    obtain ⟨i, inside, rfl⟩ := List.getElem_of_mem member
    obtain rfl := legal.index_eq inside present (start.trans here.symm)
    exact fits

/-- Moving the pieces one step after the other moves each of them on its own. -/
theorem moveAlong_eq {now : List Seat} (distinct : (startPlaces steps).Nodup)
    (inside : ∀ place ∈ startPlaces steps, place < cube.size.count kind)
    (fits : SumsFit cube kind steps) (length : now.length = (cube.seats kind).length) :
    moveAlong cube kind extra steps now =
      .ok (moveAll kind extra steps (cube.seats kind) now) := by
  induction steps generalizing now with
  | nil =>
    rw [moveAlong, moveAll]
    congr 1
    apply List.ext_getElem
    · simp [length]
    · intro i _ _
      simp [move?]
  | cons step steps ih =>
    obtain ⟨source, target⟩ := step
    rw [startPlaces_cons, List.nodup_cons] at distinct
    obtain ⟨piece, found⟩ := Option.isSome_iff_exists.1
      (pieceAt?_isSome legal (inside source.place (by simp)))
    obtain ⟨present, here⟩ := place_of_pieceAt? found
    obtain ⟨fit, fitLater⟩ := sumsFit_cons.1 fits
    have sum := (forall_twistSum_lt_iff legal present here).1 fit
    rw [moveAlong, found]
    simp only [List.getElem?_eq_getElem present, Option.map_some, Option.getD_some]
    rw [if_neg (Nat.not_le_of_lt sum), ih distinct.2
      (fun place member => inside place (List.mem_cons_of_mem _ member)) fitLater
      (by simpa using length), moveAll, moveAll]
    congr 1
    apply List.ext_getElem
    · simp
    · intro i hi _
      have bound : i < (cube.seats kind).length := by
        simp only [List.length_zipWith, List.length_set, length] at hi
        omega
      simp only [List.getElem_zipWith, List.getElem_set, move?]
      by_cases same : piece = i
      · subst same
        have still : move? kind extra steps (cube.seats kind)[piece] = none :=
          move?_eq_none_iff.2 (here ▸ distinct.1)
        have zero : twistAfter kind (cube.seats kind)[piece].twist source target % kind.twists =
            twistAfter kind (cube.seats kind)[piece].twist source target :=
          Nat.mod_eq_of_lt (twistAfter_lt ..)
        simp only [here, still, if_true, Option.getD_none, Option.getD_some, enter]
        split <;> simp [zero]
      · have elsewhere : (cube.seats kind)[i].place ≠ source.place := by
          intro meet
          exact same (legal.index_eq present bound (here.trans meet.symm))
        rw [if_neg same, if_neg elsewhere]

/-- Only two things can go wrong: a sum does not fit, or a step begins in a place the cube does not
have. Then the first such step is named. -/
theorem exists_of_moveAlong {now : List Seat} {fault : Cube.Fault}
    (failed : moveAlong cube kind extra steps now = .error fault) :
    (¬ SumsFit cube kind steps ∧ fault = .byteOverflow) ∨
      ∃ before step rest, steps = before ++ step :: rest ∧
        (∀ earlier ∈ before, earlier.1.place < cube.size.count kind) ∧
        cube.size.count kind ≤ step.1.place ∧ fault = .noSuchPart step.1.name := by
  induction steps generalizing now with
  | nil => cases failed
  | cons step steps ih =>
    rw [moveAlong] at failed
    split at failed
    · rename_i missing
      cases failed
      refine .inr ⟨[], step, steps, rfl, List.forall_mem_nil _,
        Nat.le_of_not_lt fun inside => ?_, rfl⟩
      have found := pieceAt?_isSome legal inside
      rw [missing] at found
      cases found
    · rename_i piece found
      obtain ⟨present, here⟩ := place_of_pieceAt? found
      simp only [List.getElem?_eq_getElem present, Option.map_some, Option.getD_some] at failed
      split at failed
      · rename_i large
        cases failed
        refine .inl ⟨fun fits => ?_, rfl⟩
        have sum := (forall_twistSum_lt_iff legal present here).1 (sumsFit_cons.1 fits).1
        exact Nat.not_le_of_lt sum large
      · obtain ⟨large, same⟩ | ⟨before, first, rest, rfl, inside, outside, named⟩ := ih failed
        · exact .inl ⟨fun fits => large (sumsFit_cons.1 fits).2, same⟩
        · refine .inr ⟨step :: before, first, rest, rfl, ?_, outside, named⟩
          exact List.forall_mem_cons.2 ⟨lt_of_pieceAt? legal found, inside⟩

/-- If nothing goes wrong, all places exist and all sums fit. -/
theorem inside_of_moveAlong {now after : List Seat}
    (moved : moveAlong cube kind extra steps now = .ok after) :
    (∀ place ∈ startPlaces steps, place < cube.size.count kind) ∧ SumsFit cube kind steps := by
  induction steps generalizing now with
  | nil => exact ⟨List.forall_mem_nil _, List.forall_mem_nil _⟩
  | cons step steps ih =>
    rw [moveAlong] at moved
    split at moved
    · cases moved
    · rename_i piece found
      obtain ⟨present, here⟩ := place_of_pieceAt? found
      simp only [List.getElem?_eq_getElem present, Option.map_some, Option.getD_some] at moved
      split at moved
      · cases moved
      · rename_i fit
        obtain ⟨inside, fits⟩ := ih moved
        refine ⟨List.forall_mem_cons.2 ⟨lt_of_pieceAt? legal found, inside⟩, ?_⟩
        exact sumsFit_cons.2
          ⟨(forall_twistSum_lt_iff legal present here).2 (Nat.lt_of_not_le fit), fits⟩

end

/-! ### Cycles on cubes -/

/-- The cube after a cycle, if all places of the cycle exist. -/
def moved (c : Cycle) (cube : Cube) : Cube :=
  cube.withSeats c.kind ((cube.seats c.kind).map c.move)

@[simp] theorem size_moved (c : Cycle) (cube : Cube) : (c.moved cube).size = cube.size :=
  Cube.size_withSeats ..

theorem moveAll_self (c : Cycle) (seats : List Seat) :
    moveAll c.kind (c.sign.twist c.kind.twists) c.steps seats seats = seats.map c.move := by
  rw [moveAll, List.zipWith_self]
  rfl

theorem place_move {c : Cycle} {seat other : Seat} (same : seat.place = other.place) :
    (c.move seat).place = (c.move other).place := by
  have goals : (move? c.kind (c.sign.twist c.kind.twists) c.steps seat).map Seat.place =
      (move? c.kind (c.sign.twist c.kind.twists) c.steps other).map Seat.place := place_move? same
  unfold move
  cases there : move? c.kind (c.sign.twist c.kind.twists) c.steps seat <;>
    cases elsewhere : move? c.kind (c.sign.twist c.kind.twists) c.steps other <;>
    simp_all

theorem inRange_move {c : Cycle} {count : Nat} (inside : ∀ item ∈ c.items, item.place < count)
    {seat : Seat} (present : seat.InRange count c.kind.twists) :
    (c.move seat).InRange count c.kind.twists := by
  by_cases member : seat.place ∈ c.items.map Item.place
  · obtain ⟨source, target, step, start⟩ := exists_mem_steps member
    obtain ⟨_, _, _, _, goes, _⟩ := exists_enter step
    rw [goes _ start]
    exact ⟨inside target (items_of_mem_steps step).2, Nat.mod_lt _ c.kind.twists_pos⟩
  · rwa [move_of_notMem member]

/-- A cycle keeps seats legal. Two pieces do not meet, as the inverse would take them apart. -/
theorem legal_map_move {c : Cycle} {count : Nat} (inside : ∀ item ∈ c.items, item.place < count)
    {seats : List Seat} (legal : Seat.Legal count c.kind.twists seats) :
    Seat.Legal count c.kind.twists (seats.map c.move) := by
  apply legal.map
  · exact fun seat present => inRange_move inside present
  · intro seat other present presentToo meet
    have back := place_move (c := c.inverse) meet
    rwa [move_inverse present.2, move_inverse presentToo.2] at back

/-- The center is where it was, as all its twists are the same. -/
theorem seats_moved {c : Cycle} {cube : Cube}
    (inside : ∀ item ∈ c.items, item.place < cube.size.count c.kind) :
    (c.moved cube).seats c.kind = (cube.seats c.kind).map c.move := by
  by_cases visible : c.kind = .center
  · have present : (Seat.mk 0 0).InRange (cube.size.count c.kind) c.kind.twists := by
      rw [visible]
      exact ⟨Nat.one_pos, Nat.one_pos⟩
    obtain ⟨place, twist⟩ := inRange_move inside present
    rw [visible] at place twist
    have stays : c.move ⟨0, 0⟩ = ⟨0, 0⟩ := by
      calc c.move ⟨0, 0⟩ = ⟨(c.move ⟨0, 0⟩).place, (c.move ⟨0, 0⟩).twist⟩ := rfl
        _ = ⟨0, 0⟩ := by rw [Nat.lt_one_iff.1 place, Nat.lt_one_iff.1 twist]
    rw [moved, visible]
    change [⟨0, 0⟩] = [c.move ⟨0, 0⟩]
    rw [stays]
  · exact Cube.seats_withSeats_self _ _ visible

theorem seats_moved_of_ne {c : Cycle} {kind : PieceKind} (cube : Cube) (other : kind ≠ c.kind) :
    (c.moved cube).seats kind = cube.seats kind :=
  Cube.seats_withSeats_of_ne _ _ other

/-- The inverse of a cycle has its places. -/
theorem inside_inverse {c : Cycle} {count : Nat} (inside : ∀ item ∈ c.items, item.place < count) :
    ∀ item ∈ c.inverse.items, item.place < count :=
  fun item member => inside item (List.mem_reverse.1 member)

theorem seats_moved_inverse_of_ne {c : Cycle} {kind : PieceKind} (cube : Cube)
    (other : kind ≠ c.kind) : (c.inverse.moved (c.moved cube)).seats kind = cube.seats kind := by
  have back : kind ≠ c.inverse.kind := other
  rw [seats_moved_of_ne _ back, seats_moved_of_ne _ other]

section

variable {c : Cycle} {cube : Cube}
  (inside : ∀ item ∈ c.items, item.place < cube.size.count c.kind)

include inside

theorem seats_moved_inverse : (c.inverse.moved (c.moved cube)).seats c.kind =
    (cube.seats c.kind).map fun seat => c.inverse.move (c.move seat) := by
  have back : ∀ item ∈ c.inverse.items, item.place < (c.moved cube).size.count c.inverse.kind := by
    rw [size_moved]
    exact inside_inverse inside
  calc (c.inverse.moved (c.moved cube)).seats c.kind
      = ((c.moved cube).seats c.kind).map c.inverse.move := seats_moved back
    _ = ((cube.seats c.kind).map c.move).map c.inverse.move := by rw [seats_moved inside]
    _ = _ := List.map_map ..

/-- The inverse of a cycle takes all pieces of a cube back. -/
theorem moved_inverse (valid : cube.Valid) : c.inverse.moved (c.moved cube) = cube := by
  apply Cube.ext_seats
  · rw [size_moved, size_moved]
  · intro kind _
    by_cases here : kind = c.kind
    · rw [here, seats_moved_inverse inside]
      have back : ∀ seat ∈ cube.seats c.kind, c.inverse.move (c.move seat) = seat :=
        fun seat member => move_inverse ((valid c.kind).inRange member).2
      exact (List.map_congr_left back).trans (List.map_id _)
    · exact seats_moved_inverse_of_ne cube here

end

/-- A cycle can be applied to a valid cube exactly if its places exist there and no sum for a twist
goes past a byte. -/
theorem apply_eq_ok_iff {c : Cycle} {cube after : Cube} (valid : cube.Valid) :
    c.apply cube = .ok after ↔ (∀ item ∈ c.items, item.place < cube.size.count c.kind) ∧
      SumsFit cube c.kind c.steps ∧ after = c.moved cube := by
  have places : (∀ place ∈ startPlaces c.steps, place < cube.size.count c.kind) ↔
      ∀ item ∈ c.items, item.place < cube.size.count c.kind := by
    rw [startPlaces_steps, List.forall_mem_map]
  rw [← places]
  have result (inside : ∀ place ∈ startPlaces c.steps, place < cube.size.count c.kind)
      (fits : SumsFit cube c.kind c.steps) : c.apply cube = .ok (c.moved cube) := by
    have legal := legal_map_move (places.1 inside) (valid c.kind)
    rw [apply, moveAlong_eq (valid c.kind) c.nodup_startPlaces inside fits rfl, moveAll_self]
    exact Cube.assign_of_legal legal
  constructor
  · intro applied
    have goes : (∀ place ∈ startPlaces c.steps, place < cube.size.count c.kind) ∧
        SumsFit cube c.kind c.steps := by
      cases along : moveAlong cube c.kind (c.sign.twist c.kind.twists) c.steps
          (cube.seats c.kind) with
      | error fault =>
        rw [apply, along] at applied
        cases applied
      | ok seats => exact inside_of_moveAlong (valid c.kind) along
    rw [result goes.1 goes.2] at applied
    exact ⟨goes.1, goes.2, (Except.ok.inj applied).symm⟩
  · rintro ⟨inside, fits, rfl⟩
    exact result inside fits

/-- A cycle that cannot be applied names the first of its items that the cube has no place for,
unless it stops at a sum that goes past a byte. -/
theorem exists_of_apply_eq_error {c : Cycle} {cube : Cube} (valid : cube.Valid)
    {fault : Cube.Fault} (failed : c.apply cube = .error fault) :
    (¬ SumsFit cube c.kind c.steps ∧ fault = .byteOverflow) ∨
      ∃ before item rest, c.items = before ++ item :: rest ∧
        (∀ earlier ∈ before, earlier.place < cube.size.count c.kind) ∧
        cube.size.count c.kind ≤ item.place ∧ fault = .noSuchPart item.name := by
  cases along : moveAlong cube c.kind (c.sign.twist c.kind.twists) c.steps (cube.seats c.kind) with
  | ok seats =>
    -- All places exist, so the seats pass the check.
    obtain ⟨inside, fits⟩ := inside_of_moveAlong (valid c.kind) along
    rw [startPlaces_steps, List.forall_mem_map] at inside
    rw [(apply_eq_ok_iff valid).2 ⟨inside, fits, rfl⟩] at failed
    cases failed
  | error first =>
    rw [apply, along] at failed
    cases failed
    obtain large | ⟨before, step, rest, steps, inside, outside, named⟩ :=
      exists_of_moveAlong (valid c.kind) along
    · exact .inl large
    · refine .inr ⟨before.map Prod.fst, step.1, rest.map Prod.fst, ?_, ?_, outside, named⟩
      · rw [← sources_steps c, steps, List.map_append, List.map_cons]
      · rw [List.forall_mem_map]
        exact inside

/-- A cycle whose places exist can be applied if all sums fit, and stops if not. -/
theorem apply_of_inside {c : Cycle} {cube : Cube} (valid : cube.Valid)
    (inside : ∀ item ∈ c.items, item.place < cube.size.count c.kind) :
    (SumsFit cube c.kind c.steps → c.apply cube = .ok (c.moved cube)) ∧
      (¬ SumsFit cube c.kind c.steps → c.apply cube = .error .byteOverflow) := by
  constructor
  · exact fun fits => (apply_eq_ok_iff valid).2 ⟨inside, fits, rfl⟩
  · intro large
    cases applied : c.apply cube with
    | ok after => exact absurd ((apply_eq_ok_iff valid).1 applied).2.1 large
    | error fault =>
      obtain ⟨_, rfl⟩ | ⟨before, item, rest, items, _, outside, _⟩ :=
        exists_of_apply_eq_error valid applied
      · rfl
      · have listed : item ∈ c.items := by
          rw [items]
          exact List.mem_append_right before List.mem_cons_self
        exact absurd (inside item listed) (Nat.not_lt_of_le outside)

theorem valid_moved {c : Cycle} {cube : Cube} (valid : cube.Valid)
    (inside : ∀ item ∈ c.items, item.place < cube.size.count c.kind) : (c.moved cube).Valid :=
  Cube.valid_withSeats valid (legal_map_move inside (valid c.kind))

theorem valid_apply {c : Cycle} {cube after : Cube} (valid : cube.Valid)
    (applied : c.apply cube = .ok after) : after.Valid ∧ after.size = cube.size := by
  obtain ⟨inside, _, rfl⟩ := (apply_eq_ok_iff valid).1 applied
  exact ⟨valid_moved valid inside, Cube.size_withSeats ..⟩

/-! ### Cycles whose items name faces -/

/-- Whether all items of a cycle name a face that their places have. -/
def Oriented (c : Cycle) : Prop := ∀ item ∈ c.items, item.orientation.toNat < c.kind.twists

namespace Oriented

variable {c : Cycle} (oriented : c.Oriented)

include oriented

theorem inverse : c.inverse.Oriented :=
  fun item member => oriented item (List.mem_reverse.1 member)

/-- All sums fit, whatever the cube. -/
theorem sumsFit (cube : Cube) : SumsFit cube c.kind c.steps :=
  fun step member _ _ _ => twistSum_lt (oriented step.2 (items_of_mem_steps member).2)

/-- The cycle can be applied to a valid cube exactly if its places exist there. -/
theorem apply_eq_ok_iff {cube after : Cube} (valid : cube.Valid) : c.apply cube = .ok after ↔
    (∀ item ∈ c.items, item.place < cube.size.count c.kind) ∧ after = c.moved cube := by
  rw [Cycle.apply_eq_ok_iff valid]
  exact and_congr_right fun _ => and_iff_right (oriented.sumsFit cube)

/-- The cycle keeps a cube valid, and its inverse can be applied afterwards and restores it. -/
theorem apply_inverse {cube after : Cube} (valid : cube.Valid)
    (applied : c.apply cube = .ok after) :
    after.Valid ∧ after.size = cube.size ∧ c.inverse.apply after = .ok cube := by
  obtain ⟨inside, rfl⟩ := (oriented.apply_eq_ok_iff valid).1 applied
  have back : ∀ item ∈ c.inverse.items, item.place < (c.moved cube).size.count c.inverse.kind := by
    rw [size_moved]
    exact inside_inverse inside
  have validAfter := valid_moved valid inside
  refine ⟨validAfter, size_moved .., (oriented.inverse.apply_eq_ok_iff validAfter).2 ⟨back, ?_⟩⟩
  exact (moved_inverse inside valid).symm

end Oriented

end Cycle

end CubeScript
