import CubeScript.Cube.Ledger
import CubeScript.Proofs.Script.History

/-!
# Assigning the pieces of a kind

Lists of places and twists are let in if both have one entry for each piece of the kind, the places
are those of the kind in some order, and the twists are in range. The first of these that fails is
what is reported, and then the cube is what it was.

That no place is left empty is not looked at. The check writes each piece into the slot of its place
and only fails if there is no such slot or another piece has it (`Cube.fillSlots`). But as many
pieces as there are slots, each in a slot of its own, leave none empty. What has been written then
is the table of the pieces by place, and looking up a place gives the same as this table
(`Cube.assignTabled_eq`).
-/

namespace CubeScript

namespace Cube

/-! ### Filling slots -/

theorem fillSlots_cons_eq_some_iff {slots filled : List (Option Nat)} {piece place : Nat}
    {places : List Nat} : fillSlots slots piece (place :: places) = some filled ↔
      slots[place]? = some none ∧
        fillSlots (slots.set place (some piece)) (piece + 1) places = some filled := by
  rw [fillSlots]
  split
  · rename_i free
    exact (and_iff_right free).symm
  · rename_i taken
    exact iff_of_false nofun fun h => taken h.1

section

variable {slots : List (Option Nat)} {piece place : Nat} (free : slots[place]? = some none)

include free

theorem getElem?_set_of_free (other : Nat) : (slots.set place (some piece))[other]? =
    if other = place then some (some piece) else slots[other]? := by
  have inside : place < slots.length := (List.getElem?_eq_some_iff.1 free).1
  rw [List.getElem?_set]
  by_cases same : place = other
  · rw [if_pos same, if_pos (same ▸ inside), if_pos same.symm]
  · rw [if_neg same, if_neg (Ne.symm same)]

/-- The slots that are left free are those of the other places. -/
theorem forall_free_set_iff {places : List Nat} :
    (∀ other ∈ places, (slots.set place (some piece))[other]? = some none) ↔
      place ∉ places ∧ ∀ other ∈ places, slots[other]? = some none := by
  simp only [getElem?_set_of_free free]
  constructor
  · intro left
    have apart : place ∉ places := by
      intro member
      have written := left place member
      rw [if_pos rfl] at written
      cases written
    refine ⟨apart, fun other member => ?_⟩
    have still := left other member
    rwa [if_neg (ne_of_mem_of_not_mem member apart)] at still
  · rintro ⟨apart, left⟩ other member
    rw [if_neg (ne_of_mem_of_not_mem member apart)]
    exact left other member

end

/-- Filling slots succeeds if the slots of all places are free and no place comes twice. Then each
of these slots has its piece, and the others are as before. -/
theorem fillSlots_eq_some_iff {slots filled : List (Option Nat)} {piece : Nat} {places : List Nat} :
    fillSlots slots piece places = some filled ↔
      (places.Nodup ∧ ∀ place ∈ places, slots[place]? = some none) ∧
        ∀ place, filled[place]? =
          if place ∈ places then some (some (piece + places.idxOf place)) else slots[place]? := by
  induction places generalizing slots piece with
  | nil => simp [fillSlots, List.ext_getElem?_iff, eq_comm]
  | cons first places ih =>
    rw [fillSlots_cons_eq_some_iff, ih, List.nodup_cons, List.forall_mem_cons]
    by_cases free : slots[first]? = some none
    · rw [forall_free_set_iff free]
      have entries (apart : first ∉ places) (place : Nat) :
          (if place ∈ places then some (some (piece + 1 + places.idxOf place))
            else (slots.set first (some piece))[place]?) =
          if place ∈ first :: places then some (some (piece + (first :: places).idxOf place))
            else slots[place]? := by
        rw [getElem?_set_of_free free]
        by_cases same : place = first
        · rw [same, if_neg apart, if_pos rfl, if_pos List.mem_cons_self, List.idxOf_cons_self,
            Nat.add_zero]
        · have later : (first :: places).idxOf place = places.idxOf place + 1 :=
            List.idxOf_cons_ne _ (Ne.symm same)
          rw [if_neg same, later, Nat.add_assoc, Nat.add_comm 1]
          simp only [List.mem_cons, same, false_or]
      constructor
      · rintro ⟨_, ⟨distinct, apart, left⟩, filling⟩
        exact ⟨⟨⟨apart, distinct⟩, free, left⟩, fun place =>
          (filling place).trans (entries apart place)⟩
      · rintro ⟨⟨⟨apart, distinct⟩, _, left⟩, filling⟩
        exact ⟨free, ⟨distinct, apart, left⟩, fun place =>
          (filling place).trans (entries apart place).symm⟩
    · exact iff_of_false (fun h => free h.1) fun h => free h.1.2.1

/-- From empty slots, pieces of which there are as many can be written if their places are those of
the slots in some order. Each slot then has the piece whose place it is. -/
theorem fillSlots_replicate_eq_some_iff {count : Nat} {places : List Nat}
    {filled : List (Option Nat)} (length : places.length = count) :
    fillSlots (List.replicate count none) 0 places = some filled ↔
      IsPermutation count places ∧
        filled = (List.range count).map fun place => some (places.idxOf place) := by
  have free (place : Nat) :
      (List.replicate count (none : Option Nat))[place]? = some none ↔ place < count := by
    simp [List.getElem?_replicate]
  rw [fillSlots_eq_some_iff]
  simp only [free, IsPermutation, length, true_and, Nat.zero_add]
  rw [and_comm (a := places.Nodup)]
  refine and_congr_right fun rearranged => ?_
  rw [List.ext_getElem?_iff]
  refine forall_congr' fun place => ?_
  have all : place ∈ places ↔ place < count := by
    rw [(perm_range_iff.2 ⟨length, rearranged⟩).mem_iff, List.mem_range]
  by_cases inside : place < count
  · rw [if_pos (all.2 inside), List.getElem?_map, List.getElem?_range inside, Option.map_some]
  · have outside : (List.range count)[place]? = none :=
      List.getElem?_eq_none (by simpa using inside)
    have empty : (List.replicate count (none : Option Nat))[place]? = none :=
      List.getElem?_eq_none (by simpa using inside)
    rw [if_neg (mt all.1 inside), List.getElem?_map, outside, empty, Option.map_none]

example : fillSlots (List.replicate 4 none) 0 [2, 0, 3, 1] =
    some [some 1, some 3, some 0, some 2] := rfl

/-! ### What is let in -/

/-- Assigning as it is done with a table of the pieces by place: whether the places are those of the
kind in some order is told by filling the slots, and these become the table. -/
def assignTabled (cube : Cube) (kind : PieceKind) (places twists : List Nat) :
    Except Fault (Cube × List (Option Nat)) :=
  let count := cube.size.count kind
  if places.length ≠ count then .error (.wrongLength kind count places.length)
  else if twists.length ≠ count then .error (.wrongLength kind count twists.length)
  else
    match fillSlots (List.replicate count none) 0 places with
    | none => .error (.notAPermutation kind)
    | some table =>
      match twists.find? (kind.twists ≤ ·) with
      | some twist => .error (.twistOutOfRange kind twist)
      | none => .ok (cube.withSeats kind (List.zipWith Seat.mk places twists), table)

/-- Why lists for the pieces of a kind are not let in: the first of four checks that fails. -/
inductive Refuses (kind : PieceKind) (count : Nat) (places twists : List Nat) : Fault → Prop where
  | places (wrong : places.length ≠ count) :
    Refuses kind count places twists (.wrongLength kind count places.length)
  | twists (length : places.length = count) (wrong : twists.length ≠ count) :
    Refuses kind count places twists (.wrongLength kind count twists.length)
  | order (length : places.length = count) (lengthToo : twists.length = count)
    (wrong : ¬ places.Perm (List.range count)) :
    Refuses kind count places twists (.notAPermutation kind)
  | range (ordered : places.Perm (List.range count)) (length : twists.length = count)
    {before rest : List Nat} {twist : Nat} (first : twists = before ++ twist :: rest)
    (inside : ∀ earlier ∈ before, earlier < kind.twists) (wrong : kind.twists ≤ twist) :
    Refuses kind count places twists (.twistOutOfRange kind twist)

/-- Whether a cube has become another one by assigning the pieces of a kind. -/
structure Assigned (cube : Cube) (kind : PieceKind) (places twists : List Nat) (after : Cube) :
    Prop where
  size : after.size = cube.size
  placed : after.places kind = places
  twisted : after.twists kind = twists
  /-- A piece is found in the place it has been given, and in no other. -/
  found : ∀ place piece, after.pieceAt? kind place = some piece ↔ places[piece]? = some place
  /-- No place is left empty. -/
  filled : ∀ place < cube.size.count kind, (after.pieceAt? kind place).isSome
  kept : ∀ other ≠ kind, after.seats other = cube.seats other
  center : kind = .center → after = cube

/-- The first of the twists that is out of range. -/
theorem find?_twists_eq_some_iff {kind : PieceKind} {twists : List Nat} {twist : Nat} :
    twists.find? (kind.twists ≤ ·) = some twist ↔ kind.twists ≤ twist ∧
      ∃ before rest, twists = before ++ twist :: rest ∧
        ∀ earlier ∈ before, earlier < kind.twists := by
  simp [List.find?_eq_some_iff_append]

theorem assign_eq_error_iff {cube : Cube} {kind : PieceKind} {places twists : List Nat}
    {fault : Fault} : cube.assign kind places twists = .error fault ↔
      Refuses kind (cube.size.count kind) places twists fault := by
  constructor
  · intro failed
    unfold assign at failed
    dsimp only at failed
    split at failed
    · rename_i wrong
      cases failed
      exact .places wrong
    · rename_i length
      rw [not_not] at length
      split at failed
      · rename_i wrong
        cases failed
        exact .twists length wrong
      · rename_i lengthToo
        rw [not_not] at lengthToo
        split at failed
        · rename_i wrong
          cases failed
          exact .order length lengthToo (mt perm_range_iff.1 wrong)
        · rename_i ordered
          split at failed
          · rename_i twist out
            cases failed
            obtain ⟨wrong, before, rest, first, inside⟩ := find?_twists_eq_some_iff.1 out
            exact .range (perm_range_iff.2 (not_not.1 ordered)) lengthToo first inside wrong
          · cases failed
  · rintro (wrong | ⟨length, wrong⟩ | ⟨length, lengthToo, wrong⟩ |
      ⟨ordered, lengthToo, first, inside, wrong⟩)
    · exact if_pos wrong
    · exact (if_neg (not_not_intro length)).trans (if_pos wrong)
    · unfold assign
      dsimp only
      rw [if_neg (not_not_intro length), if_neg (not_not_intro lengthToo),
        if_pos (mt perm_range_iff.2 wrong)]
    · have rearranged := perm_range_iff.1 ordered
      unfold assign
      dsimp only
      rw [if_neg (not_not_intro rearranged.1), if_neg (not_not_intro lengthToo),
        if_neg (not_not_intro rearranged),
        find?_twists_eq_some_iff.2 ⟨wrong, _, _, first, inside⟩]

section

variable {cube after : Cube} {kind : PieceKind} {places twists : List Nat}

/-- The center has one seat, which it keeps. -/
theorem eq_of_assign_center (assigned : cube.assign .center places twists = .ok after) :
    after = cube := (assign_eq_ok_iff.1 assigned).2

theorem seats_of_assign (assigned : cube.assign kind places twists = .ok after) :
    after.seats kind = List.zipWith Seat.mk places twists := by
  obtain ⟨⟨rearranged, length, range⟩, rfl⟩ := assign_eq_ok_iff.1 assigned
  by_cases visible : kind = .center
  · subst visible
    obtain ⟨place, rfl⟩ := List.length_eq_one_iff.1 rearranged.1
    obtain ⟨twist, rfl⟩ := List.length_eq_one_iff.1 length
    obtain rfl : place = 0 := Nat.lt_one_iff.1 (rearranged.2.1 place (List.mem_singleton_self _))
    obtain rfl : twist = 0 := Nat.lt_one_iff.1 (range twist (List.mem_singleton_self _))
    rfl
  · exact seats_withSeats_self _ _ visible

theorem assigned_of_assign (assigned : cube.assign kind places twists = .ok after) :
    Assigned cube kind places twists after := by
  have seats := seats_of_assign assigned
  obtain ⟨⟨rearranged, length, range⟩, same⟩ := assign_eq_ok_iff.1 assigned
  have size : after.size = cube.size := by rw [same, size_withSeats]
  have both : places.length = twists.length := rearranged.1.trans length.symm
  have legal : Seat.Legal (after.size.count kind) kind.twists (after.seats kind) := by
    rw [seats, size]
    exact legal_zipWith rearranged length range
  have placed : after.places kind = places := by
    rw [Cube.places, seats, map_place_zipWith both]
  refine ⟨size, placed, ?_, ?_, ?_, ?_, ?_⟩
  · rw [Cube.twists, seats, map_twist_zipWith both]
  · intro place piece
    rw [pieceAt?_eq_some_iff_of_legal legal, placed]
  · intro place inside
    exact Cycle.pieceAt?_isSome legal (size ▸ inside)
  · intro other differs
    rw [same, seats_withSeats_of_ne _ _ differs]
  · rintro rfl
    exact eq_of_assign_center assigned

/-- The table is what looking up gives. -/
theorem Assigned.table_eq (assigned : Assigned cube kind places twists after) :
    (List.range (cube.size.count kind)).map (fun place => some (places.idxOf place)) =
      (List.range (cube.size.count kind)).map (after.pieceAt? kind) := by
  apply List.map_congr_left
  intro place member
  obtain ⟨piece, found⟩ := Option.isSome_iff_exists.1
    (assigned.filled place (List.mem_range.1 member))
  have listed : place ∈ places := List.mem_of_getElem? ((assigned.found place piece).1 found)
  exact ((assigned.found place _).2 (List.getElem?_idxOf listed)).symm

end

/-- Filling the slots decides what the check decides, and leaves the table of the pieces by
place. -/
theorem assignTabled_eq (cube : Cube) (kind : PieceKind) (places twists : List Nat) :
    cube.assignTabled kind places twists = (cube.assign kind places twists).map fun after =>
      (after, (List.range (cube.size.count kind)).map (after.pieceAt? kind)) := by
  cases decided : cube.assign kind places twists with
  | ok after =>
    obtain ⟨⟨rearranged, length, range⟩, same⟩ := assign_eq_ok_iff.1 decided
    have filled := (fillSlots_replicate_eq_some_iff rearranged.1).2 ⟨rearranged, rfl⟩
    have inside : twists.find? (kind.twists ≤ ·) = none := by
      simpa [List.find?_eq_none] using range
    unfold assignTabled
    dsimp only
    rw [if_neg (not_not_intro rearranged.1), if_neg (not_not_intro length), filled, inside,
      (assigned_of_assign decided).table_eq, same]
    rfl
  | error fault =>
    obtain wrong | ⟨length, wrong⟩ | ⟨length, lengthToo, wrong⟩ |
      ⟨ordered, lengthToo, first, inside, wrong⟩ := assign_eq_error_iff.1 decided
    · exact if_pos wrong
    · exact (if_neg (not_not_intro length)).trans (if_pos wrong)
    · have stuck : fillSlots (List.replicate (cube.size.count kind) none) 0 places = none := by
        by_contra filled
        obtain ⟨table, filled⟩ := Option.ne_none_iff_exists'.1 filled
        exact wrong (perm_range_iff.2 ((fillSlots_replicate_eq_some_iff length).1 filled).1)
      unfold assignTabled
      dsimp only
      rw [if_neg (not_not_intro length), if_neg (not_not_intro lengthToo), stuck]
      rfl
    · have rearranged := perm_range_iff.1 ordered
      have filled := (fillSlots_replicate_eq_some_iff rearranged.1).2 ⟨rearranged, rfl⟩
      unfold assignTabled
      dsimp only
      rw [if_neg (not_not_intro rearranged.1), if_neg (not_not_intro lengthToo), filled,
        find?_twists_eq_some_iff.2 ⟨wrong, _, _, first, inside⟩]
      rfl

/-- Whatever lists are assigned, they are let in exactly if they are as long as the kind has pieces,
the places are those of the kind in some order, and the twists are in range. Then they are read
back, looking up is the inverse of the places, and nothing else changes. Otherwise nothing changes
at all, and the first check that fails is reported. The check and the table of the pieces by place
can be made in one by filling slots. -/
theorem run_assign (cube : Cube) (kind : PieceKind) (places twists : List Nat) :
    (((Call.assign kind places twists).run cube).2 = none ↔
      places.length = cube.size.count kind ∧ twists.length = cube.size.count kind ∧
        places.Perm (List.range (cube.size.count kind)) ∧ ∀ twist ∈ twists, twist < kind.twists) ∧
    (∀ after, (Call.assign kind places twists).run cube = (after, none) →
      Assigned cube kind places twists after) ∧
    (∀ after fault, (Call.assign kind places twists).run cube = (after, some fault) →
      after = cube ∧ Refuses kind (cube.size.count kind) places twists fault) ∧
    cube.assignTabled kind places twists = (cube.assign kind places twists).map fun after =>
      (after, (List.range (cube.size.count kind)).map (after.pieceAt? kind)) := by
  have call : (Call.assign kind places twists).run cube =
      Call.outcome cube (cube.assign kind places twists) := rfl
  rw [call]
  cases decided : cube.assign kind places twists with
  | ok result =>
    obtain ⟨⟨rearranged, length, range⟩, _⟩ := assign_eq_ok_iff.1 decided
    refine ⟨iff_of_true rfl ⟨rearranged.1, length, perm_range_iff.2 rearranged, range⟩, ?_,
      fun _ _ => nofun, decided ▸ assignTabled_eq cube kind places twists⟩
    intro after same
    cases same
    exact assigned_of_assign decided
  | error fault =>
    refine ⟨iff_of_false nofun ?_, fun _ => nofun, ?_,
      decided ▸ assignTabled_eq cube kind places twists⟩
    · rintro ⟨_, length, ordered, range⟩
      have letIn := assign_eq_ok_iff.2 ⟨⟨perm_range_iff.1 ordered, length, range⟩, rfl⟩
      rw [decided] at letIn
      cases letIn
    · intro after other same
      cases same
      exact ⟨rfl, assign_eq_error_iff.1 decided⟩

end Cube

end CubeScript
