import CubeScript.Cube.State
import Mathlib.Data.List.Nodup
import Mathlib.Data.List.Perm.Subperm

/-!
# Legal seats

A list is a rearrangement of the numbers below its length exactly if it passes the check that
`Cube.assign` makes, so a legal list of seats is one of the right length whose places differ and
are in range. In this form it is plain what a change to single seats has to keep.

The check that is made when seats are assigned lets exactly these through, and a cube stays valid
with them.
-/

namespace CubeScript

theorem Cube.perm_range_iff {count : Nat} {places : List Nat} :
    places.Perm (List.range count) ↔ IsPermutation count places := by
  constructor
  · intro perm
    refine ⟨by simpa using perm.length_eq, fun place member => ?_, ?_⟩
    · exact List.mem_range.1 (perm.mem_iff.1 member)
    · exact perm.nodup_iff.2 List.nodup_range
  · rintro ⟨length, inside, distinct⟩
    have subset : places ⊆ List.range count := fun place member =>
      List.mem_range.2 (inside place member)
    exact (List.subperm_of_subset distinct subset).perm_of_length_le (by simp [length])

namespace Seat

/-- Whether a seat is one of a kind with `count` places and `twists` twists. -/
def InRange (count twists : Nat) (seat : Seat) : Prop := seat.place < count ∧ seat.twist < twists

theorem legal_iff {count twists : Nat} {seats : List Seat} :
    Legal count twists seats ↔ seats.length = count ∧ (seats.map place).Nodup ∧
      ∀ seat ∈ seats, seat.InRange count twists := by
  rw [Legal, Cube.perm_range_iff, Cube.IsPermutation, List.length_map, List.forall_mem_map]
  constructor
  · rintro ⟨⟨length, inside, distinct⟩, twisted⟩
    exact ⟨length, distinct, fun seat member => ⟨inside seat member, twisted seat member⟩⟩
  · rintro ⟨length, distinct, range⟩
    exact ⟨⟨length, fun seat member => (range seat member).1, distinct⟩,
      fun seat member => (range seat member).2⟩

variable {count twists : Nat} {seats : List Seat}

theorem Legal.inRange (legal : Legal count twists seats) {seat : Seat} (member : seat ∈ seats) :
    seat.InRange count twists :=
  (legal_iff.1 legal).2.2 seat member

/-- Every place of the kind is taken. -/
theorem Legal.exists_mem (legal : Legal count twists seats) {place : Nat} (inside : place < count) :
    ∃ seat ∈ seats, seat.place = place := by
  have taken := legal.1.mem_iff.2 (List.mem_range.2 inside)
  simpa using taken

/-- No two pieces sit in one place. -/
theorem Legal.index_eq (legal : Legal count twists seats) {i j : Nat} (hi : i < seats.length)
    (hj : j < seats.length) (same : seats[i].place = seats[j].place) : i = j := by
  have distinct : (seats.map place).Nodup := (legal_iff.1 legal).2.1
  have hi : i < (seats.map place).length := by simpa using hi
  have hj : j < (seats.map place).length := by simpa using hj
  have places : (seats.map place)[i] = (seats.map place)[j] := by simpa using same
  exact distinct.getElem_inj_iff.1 places

/-- Moving each seat keeps seats legal if different places stay different. -/
theorem Legal.map (legal : Legal count twists seats) {move : Seat → Seat}
    (kept : ∀ seat, seat.InRange count twists → (move seat).InRange count twists)
    (apart : ∀ seat other, seat.InRange count twists → other.InRange count twists →
      (move seat).place = (move other).place → seat.place = other.place) :
    Legal count twists (seats.map move) := by
  obtain ⟨length, distinct, range⟩ := legal_iff.1 legal
  refine legal_iff.2 ⟨by rw [List.length_map, length], ?_, ?_⟩
  · rw [List.map_map, List.Nodup, List.pairwise_map]
    rw [List.Nodup, List.pairwise_map] at distinct
    refine distinct.imp_of_mem fun {seat other} hseat hother differ same => ?_
    exact differ (apart seat other (range seat hseat) (range other hother) same)
  · intro seat member
    obtain ⟨before, hbefore, rfl⟩ := List.mem_map.1 member
    exact kept before (range before hbefore)

end Seat

/-! ### Assigning seats -/

namespace Cube

/-- Cubes are the same if all their pieces are. -/
theorem ext_seats {cube other : Cube} (size : cube.size = other.size)
    (same : ∀ kind ≠ .center, cube.seats kind = other.seats kind) : cube = other := by
  obtain ⟨n, corners, edges, sides⟩ := cube
  obtain ⟨m, corners', edges', sides'⟩ := other
  obtain rfl : n = m := size
  obtain rfl : corners = corners' := same .corner (by decide)
  obtain rfl : edges = edges' := same .edge (by decide)
  obtain rfl : sides = sides' := same .side (by decide)
  rfl

theorem assign_eq_ok_iff {cube after : Cube} {kind : PieceKind} {places twists : List Nat} :
    cube.assign kind places twists = .ok after ↔
      (IsPermutation (cube.size.count kind) places ∧ twists.length = cube.size.count kind ∧
        ∀ twist ∈ twists, twist < kind.twists) ∧
      after = cube.withSeats kind (List.zipWith Seat.mk places twists) := by
  unfold assign
  dsimp only
  split
  · rename_i long
    exact iff_of_false nofun fun h => long h.1.1.1
  · split
    · rename_i long
      exact iff_of_false nofun fun h => long h.1.2.1
    · rename_i length
      split
      · rename_i twice
        exact iff_of_false nofun fun h => twice h.1.1
      · rename_i distinct
        split
        · rename_i twist out
          refine iff_of_false nofun fun h => ?_
          have less := h.1.2.2 twist (List.mem_of_find?_eq_some out)
          have more := List.find?_some out
          simp only [decide_eq_true_eq] at more
          omega
        · rename_i inside
          have range : ∀ twist ∈ twists, twist < kind.twists := by
            simpa using List.find?_eq_none.1 inside
          rw [Except.ok.injEq, eq_comm (b := after)]
          exact ⟨fun same => ⟨⟨not_not.1 distinct, not_not.1 length, range⟩, same⟩, fun h => h.2⟩

/-- Legal seats pass the check. -/
theorem assign_of_legal {cube : Cube} {kind : PieceKind} {seats : List Seat}
    (legal : Seat.Legal (cube.size.count kind) kind.twists seats) :
    cube.assign kind (seats.map Seat.place) (seats.map Seat.twist) =
      .ok (cube.withSeats kind seats) := by
  obtain ⟨length, _, _⟩ := Seat.legal_iff.1 legal
  have back : List.zipWith Seat.mk (seats.map Seat.place) (seats.map Seat.twist) = seats := by
    rw [List.zipWith_map, List.zipWith_self]
    exact List.map_id seats
  rw [assign_eq_ok_iff, back, List.length_map, List.forall_mem_map]
  exact ⟨⟨perm_range_iff.1 legal.1, length, legal.2⟩, rfl⟩

/-- Legal seats keep a cube valid. The center keeps its seat in any case. -/
theorem valid_withSeats {cube : Cube} (valid : cube.Valid) {kind : PieceKind} {seats : List Seat}
    (legal : Seat.Legal (cube.size.count kind) kind.twists seats) :
    (cube.withSeats kind seats).Valid := by
  intro other
  rw [size_withSeats]
  by_cases visible : kind = .center
  · simpa [withSeats, visible] using valid other
  · by_cases here : other = kind
    · rw [here, seats_withSeats_self _ _ visible]
      exact legal
    · rw [seats_withSeats_of_ne _ _ here]
      exact valid other

end Cube

end CubeScript
