import CubeScript.Proofs.Cube.Carrying
import CubeScript.Proofs.Script.Fitting
import Mathlib.Data.Int.ModEq

/-!
# The order of a cycle

A piece that starts in the place of one item of a cycle is `k` items further on after `k` rounds,
counted around. The turns between the faces of the items that it has passed add up to the turn from
the first to the last of them, and the sign has been added each time it passed from the last item to
the first (`Cycle.iterate_move`).

After as many rounds as there are items each piece is back in its place, twisted once by the sign.
So the rounds that restore a cube are those that bring the pieces back so often that the twists of
the sign add up to whole turns. This is the same for every cube that has the places.
-/

namespace CubeScript

namespace Cycle

/-- One more round leads to the next item, and from the last one past the end. -/
theorem succ_div_mod {length : Nat} (positive : 0 < length) (n : Nat) :
    (n + 1) % length = (n % length + 1) % length ∧
      (n + 1) / length = n / length + if n % length + 1 = length then 1 else 0 := by
  have inside : n % length < length := Nat.mod_lt n positive
  refine ⟨(Nat.mod_add_mod ..).symm, ?_⟩
  rw [Nat.succ_div]
  congr 1
  have divides : length ∣ n + 1 ↔ n % length + 1 = length := by
    rw [Nat.dvd_iff_mod_eq_zero, ← Nat.mod_add_mod]
    constructor
    · intro full
      by_contra short
      rw [Nat.mod_eq_of_lt (by omega)] at full
      cases full
    · intro full
      rw [full, Nat.mod_self]
  simp only [divides]

theorem length_items_pos (c : Cycle) : 0 < c.items.length :=
  List.length_pos_of_ne_nil c.items_ne_nil

theorem exists_item (c : Cycle) (n : Nat) : ∃ item, c.items[n % c.items.length]? = some item :=
  ⟨_, List.getElem?_eq_getElem (Nat.mod_lt n c.length_items_pos)⟩

section

variable {c : Cycle} (oriented : c.Oriented)

include oriented

/-- Where a piece is after some rounds, and how it is twisted there. The induction is on the rounds;
the piece makes each further one from the item that it has come to. -/
theorem iterate_move {i k : Nat} {source target : Item} {seat : Seat}
    (here : c.items[i]? = some source) (there : c.items[(i + k) % c.items.length]? = some target)
    (start : seat.place = source.place) :
    (c.move^[k] seat).place = target.place ∧
      ((c.move^[k] seat).twist : Int) ≡ seat.twist +
        ((target.orientation.toNat : Int) - source.orientation.toNat) +
        ((i + k) / c.items.length * c.sign.twist c.kind.twists : Nat) [ZMOD c.kind.twists] := by
  induction k generalizing target with
  | zero =>
    have inside : i < c.items.length := (List.getElem?_eq_some_iff.1 here).1
    rw [Nat.add_zero, Nat.mod_eq_of_lt inside, here] at there
    cases there
    refine ⟨start, ?_⟩
    simp [Nat.div_eq_of_lt inside]
  | succ k ih =>
    obtain ⟨middle, between⟩ := c.exists_item (i + k)
    obtain ⟨place, twist⟩ := ih between
    obtain ⟨next, rounds⟩ := succ_div_mod c.length_items_pos (i + k)
    rw [← Nat.add_assoc, next] at there
    have leaves := oriented middle (List.mem_of_getElem? between)
    rw [Function.iterate_succ_apply', move_of_getElem? between there place]
    refine ⟨rfl, ?_⟩
    rw [twist_enter leaves, ← Nat.add_assoc, rounds, Nat.add_mul, ite_mul, one_mul,
      zero_mul, Nat.cast_add]
    generalize (if (i + k) % c.items.length + 1 = c.items.length then
      c.sign.twist c.kind.twists else 0) = closing
    generalize (i + k) / c.items.length * c.sign.twist c.kind.twists = passed at twist ⊢
    calc (((c.move^[k] seat).twist +
          ((target.orientation.toNat : Int) - middle.orientation.toNat) + closing) %
            c.kind.twists : Int)
        ≡ (c.move^[k] seat).twist +
          ((target.orientation.toNat : Int) - middle.orientation.toNat) + closing
          [ZMOD c.kind.twists] := Int.mod_modEq ..
      _ ≡ seat.twist + ((middle.orientation.toNat : Int) - source.orientation.toNat) + passed +
          ((target.orientation.toNat : Int) - middle.orientation.toNat) + closing
          [ZMOD c.kind.twists] := (twist.add_right _).add_right _
      _ = seat.twist + ((target.orientation.toNat : Int) - source.orientation.toNat) +
          (passed + closing) := by omega

end

theorem inRange_iterate_move {c : Cycle} {count : Nat}
    (inside : ∀ item ∈ c.items, item.place < count) {seat : Seat}
    (present : seat.InRange count c.kind.twists) (k : Nat) :
    (c.move^[k] seat).InRange count c.kind.twists := by
  induction k with
  | zero => exact present
  | succ k ih =>
    rw [Function.iterate_succ_apply']
    exact inRange_move inside ih

/-- From an item back to itself: only all the way around, as no place comes twice. -/
theorem place_eq_iff_dvd {c : Cycle} {i k : Nat} {source target : Item}
    (here : c.items[i]? = some source) (there : c.items[(i + k) % c.items.length]? = some target) :
    target.place = source.place ↔ c.items.length ∣ k := by
  have inside : i < c.items.length := (List.getElem?_eq_some_iff.1 here).1
  have bound : (i + k) % c.items.length < (c.items.map Item.place).length := by
    rw [List.length_map]
    exact Nat.mod_lt _ c.length_items_pos
  have places : (c.items.map Item.place)[(i + k) % c.items.length]? =
      (c.items.map Item.place)[i]? ↔ target.place = source.place := by
    rw [List.getElem?_map, List.getElem?_map, here, there, Option.map_some, Option.map_some,
      Option.some.injEq]
  rw [← places, List.getElem?_inj bound c.nodup_places, ← Nat.add_modEq_left_iff (a := i),
    Nat.ModEq, Nat.mod_eq_of_lt inside]

/-- A piece in a place of the cycle is back if it has gone all around, and the signs that it has met
then add up to whole turns. -/
theorem iterate_move_eq_self_iff {c : Cycle} (oriented : c.Oriented) {count : Nat}
    (inside : ∀ item ∈ c.items, item.place < count) {seat : Seat}
    (present : seat.InRange count c.kind.twists) (member : seat.place ∈ c.items.map Item.place)
    (k : Nat) : c.move^[k] seat = seat ↔
      c.items.length ∣ k ∧ c.kind.twists ∣ k / c.items.length * c.sign.twist c.kind.twists := by
  obtain ⟨source, listed, start⟩ := List.mem_map.1 member
  obtain ⟨i, here⟩ := List.mem_iff_getElem?.1 listed
  have first : i < c.items.length := (List.getElem?_eq_some_iff.1 here).1
  obtain ⟨target, there⟩ := c.exists_item (i + k)
  obtain ⟨place, twist⟩ := iterate_move oriented here there start.symm
  have range := (inRange_iterate_move inside present k).2
  have around : (c.move^[k] seat).place = seat.place ↔ c.items.length ∣ k := by
    rw [place, ← start, place_eq_iff_dvd here there]
  -- Once around, the turns between the faces cancel and only the signs are left.
  have whole (full : c.items.length ∣ k) : (c.move^[k] seat).twist = seat.twist ↔
      c.kind.twists ∣ k / c.items.length * c.sign.twist c.kind.twists := by
    have same : target = source :=
      List.inj_on_of_nodup_map c.nodup_places (List.mem_of_getElem? there) listed
        ((place_eq_iff_dvd here there).2 full)
    rw [same, sub_self, add_zero, Nat.add_div_of_dvd_left full, Nat.div_eq_of_lt first,
      Nat.zero_add, ← Nat.cast_add, Int.natCast_modEq_iff] at twist
    rw [← Nat.add_modEq_left_iff (a := seat.twist)]
    constructor
    · intro same
      rw [same] at twist
      exact twist.symm
    · exact fun even => (twist.trans even).eq_of_lt_of_lt range present.2
  constructor
  · intro same
    have full := around.1 (congrArg Seat.place same)
    exact ⟨full, (whole full).1 (congrArg Seat.twist same)⟩
  · rintro ⟨full, even⟩
    calc c.move^[k] seat = ⟨(c.move^[k] seat).place, (c.move^[k] seat).twist⟩ := rfl
      _ = seat := by rw [around.2 full, (whole full).2 even]

/-! ### Whole cubes -/

/-- The cube after some rounds of a cycle. -/
theorem applyAll_replicate {c : Cycle} (oriented : c.Oriented) {cube : Cube} (valid : cube.Valid)
    (inside : ∀ item ∈ c.items, item.place < cube.size.count c.kind) (k : Nat) :
    ∃ after, cube.applyAll (List.replicate k (.cycle c)) = (after, none) ∧
      after.size = cube.size ∧ after.seats c.kind = (cube.seats c.kind).map c.move^[k] ∧
      ∀ kind ≠ c.kind, after.seats kind = cube.seats kind := by
  induction k generalizing cube with
  | zero => exact ⟨cube, rfl, rfl, (List.map_id _).symm, fun _ _ => rfl⟩
  | succ k ih =>
    have insideNext : ∀ item ∈ c.items, item.place < (c.moved cube).size.count c.kind := by
      rwa [size_moved]
    have done : (Op.cycle c).apply cube = .ok (c.moved cube) :=
      (oriented.apply_eq_ok_iff valid).2 ⟨inside, rfl⟩
    obtain ⟨after, rest, size, seats, others⟩ := ih (valid_moved valid inside) insideNext
    refine ⟨after, Cube.applyAll_cons_eq_iff.2 ⟨_, done, rest⟩, size.trans (size_moved ..), ?_, ?_⟩
    · rw [seats, seats_moved inside, List.map_map, Function.iterate_succ]
    · intro kind other
      rw [others kind other, seats_moved_of_ne cube other]

/-- A cube is restored if the pieces in the places of the cycle are, all of which are restored by
the same rounds. -/
theorem forall_iterate_move_iff {c : Cycle} (oriented : c.Oriented) {cube : Cube}
    (valid : cube.Valid) (inside : ∀ item ∈ c.items, item.place < cube.size.count c.kind)
    (k : Nat) : (∀ seat ∈ cube.seats c.kind, c.move^[k] seat = seat) ↔
      c.items.length ∣ k ∧ c.kind.twists ∣ k / c.items.length * c.sign.twist c.kind.twists := by
  constructor
  · intro restored
    have first := List.head_mem c.items_ne_nil
    obtain ⟨seat, member, start⟩ := (valid c.kind).exists_mem (inside _ first)
    exact (iterate_move_eq_self_iff oriented inside ((valid c.kind).inRange member)
      (start ▸ List.mem_map_of_mem first) k).1 (restored seat member)
  · intro rounds seat member
    by_cases involved : seat.place ∈ c.items.map Item.place
    · exact (iterate_move_eq_self_iff oriented inside ((valid c.kind).inRange member) involved k).2
        rounds
    · exact Function.iterate_fixed (move_of_notMem involved) k

/-- A cycle can be repeated any number of times on a valid cube that has its places. This restores
the cube exactly if every piece has gone around a whole number of times and the twists of the sign,
one for each of these, add up to whole turns. -/
theorem restored_iff_of_make {items : List Item} {sign : Sign} {c : Cycle}
    (made : make items sign = .ok c)
    (oriented : ∀ item ∈ items, item.orientation.toNat < c.kind.twists) {cube : Cube}
    (valid : cube.Valid) (inside : ∀ item ∈ items, item.place < cube.size.count c.kind) (k : Nat) :
    ∃ after, cube.applyAll (List.replicate k (.cycle c)) = (after, none) ∧
      (after = cube ↔ items.length ∣ k ∧
        k / items.length * c.sign.twist c.kind.twists % c.kind.twists = 0) := by
  obtain ⟨rfl, _⟩ := items_of_make made
  obtain ⟨after, done, size, seats, others⟩ := applyAll_replicate oriented valid inside k
  refine ⟨after, done, ?_⟩
  rw [← Nat.dvd_iff_mod_eq_zero, ← forall_iterate_move_iff oriented valid inside k]
  constructor
  · rintro rfl
    exact List.map_inj_left.1 (seats.symm.trans (List.map_id _).symm)
  · intro restored
    apply Cube.ext_seats size
    intro kind _
    by_cases here : kind = c.kind
    · rw [here, seats]
      exact (List.map_congr_left restored).trans (List.map_id _)
    · exact others kind here

/-- Three sides that are entered from different directions and spun by half a turn each time
round. -/
def spunSides : Cycle where
  kind := .side
  items := [⟨.side, 2, 3, "f"⟩, ⟨.side, 0, 0, "r"⟩, ⟨.side, 4, 1, "d"⟩]
  sign := .plusPlus
  items_ne_nil := by decide
  kind_eq := by decide
  nodup_places := by decide
  legal_sign := rfl

/-- Once around, the sides are back but for half a turn each. Twice around, the cube is restored. -/
theorem restored_iff_of_make_spunSides :
    let cube := (Cube.solved ⟨3, by decide, by decide⟩).twistBy .x 2#32 1
    make spunSides.items .plusPlus = .ok spunSides ∧
      (∀ item ∈ spunSides.items, item.orientation.toNat < 4) ∧ cube.Valid ∧
      (∀ item ∈ spunSides.items, item.place < cube.size.count .side) ∧
      (∃ after, cube.applyAll (List.replicate 3 (.cycle spunSides)) = (after, none) ∧
        after ≠ cube) ∧
      cube.applyAll (List.replicate 6 (.cycle spunSides)) = (cube, none) := by
  intro cube
  have made : make spunSides.items .plusPlus = .ok spunSides := make_items _ rfl
  have oriented : ∀ item ∈ spunSides.items, item.orientation.toNat < 4 := by decide
  have valid : cube.Valid := Cube.valid_twistBy (Cube.valid_solved _) .x 2#32 1
  have inside : ∀ item ∈ spunSides.items, item.place < cube.size.count .side := by decide
  obtain ⟨once, around, restored⟩ := restored_iff_of_make made oriented valid inside 3
  obtain ⟨twice, aroundAgain, restoredToo⟩ := restored_iff_of_make made oriented valid inside 6
  obtain rfl : twice = cube := restoredToo.2 (by decide)
  exact ⟨made, oriented, valid, inside, ⟨once, around, mt restored.1 (by decide)⟩, aroundAgain⟩

end Cycle

end CubeScript
