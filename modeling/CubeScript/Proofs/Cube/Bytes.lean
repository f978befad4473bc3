import CubeScript.Proofs.Cube.Carrying

/-!
# Cycles whose items name no face

The face an item is entered from is a byte, and a cycle takes any byte there. Whether it is the
number of a face is not looked at. The twist of a piece is summed up in bytes as well, and of the two
items between which it moves only the one that it leaves is reduced first. So the sum goes past a
byte if the item that it enters has a number close to the largest one, and then the cycle stops
without an answer.

Unless it does, the cycle is undone by its inverse. But the inverse may stop where the cycle did not,
as it enters the items that the cycle leaves. `Cycle.undone_of_make` says for each cube which of
them stops, and that none does on any cube of a size exactly if neighbouring items are `Cycle.Safe`.
-/

namespace CubeScript

namespace Cycle

/-! ### Sums of bytes -/

/-- All that is computed for the twist of this piece, with the extra twist where there is one. -/
def byteResults (kind : PieceKind) (extra twist : Nat) (source target : Item) : List Nat :=
  [twist % kind.twists + kind.twists,
    twist % kind.twists + kind.twists - source.orientation.toNat % kind.twists,
    twistSum kind twist source target,
    twistAfter kind twist source target + extra]

/-- Whether nothing that a cycle computes on a cube goes past a byte. -/
def StaysInBytes (c : Cycle) (cube : Cube) : Prop :=
  ∀ step ∈ c.steps, ∀ seat ∈ cube.seats c.kind, seat.place = step.1.place →
    ∀ result ∈ byteResults c.kind (c.sign.twist c.kind.twists) seat.twist step.1 step.2,
      result < 256

instance (c : Cycle) (cube : Cube) : Decidable (c.StaysInBytes cube) :=
  inferInstanceAs (Decidable (∀ step ∈ c.steps, ∀ seat ∈ cube.seats c.kind,
    seat.place = step.1.place → ∀ result ∈
      byteResults c.kind (c.sign.twist c.kind.twists) seat.twist step.1 step.2, result < 256))

/-- Whether a piece with any twist can go from one item to another and back within bytes. -/
def Safe (kind : PieceKind) (source target : Item) : Prop :=
  2 * kind.twists - 1 - source.orientation.toNat % kind.twists + target.orientation.toNat < 256 ∧
    2 * kind.twists - 1 - target.orientation.toNat % kind.twists + source.orientation.toNat < 256

instance (kind : PieceKind) (source target : Item) : Decidable (Safe kind source target) :=
  inferInstanceAs (Decidable (_ ∧ _))

theorem Sign.twist_lt (sign : Sign) (kind : PieceKind) : sign.twist kind.twists < kind.twists := by
  cases sign with
  | none => exact kind.twists_pos
  | plus | minus | plusPlus => exact Nat.mod_lt _ kind.twists_pos

/-- Only the last byte that is added can be too much. -/
theorem forall_byteResults_iff {kind : PieceKind} {sign : Sign} {twist : Nat}
    {source target : Item} :
    (∀ result ∈ byteResults kind (sign.twist kind.twists) twist source target, result < 256) ↔
      twistSum kind twist source target < 256 := by
  have small := twists_le kind
  have reduced : twist % kind.twists < kind.twists := Nat.mod_lt _ kind.twists_pos
  have twisted := twistAfter_lt kind twist source target
  have extra := sign.twist_lt kind
  simp only [byteResults, List.forall_mem_cons, List.not_mem_nil, false_implies, implies_true,
    and_true]
  constructor
  · exact fun all => all.2.2.1
  · intro sum
    refine ⟨?_, ?_, sum, ?_⟩ <;> omega

theorem staysInBytes_iff {c : Cycle} {cube : Cube} :
    c.StaysInBytes cube ↔ SumsFit cube c.kind c.steps := by
  simp only [StaysInBytes, SumsFit, forall_byteResults_iff]

/-! ### There and back -/

/-- The steps of the inverse are those of the cycle backwards. -/
theorem mem_steps_inverse_iff {c : Cycle} {source target : Item} :
    (target, source) ∈ c.inverse.steps ↔ (source, target) ∈ c.steps := by
  constructor
  · intro step
    obtain ⟨_, _, forwards, _⟩ := exists_enter step
    rwa [inverse_inverse] at forwards
  · intro step
    obtain ⟨_, _, backwards, _⟩ := exists_enter step
    exact backwards

/-- What is computed on the way back concerns the same pieces, with the twists they have by then. -/
theorem staysInBytes_inverse_iff {c : Cycle} {cube : Cube} (valid : cube.Valid)
    (inside : ∀ item ∈ c.items, item.place < cube.size.count c.kind) :
    c.inverse.StaysInBytes (c.moved cube) ↔
      ∀ step ∈ c.steps, ∀ seat ∈ cube.seats c.kind, seat.place = step.1.place →
        twistSum c.kind (c.move seat).twist step.2 step.1 < 256 := by
  have seats : (c.moved cube).seats c.inverse.kind = (cube.seats c.kind).map c.move :=
    seats_moved inside
  rw [staysInBytes_iff, SumsFit, seats]
  constructor
  · rintro fits ⟨source, target⟩ step seat member start
    obtain ⟨_, _, backwards, _, goes, _⟩ := exists_enter step
    exact fits _ backwards _ (List.mem_map_of_mem member) (congrArg Seat.place (goes _ start))
  · rintro fits ⟨target, source⟩ backwards _ moved there
    obtain ⟨seat, member, rfl⟩ := List.mem_map.1 moved
    have step := mem_steps_inverse_iff.1 backwards
    have start : seat.place = source.place := by
      obtain ⟨_, _, _, _, _, returns⟩ := exists_enter step
      rw [← move_inverse ((valid c.kind).inRange member).2, returns _ there]
      rfl
    exact fits _ step seat member start

/-- A cycle that has been applied is undone by its inverse, unless this stops. -/
theorem apply_inverse_of_inside {c : Cycle} {cube : Cube} (valid : cube.Valid)
    (inside : ∀ item ∈ c.items, item.place < cube.size.count c.kind) :
    (c.inverse.StaysInBytes (c.moved cube) → c.inverse.apply (c.moved cube) = .ok cube) ∧
      (¬ c.inverse.StaysInBytes (c.moved cube) →
        c.inverse.apply (c.moved cube) = .error .byteOverflow) := by
  rw [staysInBytes_iff]
  have back : ∀ item ∈ c.inverse.items, item.place < (c.moved cube).size.count c.inverse.kind := by
    rw [size_moved]
    exact inside_inverse inside
  have returns := apply_of_inside (valid_moved valid inside) back
  rwa [moved_inverse inside valid] at returns

/-! ### All cubes of a size -/

/-- There is a cube whose pieces of one kind all have the same twist. -/
theorem exists_uniform (size : Size) {kind : PieceKind} {twist : Nat}
    (small : twist < kind.twists) : ∃ cube : Cube, cube.Valid ∧ cube.size = size ∧
      ∀ place < size.count kind, ⟨place, twist⟩ ∈ cube.seats kind := by
  have legal : Seat.Legal (size.count kind) kind.twists
      ((List.range (size.count kind)).map fun place => ⟨place, twist⟩) := by
    constructor
    · rw [List.map_map]
      exact List.Perm.of_eq (List.map_id _)
    · intro seat member
      obtain ⟨place, _, rfl⟩ := List.mem_map.1 member
      exact small
  refine ⟨(Cube.solved size).withSeats kind _, Cube.valid_withSeats (Cube.valid_solved size) legal,
    Cube.size_withSeats .., fun place inside => ?_⟩
  by_cases visible : kind = .center
  · subst visible
    rw [Nat.lt_one_iff.1 inside, Nat.lt_one_iff.1 small]
    exact List.mem_singleton_self _
  · rw [Cube.seats_withSeats_self _ _ visible]
    exact List.mem_map_of_mem (List.mem_range.2 inside)

/-- Any twist can be what a piece has after a step. -/
theorem exists_twist_enter (kind : PieceKind) (extra : Nat) (source target : Item) {twist : Nat}
    (small : twist < kind.twists) : ∃ before < kind.twists, ∀ place,
      (enter kind extra source target ⟨place, before⟩).twist = twist := by
  -- To take something off a twist is to add it one time less than there are twists.
  let before := twist + source.orientation.toNat +
    (kind.twists - 1) * (target.orientation.toNat + extra)
  refine ⟨before % kind.twists, Nat.mod_lt _ kind.twists_pos, fun _ => ?_⟩
  simp only [enter, twistAfter, twistSum]
  rw [Nat.mod_mod, Nat.mod_add_mod, Nat.add_assoc]
  subst before
  generalize target.orientation.toNat + extra = added
  cases kind <;> simp only [PieceKind.twists] at * <;> omega

theorem twistSum_lt_of_safe {kind : PieceKind} {source target : Item}
    (safe : Safe kind source target) (twist : Nat) :
    twistSum kind twist source target < 256 ∧ twistSum kind twist target source < 256 := by
  obtain ⟨there, back⟩ := safe
  have reduced : twist % kind.twists < kind.twists := Nat.mod_lt _ kind.twists_pos
  have leaves : source.orientation.toNat % kind.twists < kind.twists := Nat.mod_lt _ kind.twists_pos
  have enters : target.orientation.toNat % kind.twists < kind.twists := Nat.mod_lt _ kind.twists_pos
  unfold twistSum
  constructor <;> omega

/-- The twist for which a sum is largest is the last one. -/
theorem twistSum_last {kind : PieceKind} {source target : Item} :
    twistSum kind (kind.twists - 1) source target =
      2 * kind.twists - 1 - source.orientation.toNat % kind.twists + target.orientation.toNat := by
  have some := kind.twists_pos
  unfold twistSum
  rw [Nat.mod_eq_of_lt (Nat.sub_one_lt_of_lt some)]
  omega

/-- If nothing goes past a byte on any cube of a size, then neighbouring items are safe: some cube
has the piece with the last twist in the one place, and some has it so after the step. -/
theorem safe_of_staysInBytes {c : Cycle} {size : Size}
    (inside : ∀ item ∈ c.items, item.place < size.count c.kind)
    (fits : ∀ cube : Cube, cube.Valid → cube.size = size →
      c.StaysInBytes cube ∧ c.inverse.StaysInBytes (c.moved cube)) {source target : Item}
    (step : (source, target) ∈ c.steps) : Safe c.kind source target := by
  have placed := inside source (items_of_mem_steps step).1
  have sums : ∀ twist < c.kind.twists, twistSum c.kind twist source target < 256 := by
    intro twist small
    obtain ⟨cube, valid, same, seated⟩ := exists_uniform size small
    exact staysInBytes_iff.1 (fits cube valid same).1 _ step _ (seated _ placed) rfl
  have last : c.kind.twists - 1 < c.kind.twists := Nat.sub_one_lt_of_lt c.kind.twists_pos
  constructor
  · rw [← twistSum_last]
    exact sums _ last
  · obtain ⟨there, _, _, _, goes, _⟩ := exists_enter step
    obtain ⟨twist, small, becomes⟩ := exists_twist_enter c.kind there source target last
    obtain ⟨cube, valid, same, seated⟩ := exists_uniform size small
    have insideToo : ∀ item ∈ c.items, item.place < cube.size.count c.kind := same ▸ inside
    have sum := (staysInBytes_inverse_iff valid insideToo).1 (fits cube valid same).2 _ step _
      (seated _ placed) rfl
    rw [goes _ rfl, becomes, twistSum_last] at sum
    exact sum

/-- A cycle that can be made is applied to a cube that has its places exactly if nothing that it
computes goes past a byte. Its inverse then restores the cube exactly if the same holds of what the
inverse computes. Otherwise the one or the other stops. None of the two ever stops, whatever the
cube, exactly if neighbouring items are safe. -/
theorem undone_of_make {items : List Item} {sign : Sign} {c : Cycle}
    (made : make items sign = .ok c) {size : Size}
    (inside : ∀ item ∈ items, item.place < size.count c.kind) :
    (∀ cube : Cube, cube.Valid → cube.size = size →
      (¬ c.StaysInBytes cube → c.apply cube = .error .byteOverflow) ∧
      (c.StaysInBytes cube → ∃ after, c.apply cube = .ok after ∧ after.Valid ∧
        (c.inverse.StaysInBytes after → c.inverse.apply after = .ok cube) ∧
        (¬ c.inverse.StaysInBytes after → c.inverse.apply after = .error .byteOverflow))) ∧
    ((∀ cube : Cube, cube.Valid → cube.size = size → ∃ after, c.apply cube = .ok after ∧
      c.inverse.apply after = .ok cube ∧ c.StaysInBytes cube ∧ c.inverse.StaysInBytes after) ↔
        ∀ step ∈ c.steps, Safe c.kind step.1 step.2) := by
  obtain ⟨rfl, _⟩ := items_of_make made
  have goes (cube : Cube) (valid : cube.Valid) (same : cube.size = size) :
      (c.StaysInBytes cube → c.apply cube = .ok (c.moved cube)) ∧
        (¬ c.StaysInBytes cube → c.apply cube = .error .byteOverflow) := by
    rw [staysInBytes_iff]
    exact apply_of_inside valid (same ▸ inside)
  have returns (cube : Cube) (valid : cube.Valid) (same : cube.size = size) :=
    apply_inverse_of_inside valid (same ▸ inside)
  refine ⟨?_, ?_, ?_⟩
  · intro cube valid same
    obtain ⟨there, stops⟩ := goes cube valid same
    exact ⟨stops, fun fits => ⟨_, there fits, valid_moved valid (same ▸ inside),
      returns cube valid same⟩⟩
  · intro undone step member
    apply safe_of_staysInBytes inside _ member
    intro cube valid same
    obtain ⟨after, there, _, fits, fitsBack⟩ := undone cube valid same
    obtain rfl : c.moved cube = after :=
      Except.ok.inj (((goes cube valid same).1 fits).symm.trans there)
    exact ⟨fits, fitsBack⟩
  · intro safe cube valid same
    have sums (step) (member : step ∈ c.steps) := twistSum_lt_of_safe (safe step member)
    have fits : c.StaysInBytes cube :=
      staysInBytes_iff.2 fun step member seat _ _ => (sums step member seat.twist).1
    have fitsBack : c.inverse.StaysInBytes (c.moved cube) :=
      (staysInBytes_inverse_iff valid (same ▸ inside)).2 fun step member seat _ _ =>
        (sums step member (c.move seat).twist).2
    exact ⟨_, (goes cube valid same).1 fits, (returns cube valid same).1 fitsBack, fits, fitsBack⟩

/-- Two corners, the second of which is entered from a face with a number that is too large. -/
def overflowing : Cycle where
  kind := .corner
  items := [⟨.corner, 0, 0, "urf"⟩, ⟨.corner, 1, 255, "dfr"⟩]
  sign := .none
  items_ne_nil := by decide
  kind_eq := by decide
  nodup_places := by decide
  legal_sign := Sign.legal?_undoing .corner .none

/-- Corners with numbers that are just small enough. -/
def fitting : Cycle where
  kind := .corner
  items := [⟨.corner, 0, 250, "urf"⟩, ⟨.corner, 1, 249, "dfr"⟩, ⟨.corner, 2, 7, "ufl"⟩]
  sign := .plus
  items_ne_nil := by decide
  kind_eq := by decide
  nodup_places := by decide
  legal_sign := Sign.legal?_undoing .corner .minus

theorem undone_of_make_corners :
    let size : Size := ⟨3, by decide, by decide⟩
    (make overflowing.items .none = .ok overflowing ∧
      (∀ item ∈ overflowing.items, item.place < size.count .corner) ∧
      overflowing.apply (.solved size) = .error .byteOverflow) ∧
    make fitting.items .plus = .ok fitting ∧
      (∀ item ∈ fitting.items, item.place < size.count .corner) ∧
      ∀ cube : Cube, cube.Valid → cube.size = size → ∃ after, fitting.apply cube = .ok after ∧
        fitting.inverse.apply after = .ok cube ∧ fitting.StaysInBytes cube ∧
          fitting.inverse.StaysInBytes after := by
  intro size
  have made : make overflowing.items .none = .ok overflowing := make_items _ rfl
  have inside : ∀ item ∈ overflowing.items, item.place < size.count .corner := by decide
  have large : ¬ overflowing.StaysInBytes (.solved size) := by decide
  have stops := ((undone_of_make made inside).1 _ (Cube.valid_solved size) rfl).1 large
  have madeToo : make fitting.items .plus = .ok fitting := make_items _ rfl
  have insideToo : ∀ item ∈ fitting.items, item.place < size.count .corner := by decide
  refine ⟨⟨made, inside, stops⟩, madeToo, insideToo, ?_⟩
  rw [(undone_of_make madeToo insideToo).2]
  decide

/-- The two corners never arrive: what is summed up for the first of them is 258, which is no number
of a byte. -/
theorem exists_apply_eq_overflow :
    let cube := Cube.solved ⟨3, by decide, by decide⟩
    make overflowing.items .none = .ok overflowing ∧ cube.Valid ∧
      (∀ item ∈ overflowing.items, item.place < cube.size.count .corner) ∧
      ¬ overflowing.StaysInBytes cube ∧ overflowing.apply cube = .error .byteOverflow ∧
      ¬ ∃ after, overflowing.apply cube = .ok after ∧
        overflowing.inverse.apply after = .ok cube := by
  intro cube
  have valid : cube.Valid := Cube.valid_solved _
  have inside : ∀ item ∈ overflowing.items, item.place < cube.size.count .corner := by decide
  have large : ¬ overflowing.StaysInBytes cube := by decide
  have stops := (apply_of_inside valid inside).2 (mt staysInBytes_iff.2 large)
  refine ⟨make_items _ rfl, valid, inside, large, stops, ?_⟩
  rintro ⟨after, done, _⟩
  cases stops.symm.trans done

end Cycle

end CubeScript
