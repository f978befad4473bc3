import CubeScript.Proofs.Cube.Orbits
import CubeScript.Proofs.Script.Moving

/-!
# Dissecting a turn into cycles

A quarter turn of some layers moves every piece there from one place of its orbit to the next, so it
is what cycles through the orbits do one after the other. A cycle is entered at each of its places
with the twist that the turn has given by then to a piece that was not twisted at the first of them
(`Cycle.itemAt`). After four turns there is none left, so the cycle closes without a sign. A side
that the turn only spins has a cycle of its own, with a sign (`Cycle.spinSign`).

No piece is in more than one orbit, so the order of the cycles makes no difference, and neither does
the place that a cycle begins with.
-/

namespace CubeScript

open Place (SameOrbit Selected Represents)

namespace Cycle

/-- The item of an orbit that a piece comes to after some quarter turns, if it starts untwisted. -/
def itemAt (size : Size) (axis : Axis) (name : PieceKind → Nat → String) (start : PieceKind × Nat)
    (count : Nat) : Item :=
  let seat := Cube.turned size start.1 axis true count ⟨start.2, 0⟩
  ⟨start.1, seat.place, UInt8.ofNat seat.twist, name start.1 seat.place⟩

/-- The sign for a side that is only spun: plus on a positive face and minus on a negative one. -/
def spinSign (size : Size) (start : PieceKind × Nat) : Sign :=
  if (Place.faces size start.1 start.2).any Face.isPositive then .plus else .minus

/-- The cycle that does what a quarter turn does to the pieces in the orbit of a place. -/
def ofOrbit (size : Size) (axis : Axis) (name : PieceKind → Nat → String)
    (start : PieceKind × Nat) : Except Fault Cycle :=
  if Place.turn size start.1 axis true start.2 = start.2 then
    make [itemAt size axis name start 0] (spinSign size start)
  else make ((List.range 4).map (itemAt size axis name start)) .none

/-- Whether a cycle goes through the orbit of a place and moves the pieces there as a quarter turn
does. -/
structure Turns (size : Size) (axis : Axis) (start : PieceKind × Nat) (c : Cycle) : Prop where
  kind : c.kind = start.1
  oriented : c.Oriented
  orbit : ∀ item ∈ c.items, SameOrbit size axis start (c.kind, item.place)
  moves : ∀ seat : Seat, seat.InRange (size.count c.kind) c.kind.twists →
    SameOrbit size axis start (c.kind, seat.place) →
      c.move seat = Cube.quarterTurned size c.kind axis true seat

theorem exists_make {kind : PieceKind} {items : List Item} {sign kept : Sign} (filled : items ≠ [])
    (kinds : ∀ item ∈ items, item.kind = kind) (distinct : (items.map Item.place).Nodup)
    (legal : sign.legal? kind = some kept) :
    ∃ c, make items sign = .ok c ∧ c.kind = kind ∧ c.items = items ∧ c.sign = kept :=
  let c : Cycle := ⟨kind, items, kept, filled, kinds, distinct, Sign.legal?_of_legal? legal⟩
  ⟨c, make_items c legal, rfl, rfl, rfl⟩

/-- Turning back by a twist and forth by what it becomes is what it has been twisted by. -/
theorem add_sub_add_mod {twists before : Nat} (small : before < twists) (twist spin : Nat) :
    (twist + (twists - before) + (before + spin) % twists) % twists = (twist + spin) % twists := by
  calc (twist + (twists - before) + (before + spin) % twists) % twists
      = (twist + (twists - before) + (before + spin)) % twists := Nat.add_mod_mod ..
    _ = (twist + spin + twists) % twists := by congr 1; omega
    _ = (twist + spin) % twists := Nat.add_mod_right ..

section

variable {size : Size} {kind : PieceKind} {place : Nat} (visible : kind ≠ .center)
  (h : place < size.count kind) (axis : Axis) (name : PieceKind → Nat → String)

theorem place_itemAt (count : Nat) : (itemAt size axis name (kind, place) count).place =
    (Place.turn size kind axis true)^[count] place :=
  Cube.place_turned size kind axis true count ⟨place, 0⟩

include visible h

theorem inRange_turned_start (count : Nat) :
    (Cube.turned size kind axis true count ⟨place, 0⟩).InRange (size.count kind) kind.twists :=
  Cube.inRange_turned visible ⟨h, kind.twists_pos⟩ axis true count

theorem orientation_itemAt (count : Nat) :
    (itemAt size axis name (kind, place) count).orientation.toNat =
      (Cube.turned size kind axis true count ⟨place, 0⟩).twist := by
  have twisted := (inRange_turned_start visible h axis count).2
  have byte : kind.twists < UInt8.size := (twists_le kind).trans_lt (by decide)
  exact UInt8.toNat_ofNat_of_lt (twisted.trans byte)

theorem orientation_itemAt_lt (count : Nat) :
    (itemAt size axis name (kind, place) count).orientation.toNat < kind.twists := by
  rw [orientation_itemAt visible h]
  exact (inRange_turned_start visible h axis count).2

theorem itemAt_mod_four (count : Nat) : itemAt size axis name (kind, place) (count % 4) =
    itemAt size axis name (kind, place) count := by
  unfold itemAt
  rw [Cube.turned_mod_four visible axis true count ⟨h, kind.twists_pos⟩]

/-- The step from one item to the next is a quarter turn. -/
theorem enter_itemAt {seat : Seat} (count : Nat)
    (start : seat.place = (itemAt size axis name (kind, place) count).place) :
    enter kind 0 (itemAt size axis name (kind, place) count)
      (itemAt size axis name (kind, place) (count + 1)) seat =
        Cube.quarterTurned size kind axis true seat := by
  have before := (inRange_turned_start visible h axis count).2
  have leaves := orientation_itemAt visible h axis name count
  have enters := orientation_itemAt visible h axis name (count + 1)
  have once : Cube.turned size kind axis true (count + 1) ⟨place, 0⟩ =
      Cube.quarterTurned size kind axis true (Cube.turned size kind axis true count ⟨place, 0⟩) :=
    Cube.turned_add axis true count 1 _
  have goal : (itemAt size axis name (kind, place) (count + 1)).place =
      Place.turn size kind axis true seat.place := by
    rw [start]
    exact congrArg Seat.place once
  have twist : (Cube.turned size kind axis true (count + 1) ⟨place, 0⟩).twist =
      ((Cube.turned size kind axis true count ⟨place, 0⟩).twist +
        Place.twist size kind axis true seat.place) % kind.twists := by
    rw [start]
    exact congrArg Seat.twist once
  rw [enter, Cube.quarterTurned, goal, Nat.add_zero, twistAfter_eq (leaves.trans_lt before),
    Nat.mod_mod, leaves, enters, twist, add_sub_add_mod before]

end

/-! ### The cycle of an orbit -/

theorem legal?_none (kind : PieceKind) : Sign.none.legal? kind = some .none := by
  cases kind <;> rfl

/-- The sign of a side that does not move is the twist that a turn gives it. -/
theorem twist_spinSign {size : Size} {kind : PieceKind} {place : Nat} (visible : kind ≠ .center)
    (h : place < size.count kind) {axis : Axis}
    (still : Place.turn size kind axis true place = place) :
    (spinSign size (kind, place)).legal? kind = some (spinSign size (kind, place)) ∧
      (spinSign size (kind, place)).twist kind.twists = Place.twist size kind axis true place := by
  obtain ⟨rfl, face, shown, rfl⟩ := Place.exists_face_of_turn_eq_self visible h axis true still
  rw [Place.twist_of_faces shown, spinSign, shown]
  cases face <;> exact ⟨rfl, rfl⟩

section

variable {size : Size} {kind : PieceKind} {place : Nat} (visible : kind ≠ .center)
  (h : place < size.count kind) (axis : Axis) (name : PieceKind → Nat → String)

include visible h

/-- Where a place does not move, the sign alone does what the turn does. -/
theorem enter_itemAt_zero (still : Place.turn size kind axis true place = place) {seat : Seat}
    (here : seat.place = place) :
    enter kind ((spinSign size (kind, place)).twist kind.twists)
      (itemAt size axis name (kind, place) 0) (itemAt size axis name (kind, place) 0) seat =
        Cube.quarterTurned size kind axis true seat := by
  obtain ⟨_, spin⟩ := twist_spinSign visible h still
  have untwisted : (itemAt size axis name (kind, place) 0).orientation.toNat = 0 :=
    orientation_itemAt visible h axis name 0
  have entered := orientation_itemAt_lt visible h axis name 0
  have goal : (itemAt size axis name (kind, place) 0).place = place := rfl
  rw [enter, Cube.quarterTurned, here, still, goal, spin, twistAfter_eq entered, untwisted,
    Nat.sub_zero, Nat.add_zero, Nat.add_mod_right, Nat.mod_add_mod]

/-- The items of an orbit are in different places if the first one moves. -/
theorem nodup_places_itemAt (moves : Place.turn size kind axis true place ≠ place) :
    (((List.range 4).map (itemAt size axis name (kind, place))).map Item.place).Nodup := by
  rw [List.map_map]
  refine List.Nodup.map_on ?_ List.nodup_range
  intro count few other fewToo same
  have places : (Place.turn size kind axis true)^[count] place =
      (Place.turn size kind axis true)^[other] place := by
    rw [← place_itemAt axis name, ← place_itemAt axis name]
    exact same
  have period := Place.minimalPeriod_turn visible h axis true moves
  apply Function.iterate_injOn_Iio_minimalPeriod _ _ places
  · rw [period]
    exact List.mem_range.1 few
  · rw [period]
    exact List.mem_range.1 fewToo

end

section

variable {size : Size} {start : PieceKind × Nat} (visible : start.1 ≠ .center)
  (h : start.2 < size.count start.1) (axis : Axis) (name : PieceKind → Nat → String)

include visible h

/-- A side that does not move has a cycle of its own. -/
theorem exists_ofOrbit_of_still (still : Place.turn size start.1 axis true start.2 = start.2) :
    ∃ c, ofOrbit size axis name start = .ok c ∧ Turns size axis start c := by
  obtain ⟨kind, place⟩ := start
  have kinds : ∀ item ∈ [itemAt size axis name (kind, place) 0], item.kind = kind :=
    List.forall_mem_singleton.2 rfl
  obtain ⟨c, made, rfl, items, sign⟩ := exists_make (List.cons_ne_nil _ []) kinds
    (List.nodup_singleton _) (twist_spinSign visible h still).1
  refine ⟨c, (if_pos still).trans made, rfl, ?_, ?_, ?_⟩
  · rw [Oriented, items, List.forall_mem_singleton]
    exact orientation_itemAt_lt visible h axis name 0
  · rw [items, List.forall_mem_singleton]
    exact .refl ..
  · rintro seat inside ⟨_, count, _, reached⟩
    have start : seat.place = place := reached.symm.trans (Function.iterate_fixed still count)
    have once : c.items.length = 0 + 1 := by rw [items]; rfl
    have here : c.items[0]? = some (itemAt size axis name (c.kind, place) 0) := by rw [items]; rfl
    have next : c.items[(0 + 1) % c.items.length]? =
        some (itemAt size axis name (c.kind, place) 0) := by
      rw [once, Nat.mod_self]
      exact here
    rw [move_of_getElem? here next start, if_pos once.symm, sign]
    exact enter_itemAt_zero visible h axis name still start

/-- A place that moves has a cycle through the four places of its orbit. -/
theorem exists_ofOrbit_of_moves (moves : Place.turn size start.1 axis true start.2 ≠ start.2) :
    ∃ c, ofOrbit size axis name start = .ok c ∧ Turns size axis start c := by
  obtain ⟨kind, place⟩ := start
  have kinds : ∀ item ∈ (List.range 4).map (itemAt size axis name (kind, place)),
      item.kind = kind := by
    rw [List.forall_mem_map]
    exact fun _ _ => rfl
  obtain ⟨c, made, rfl, items, sign⟩ := exists_make (by simp) kinds
    (nodup_places_itemAt visible h axis name moves) (legal?_none kind)
  refine ⟨c, (if_neg moves).trans made, rfl, ?_, ?_, ?_⟩
  · rw [Oriented, items, List.forall_mem_map]
    exact fun count _ => orientation_itemAt_lt visible h axis name count
  · rw [items, List.forall_mem_map]
    intro count few
    rw [place_itemAt]
    exact Place.sameOrbit_iterate visible h axis count
  · rintro seat inside ⟨_, count, few, reached⟩
    have length : c.items.length = 4 := by rw [items]; rfl
    have here : c.items[count]? = some (itemAt size axis name (c.kind, place) count) := by
      rw [items, List.getElem?_map, List.getElem?_range few, Option.map_some]
    have next : c.items[(count + 1) % c.items.length]? =
        some (itemAt size axis name (c.kind, place) (count + 1)) := by
      rw [length, items, List.getElem?_map, List.getElem?_range (Nat.mod_lt _ (by decide)),
        Option.map_some, itemAt_mod_four visible h]
    have start : seat.place = (itemAt size axis name (c.kind, place) count).place := by
      rw [place_itemAt]
      exact reached.symm
    rw [move_of_getElem? here next start, sign, Sign.twist, ite_self]
    exact enter_itemAt visible h axis name count start

theorem exists_ofOrbit : ∃ c, ofOrbit size axis name start = .ok c ∧ Turns size axis start c := by
  by_cases still : Place.turn size start.1 axis true start.2 = start.2
  · exact exists_ofOrbit_of_still visible h axis name still
  · exact exists_ofOrbit_of_moves visible h axis name still

end

/-! ### All cycles together -/

/-- A cycle through an orbit turns the pieces there and leaves all others alone. -/
theorem Turns.move_op {size : Size} {axis : Axis} {start : PieceKind × Nat} {c : Cycle}
    (turns : Turns size axis start c) {kind : PieceKind} {seat : Seat}
    (inside : seat.InRange (size.count kind) kind.twists) :
    (Op.cycle c).move size kind seat = if SameOrbit size axis start (kind, seat.place) then
      Cube.quarterTurned size kind axis true seat else seat := by
  rw [Op.move]
  by_cases here : kind = c.kind
  · subst here
    rw [if_pos rfl]
    split
    · rename_i same
      exact turns.moves seat inside same
    · rename_i other
      apply move_of_notMem
      intro member
      obtain ⟨item, listed, place⟩ := List.mem_map.1 member
      exact other (place ▸ turns.orbit item listed)
  · have elsewhere : ¬ SameOrbit size axis start (kind, seat.place) := by
      intro same
      exact here (same.1.symm.trans turns.kind.symm)
    rw [if_neg here, if_neg elsewhere, id_eq]

theorem fits_of_turns {size : Size} {axis : Axis} {mask : LayerMask}
    {starts : List (PieceKind × Nat)} {cycles : List Cycle}
    (turns : List.Forall₂ (Turns size axis) starts cycles)
    (selected : ∀ start ∈ starts, Selected size axis mask start) :
    ∀ op ∈ cycles.map Op.cycle, op.Fits size := by
  induction turns with
  | nil => exact List.forall_mem_nil _
  | cons first _ ih =>
    rw [List.forall_mem_cons] at selected
    obtain ⟨visible, inside, _⟩ := selected.1
    refine List.forall_mem_cons.2 ⟨fun item listed => ?_, ih selected.2⟩
    exact ((first.orbit item listed).lt_count visible inside).2

theorem oriented_of_turns {size : Size} {axis : Axis} {starts : List (PieceKind × Nat)}
    {cycles : List Cycle} (turns : List.Forall₂ (Turns size axis) starts cycles) :
    ∀ op ∈ cycles.map Op.cycle, op.Oriented := by
  induction turns with
  | nil => exact List.forall_mem_nil _
  | cons first _ ih => exact List.forall_mem_cons.2 ⟨first.oriented, ih⟩

/-- Cycles through different orbits turn the pieces that are in one of them, and each only once: in
no orbit but its own is there a place for it to come to. -/
theorem moveAll_of_turns {size : Size} {axis : Axis} {mask : LayerMask}
    {starts : List (PieceKind × Nat)} {cycles : List Cycle}
    (turns : List.Forall₂ (Turns size axis) starts cycles)
    (selected : ∀ start ∈ starts, Selected size axis mask start)
    (apart : starts.Pairwise fun start other => ¬ SameOrbit size axis start other)
    {kind : PieceKind} (visible : kind ≠ .center) {seat : Seat}
    (inside : seat.InRange (size.count kind) kind.twists) :
    Op.moveAll size kind (cycles.map Op.cycle) seat =
      if ∃ start ∈ starts, SameOrbit size axis start (kind, seat.place) then
        Cube.quarterTurned size kind axis true seat else seat := by
  induction turns generalizing seat with
  | nil =>
    rw [if_neg (by simp)]
    rfl
  | @cons start c starts cycles first rest ih =>
    rw [List.forall_mem_cons] at selected
    rw [List.pairwise_cons] at apart
    rw [List.map_cons, Op.moveAll, first.move_op inside]
    by_cases same : SameOrbit size axis start (kind, seat.place)
    · have turned := Cube.inRange_quarterTurned visible inside axis true
      have goes : SameOrbit size axis start
          (kind, (Cube.quarterTurned size kind axis true seat).place) :=
        same.trans selected.1.1 selected.1.2.1 (Place.sameOrbit_iterate visible inside.1 axis 1)
      have alone : ¬ ∃ other ∈ starts, SameOrbit size axis other
          (kind, (Cube.quarterTurned size kind axis true seat).place) := by
        rintro ⟨other, member, sameToo⟩
        obtain ⟨visibleToo, insideToo, _⟩ := selected.2 other member
        exact apart.1 other member (goes.trans selected.1.1 selected.1.2.1
          (sameToo.symm visibleToo insideToo))
      rw [if_pos same, ih selected.2 apart.2 turned, if_neg alone,
        if_pos ⟨start, List.mem_cons_self, same⟩]
    · rw [if_neg same, ih selected.2 apart.2 inside]
      simp only [List.exists_mem_cons_iff, same, false_or]

theorem exists_mapM {α β ε : Type} {f : α → Except ε β} {holds : α → β → Prop} {items : List α}
    (each : ∀ item ∈ items, ∃ result, f item = .ok result ∧ holds item result) :
    ∃ results, items.mapM f = .ok results ∧ List.Forall₂ holds items results := by
  induction items with
  | nil => exact ⟨[], rfl, .nil⟩
  | cons item items ih =>
    rw [List.forall_mem_cons] at each
    obtain ⟨result, made, first⟩ := each.1
    obtain ⟨results, madeAll, rest⟩ := ih each.2
    refine ⟨result :: results, ?_, .cons first rest⟩
    rw [List.mapM_cons, made, madeAll]
    rfl

end Cycle

namespace Cube

/-- A quarter turn does what cycles through the orbits in the selected layers do. -/
theorem applyAll_cycles {cube : Cube} (valid : cube.Valid) (axis : Axis) {mask : LayerMask}
    (selects : 1 ≤ mask.toNat ∧ mask.toNat < 2 ^ cube.size.layers)
    {starts : List (PieceKind × Nat)} (represents : Represents cube.size axis mask starts)
    {cycles : List Cycle} (turns : List.Forall₂ (Cycle.Turns cube.size axis) starts cycles) :
    ∃ after, cube.transform axis.index mask 1 = .ok after ∧
      cube.applyAll (cycles.map Op.cycle) = (after, none) := by
  have index : axis.index ≤ 2 := by cases axis <;> decide
  have fits : ∀ op ∈ [Op.turn ⟨axis, mask, .quarter⟩], op.Fits cube.size :=
    List.forall_mem_singleton.2 ⟨index, selects⟩
  have oriented : ∀ op ∈ [Op.turn ⟨axis, mask, .quarter⟩], op.Oriented :=
    List.forall_mem_singleton.2 trivial
  have alike (kind) (visible : kind ≠ .center) (seat : Seat)
      (inside : seat.InRange (cube.size.count kind) kind.twists) :
      Op.moveAll cube.size kind [.turn ⟨axis, mask, .quarter⟩] seat =
        Op.moveAll cube.size kind (cycles.map Op.cycle) seat := by
    have selected : Selected cube.size axis mask (kind, seat.place) ↔
        mask.getLsbD (Place.layer cube.size kind seat.place axis) = true :=
      ⟨fun selected => selected.2.2, fun turns => ⟨visible, inside.1, turns⟩⟩
    rw [Cycle.moveAll_of_turns turns represents.selected represents.apart visible inside]
    simp only [represents.exists_iff, selected]
    rfl
  obtain ⟨after, turned, cycled⟩ := applyAll_eq_of_moveAll valid oriented
    (Cycle.oriented_of_turns turns) fits (Cycle.fits_of_turns turns represents.selected) alike
  obtain ⟨next, done, rest⟩ := applyAll_cons_eq_iff.1 turned
  cases rest
  exact ⟨_, done, cycled⟩

/-- A quarter turn of any layers does to any valid cube what the cycles of its orbits do, each made
from one of the places in it, in any order. -/
theorem transform_eq_cycles {cube : Cube} (valid : cube.Valid) (axis : Axis) {mask : LayerMask}
    (selects : 1 ≤ mask.toNat ∧ mask.toNat < 2 ^ cube.size.layers)
    (name : PieceKind → Nat → String) :
    (∀ kind, ∀ place < cube.size.count kind,
      Function.minimalPeriod (Place.turn cube.size kind axis true) place = 4 ∨
        Function.minimalPeriod (Place.turn cube.size kind axis true) place = 1 ∧
          (kind = .side ∨ kind = .center)) ∧
    (∃ starts, Represents cube.size axis mask starts) ∧
    ∀ starts, Represents cube.size axis mask starts → ∀ order : List (PieceKind × Nat),
      order.Perm starts → ∃ cycles after,
        order.mapM (Cycle.ofOrbit cube.size axis name) = .ok cycles ∧
          cube.transform axis.index mask 1 = .ok after ∧
          cube.applyAll (cycles.map Op.cycle) = (after, none) := by
  refine ⟨fun _ _ h => Place.minimalPeriod_cases h axis, Place.exists_represents .., ?_⟩
  intro starts represents order perm
  have represents := represents.perm perm
  obtain ⟨cycles, made, turns⟩ := Cycle.exists_mapM fun start member =>
    have selected := represents.selected start member
    Cycle.exists_ofOrbit selected.1 selected.2.1 axis name
  obtain ⟨after, turned, cycled⟩ := applyAll_cycles valid axis selects represents turns
  exact ⟨cycles, after, made, turned, cycled⟩

/-- One place for each orbit of the left and the right layer of a cube of three layers. -/
def outerOrbits : List (PieceKind × Nat) :=
  [(.side, 3), (.corner, 5), (.edge, 9), (.corner, 2), (.side, 0), (.edge, 0)]

theorem transform_eq_cycles_outerLayers :
    let cube := (solved ⟨3, by decide, by decide⟩).twistBy .y 4#32 1
    cube.Valid ∧ (1 ≤ (5#32).toNat ∧ (5#32).toNat < 2 ^ cube.size.layers) ∧
      Represents cube.size .x 5#32 outerOrbits ∧ outerOrbits.reverse.Perm outerOrbits ∧
      ∃ cycles after,
        outerOrbits.reverse.mapM (Cycle.ofOrbit cube.size .x (Place.name cube.size)) = .ok cycles ∧
          cube.transform 0 5#32 1 = .ok after ∧
          cube.applyAll (cycles.map Op.cycle) = (after, none) := by
  intro cube
  have valid : cube.Valid := valid_twistBy (valid_solved _) .y 4#32 1
  have selects : 1 ≤ (5#32).toNat ∧ (5#32).toNat < 2 ^ cube.size.layers := by decide
  have represents : Represents cube.size .x 5#32 outerOrbits := by decide +kernel
  have perm : outerOrbits.reverse.Perm outerOrbits := List.reverse_perm _
  obtain ⟨_, _, same⟩ := transform_eq_cycles valid .x selects (Place.name cube.size)
  exact ⟨valid, selects, represents, perm, same _ represents _ perm⟩

end Cube

end CubeScript
