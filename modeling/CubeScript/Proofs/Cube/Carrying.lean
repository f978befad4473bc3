import CubeScript.Proofs.Cube.Motions
import CubeScript.Proofs.Script.History

/-!
# What a cycle does to a cube

A cycle looks up its places on the cube as it is at the start, rewrites the seats of one kind of
pieces step by step, and has the result checked like seats from outside. All that is left of this is
`Cycle.Carries`: the piece in the place of an item goes to the place of the next one, with the turn
from the face of the one to that of the other, and the sign counts where the last item leads back to
the first. Nothing else changes.

The check never fails, since no two pieces are sent to one place. If the items name faces that
exist, the only thing that can go wrong is a place that the cube does not have. Then the first such
item is named and nothing moves at all.
-/

namespace CubeScript

namespace Cycle

/-- Whether one cube has become another by a cycle. -/
structure Carries (c : Cycle) (cube after : Cube) : Prop where
  size : after.size = cube.size
  valid : after.Valid
  /-- The piece in the place of an item is in the place of the next one. -/
  carried : ∀ i source target, c.items[i]? = some source →
    c.items[(i + 1) % c.items.length]? = some target →
    ∃ piece before now, cube.pieceAt? c.kind source.place = some piece ∧
      (cube.seats c.kind)[piece]? = some before ∧ (after.seats c.kind)[piece]? = some now ∧
      now.place = target.place ∧
      (now.twist : Int) = (before.twist +
        ((target.orientation.toNat : Int) - source.orientation.toNat) +
        if i + 1 = c.items.length then c.sign.twist c.kind.twists else 0) % c.kind.twists
  /-- The pieces in other places stay as they are. -/
  kept : ∀ (piece : Nat) (seat : Seat), (cube.seats c.kind)[piece]? = some seat →
    (∀ item ∈ c.items, seat.place ≠ item.place) → (after.seats c.kind)[piece]? = some seat
  /-- So do all pieces of other kinds. -/
  keptKinds : ∀ kind ≠ c.kind, after.seats kind = cube.seats kind

/-- The twist of a piece grows by the turn between the two faces and by the extra twist. -/
theorem twist_enter {kind : PieceKind} {extra : Nat} {source target : Item} {seat : Seat}
    (leaves : source.orientation.toNat < kind.twists) :
    ((enter kind extra source target seat).twist : Int) = (seat.twist +
      ((target.orientation.toNat : Int) - source.orientation.toNat) + extra) % kind.twists := by
  have sum : ((seat.twist + (kind.twists - source.orientation.toNat) + target.orientation.toNat +
      extra : Nat) : Int) = seat.twist +
        ((target.orientation.toNat : Int) - source.orientation.toNat) + extra + kind.twists := by
    omega
  rw [enter, twistAfter_eq leaves, Nat.mod_add_mod, Int.natCast_mod, sum,
    Int.add_emod_right]

/-! ### The cycle goes through -/

/-- If all places exist, the cycle does what it says. -/
theorem carries_moved {c : Cycle} (oriented : c.Oriented) {cube : Cube} (valid : cube.Valid)
    (inside : ∀ item ∈ c.items, item.place < cube.size.count c.kind) :
    c.Carries cube (c.moved cube) where
  size := size_moved ..
  valid := valid_moved valid inside
  carried := by
    intro i source target here next
    have leaves := List.mem_of_getElem? here
    have enters := List.mem_of_getElem? next
    obtain ⟨piece, found⟩ := Option.isSome_iff_exists.1
      (pieceAt?_isSome (valid c.kind) (inside source leaves))
    obtain ⟨present, start⟩ := place_of_pieceAt? found
    have goes := move_of_getElem? here next start
    refine ⟨piece, _, c.move (cube.seats c.kind)[piece], found, List.getElem?_eq_getElem present,
      ?_, ?_, ?_⟩
    · rw [seats_moved inside, List.getElem?_map, List.getElem?_eq_getElem present, Option.map_some]
    · rw [goes]
      rfl
    · rw [goes, twist_enter (oriented source leaves)]
  kept := by
    intro piece seat stored elsewhere
    have outside : seat.place ∉ c.items.map Item.place := by
      intro member
      obtain ⟨item, listed, same⟩ := List.mem_map.1 member
      exact elsewhere item listed same.symm
    rw [seats_moved inside, List.getElem?_map, stored, Option.map_some,
      move_of_notMem outside]
  keptKinds _ other := seats_moved_of_ne cube other

/-- A cycle moves the pieces of a cube as its items say if the cube has all their places. If not,
the cube stays as it is, and the first item without a place is named. -/
theorem run_cycle {items : List Item} {sign : Sign} {c : Cycle} (made : make items sign = .ok c)
    (oriented : ∀ item ∈ items, item.orientation.toNat < c.kind.twists) {cube : Cube}
    (valid : cube.Valid) :
    (((Call.operation (.cycle c)).run cube).2 = none ↔
      ∀ item ∈ items, item.place < cube.size.count c.kind) ∧
    (∀ after, (Call.operation (.cycle c)).run cube = (after, none) → c.Carries cube after) ∧
    ∀ after fault, (Call.operation (.cycle c)).run cube = (after, some fault) → after = cube ∧
      ∃ before item rest, items = before ++ item :: rest ∧
        (∀ earlier ∈ before, earlier.place < cube.size.count c.kind) ∧
        cube.size.count c.kind ≤ item.place ∧ fault = .noSuchPart item.name := by
  obtain ⟨rfl, _⟩ := items_of_make made
  have call : (Call.operation (.cycle c)).run cube = Call.outcome cube (c.apply cube) := rfl
  rw [call]
  cases applied : c.apply cube with
  | ok result =>
    obtain ⟨inside, rfl⟩ := (Oriented.apply_eq_ok_iff oriented valid).1 applied
    refine ⟨iff_of_true rfl inside, ?_, fun _ _ => nofun⟩
    intro after same
    cases same
    exact carries_moved oriented valid inside
  | error fault =>
    obtain ⟨large, _⟩ | named := exists_of_apply_eq_error valid applied
    · exact absurd (Oriented.sumsFit oriented cube) large
    refine ⟨iff_of_false nofun fun inside => ?_, fun _ => nofun, ?_⟩
    · rw [(Oriented.apply_eq_ok_iff oriented valid).2 ⟨inside, rfl⟩] at applied
      cases applied
    · intro after other same
      cases same
      exact ⟨rfl, named⟩

/-- Three corners that are entered from different faces. -/
def twistedCorners : Cycle where
  kind := .corner
  items := [⟨.corner, 1, 2, "rdf"⟩, ⟨.corner, 6, 1, "lbu"⟩, ⟨.corner, 4, 0, "ubr"⟩]
  sign := .plus
  items_ne_nil := by decide
  kind_eq := by decide
  nodup_places := by decide
  legal_sign := Sign.legal?_undoing .corner .minus

/-- Three edges, the last two of which are not on a cube of three layers. -/
def strayEdges : Cycle where
  kind := .edge
  items := [⟨.edge, 4, 1, "rd"⟩, ⟨.edge, 14, 0, "ul2"⟩, ⟨.edge, 33, 1, "lf3"⟩]
  sign := .minus
  items_ne_nil := by decide
  kind_eq := by decide
  nodup_places := by decide
  legal_sign := Sign.legal?_undoing .edge .minus

theorem run_cycle_onThreeLayers :
    let cube := (Cube.solved ⟨3, by decide, by decide⟩).twistBy .x 4#32 1
    make twistedCorners.items .plus = .ok twistedCorners ∧
      (∀ item ∈ twistedCorners.items, item.orientation.toNat < 3) ∧
      make strayEdges.items .plus = .ok strayEdges ∧
      (∀ item ∈ strayEdges.items, item.orientation.toNat < 2) ∧ cube.Valid ∧
      (∃ after, (Call.operation (.cycle twistedCorners)).run cube = (after, none) ∧
        twistedCorners.Carries cube after ∧ after ≠ cube) ∧
      (Call.operation (.cycle strayEdges)).run cube = (cube, some (.noSuchPart "ul2")) ∧
      ∃ before item rest, strayEdges.items = before ++ item :: rest ∧
        (∀ earlier ∈ before, earlier.place < 12) ∧ 12 ≤ item.place ∧
        Cube.Fault.noSuchPart "ul2" = .noSuchPart item.name := by
  intro cube
  have made : make twistedCorners.items .plus = .ok twistedCorners := make_items _ rfl
  have oriented : ∀ item ∈ twistedCorners.items, item.orientation.toNat < 3 := by decide
  have madeToo : make strayEdges.items .plus = .ok strayEdges := make_items _ rfl
  have orientedToo : ∀ item ∈ strayEdges.items, item.orientation.toNat < 2 := by decide
  have valid : cube.Valid := Cube.valid_twistBy (Cube.valid_solved _) .x 4#32 1
  obtain ⟨goes, carries, _⟩ := run_cycle made oriented valid
  have inside : ∀ item ∈ twistedCorners.items, item.place < cube.size.count .corner := by decide
  have done : (Call.operation (.cycle twistedCorners)).run cube =
      (((Call.operation (.cycle twistedCorners)).run cube).1, none) :=
    Prod.ext rfl (goes.2 inside)
  have failed : (Call.operation (.cycle strayEdges)).run cube =
      (cube, some (.noSuchPart "ul2")) := by decide +kernel
  obtain ⟨_, named⟩ := (run_cycle madeToo orientedToo valid).2.2 _ _ failed
  exact ⟨made, oriented, madeToo, orientedToo, valid,
    ⟨_, done, carries _ done, by decide +kernel⟩, failed, named⟩

end Cycle

end CubeScript
