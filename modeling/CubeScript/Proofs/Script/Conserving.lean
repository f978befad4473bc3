import CubeScript.Proofs.Cube.Twists
import CubeScript.Proofs.Script.Moving

/-!
# The twists that operations conserve

Turns leave the sum of the twists of all corners as it is, modulo three, and that of the edges
modulo two, whatever layers they turn. A cycle adds what its sign twists a piece by, and nothing if
it has no sign. So a list of operations adds up the signs of the cycles that it makes with pieces of
the kind.

The sides are left out: turning an outer layer twists each side of its face.
-/

namespace CubeScript

namespace Op

/-- What an operation adds to the twists of a kind by the sign of a cycle. -/
def signTwist (kind : PieceKind) : Op → Nat
  | .turn _ => 0
  | .cycle c => if c.kind = kind then c.sign.twist kind.twists else 0

/-- Whether an operation is no cycle with a sign. -/
def Unsigned : Op → Prop
  | .turn _ => True
  | .cycle c => c.sign = .none

theorem Unsigned.signTwist_eq_zero {op : Op} (unsigned : op.Unsigned) (kind : PieceKind) :
    op.signTwist kind = 0 := by
  cases op with
  | turn t => rfl
  | cycle c =>
    rw [signTwist, show c.sign = .none from unsigned]
    exact ite_self 0

/-- The twists of a kind are shifted by each operation on its own. -/
theorem exists_shifts {size : Size} {kind : PieceKind} (turnable : kind = .corner ∨ kind = .edge)
    {op : Op} (oriented : op.Oriented) (fits : op.Fits size) :
    ∃ datum extra, Seat.Shifts (size.count kind) kind.twists (op.move size kind) datum extra ∧
      ((List.range (size.count kind)).map extra).sum = op.signTwist kind := by
  have nothing : ((List.range (size.count kind)).map fun _ => 0).sum = 0 := List.sum_map_zero
  cases op with
  | turn t => exact ⟨_, _, Cube.shifts_twistSeat turnable t.axis t.layers t.angle.toInt, nothing⟩
  | cycle c =>
    by_cases same : kind = c.kind
    · subst same
      refine ⟨c.facing, c.closingTwist, ?_, ?_⟩
      · rw [move, if_pos rfl]
        exact Cycle.shifts_move oriented _
      · rw [Cycle.sum_closingTwist fits, signTwist, if_pos rfl]
    · refine ⟨fun _ => 0, fun _ => 0, ?_, ?_⟩
      · rw [move, if_neg same]
        exact fun seat _ => .rfl
      · rw [nothing, signTwist, if_neg (Ne.symm same)]

/-- An operation adds the twist of its sign to the twists of a kind. -/
theorem sum_twists_apply {kind : PieceKind} (turnable : kind = .corner ∨ kind = .edge) {op : Op}
    (oriented : op.Oriented) {cube after : Cube} (valid : cube.Valid)
    (applied : op.apply cube = .ok after) :
    (after.twists kind).sum ≡ (cube.twists kind).sum + op.signTwist kind [MOD kind.twists] := by
  have visible := PieceKind.ne_center_of_turnable turnable
  obtain ⟨validAfter, size⟩ := valid_apply valid applied
  have fits := fits_of_apply valid applied
  obtain ⟨datum, extra, shifts, left⟩ := exists_shifts turnable oriented fits
  have seats := seats_apply visible valid applied
  have legal : Seat.Legal (cube.size.count kind) kind.twists
      ((cube.seats kind).map (op.move cube.size kind)) := by
    rw [← seats, ← size]
    exact validAfter kind
  rw [Cube.twists, Cube.twists, seats, ← left]
  exact shifts.sum_twist (valid kind) legal

end Op

namespace Cube

/-- Operations that have all been done have added the twists of their signs to those of a kind. -/
theorem sum_twists_of_applyAll {kind : PieceKind} (turnable : kind = .corner ∨ kind = .edge)
    {ops : List Op} (oriented : ∀ op ∈ ops, op.Oriented) {cube after : Cube} (valid : cube.Valid)
    (applied : cube.applyAll ops = (after, none)) :
    (after.twists kind).sum ≡
      (cube.twists kind).sum + (ops.map (Op.signTwist kind)).sum [MOD kind.twists] := by
  induction ops generalizing cube with
  | nil =>
    cases applied
    exact .rfl
  | cons op ops ih =>
    obtain ⟨next, done, rest⟩ := applyAll_cons_eq_iff.1 applied
    rw [List.forall_mem_cons] at oriented
    obtain ⟨validNext, _⟩ := Op.valid_apply valid done
    have first := Op.sum_twists_apply turnable oriented.1 valid done
    calc (after.twists kind).sum
        ≡ (next.twists kind).sum + (ops.map (Op.signTwist kind)).sum [MOD kind.twists] :=
          ih oriented.2 validNext rest
      _ ≡ (cube.twists kind).sum + op.signTwist kind + (ops.map (Op.signTwist kind)).sum
          [MOD kind.twists] := first.add_right _
      _ = (cube.twists kind).sum + ((op :: ops).map (Op.signTwist kind)).sum := by
          rw [List.map_cons, List.sum_cons, Nat.add_assoc]

/-- Operations that have all been done have changed the twists of the corners modulo three, and
those of the edges modulo two, by the signs of their cycles. Without any signs both stay as they
were. -/
theorem sum_twists_applyAll {ops : List Op} (oriented : ∀ op ∈ ops, op.Oriented)
    {cube after : Cube} (valid : cube.Valid) (applied : cube.applyAll ops = (after, none)) :
    (after.twists .corner).sum % 3 =
        ((cube.twists .corner).sum + (ops.map (Op.signTwist .corner)).sum) % 3 ∧
      (after.twists .edge).sum % 2 =
        ((cube.twists .edge).sum + (ops.map (Op.signTwist .edge)).sum) % 2 ∧
      ((∀ op ∈ ops, op.Unsigned) →
        (after.twists .corner).sum % 3 = (cube.twists .corner).sum % 3 ∧
          (after.twists .edge).sum % 2 = (cube.twists .edge).sum % 2) := by
  have corners := sum_twists_of_applyAll (.inl rfl) oriented valid applied
  have edges := sum_twists_of_applyAll (.inr rfl) oriented valid applied
  refine ⟨corners, edges, fun unsigned => ?_⟩
  have nothing (kind : PieceKind) : (ops.map (Op.signTwist kind)).sum = 0 := by
    apply List.sum_eq_zero
    rw [List.forall_mem_map]
    exact fun op member => (unsigned op member).signTwist_eq_zero kind
  rw [nothing, Nat.add_zero] at corners edges
  exact ⟨corners, edges⟩

/-- Turns of inner layers of a cube of four, and a cycle of corners and one of edges with signs. -/
def signedCycles : List Op := [
  .turn ⟨.x, 2#32, .quarter⟩,
  .cycle {
    kind := .corner
    items := [⟨.corner, 0, 1, "rfu"⟩, ⟨.corner, 4, 0, "ubr"⟩, ⟨.corner, 1, 1, "frd"⟩]
    sign := .minus
    items_ne_nil := by decide
    kind_eq := by decide
    nodup_places := by decide
    legal_sign := rfl },
  .turn ⟨.z, 6#32, .quarterBack⟩,
  .cycle {
    kind := .edge
    items := [⟨.edge, 13, 0, "uf2"⟩, ⟨.edge, 4, 1, "rd1"⟩]
    sign := .minus
    items_ne_nil := by decide
    kind_eq := by decide
    nodup_places := by decide
    legal_sign := rfl }]

theorem sum_twists_applyAll_signedCycles :
    (∀ op ∈ signedCycles, op.Oriented) ∧
      ((solved ⟨4, by decide, by decide⟩).twistBy .y 12#32 1).Valid ∧
      ∃ after, ((solved ⟨4, by decide, by decide⟩).twistBy .y 12#32 1).applyAll signedCycles =
          (after, none) ∧
        (after.twists .corner).sum % 3 = 2 ∧ (after.twists .edge).sum % 2 = 1 := by
  have oriented : ∀ op ∈ signedCycles, op.Oriented := by decide
  have valid := valid_twistBy (valid_solved ⟨4, by decide, by decide⟩) .y 12#32 1
  have applied : ((solved ⟨4, by decide, by decide⟩).twistBy .y 12#32 1).applyAll signedCycles =
      ((((solved ⟨4, by decide, by decide⟩).twistBy .y 12#32 1).applyAll signedCycles).1,
        none) := by
    decide +kernel
  obtain ⟨corners, edges, _⟩ := sum_twists_applyAll oriented valid applied
  exact ⟨oriented, valid, _, applied, corners.trans (by decide +kernel),
    edges.trans (by decide +kernel)⟩

end Cube

end CubeScript
