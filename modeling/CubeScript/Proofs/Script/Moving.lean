import CubeScript.Proofs.Cube.Motions
import CubeScript.Proofs.Script.Fitting

/-!
# What operations do to single pieces

A list of operations gives every piece its new seat on its own, by a motion that is put together
from those of the operations (`Op.moveAll`). Each of these is rigid, so the whole list is known from
what it does to the pieces of a solved cube. Two lists that do the same to a solved cube do the same
to every valid one.

Operations on a cube can only be compared in this way because each of them can be done on all valid
cubes of a size if it can be done on one.
-/

namespace CubeScript

namespace Op

/-- The seat of a piece after an operation. -/
def move (size : Size) (kind : PieceKind) : Op → Seat → Seat
  | .turn t => Cube.twistSeat size kind t.axis t.layers t.angle.toInt
  | .cycle c => if kind = c.kind then c.move else id

/-- The seat of a piece after some operations. -/
def moveAll (size : Size) (kind : PieceKind) : List Op → Seat → Seat
  | [], seat => seat
  | op :: ops, seat => moveAll size kind ops (op.move size kind seat)

instance : (op : Op) → Decidable op.Oriented
  | .turn _ => inferInstanceAs (Decidable True)
  | .cycle c => inferInstanceAs (Decidable (∀ item ∈ c.items, _ < _))

variable {size : Size} {kind : PieceKind}

theorem rigid_move (visible : kind ≠ .center) {op : Op} (oriented : op.Oriented)
    (fits : op.Fits size) : Seat.Rigid (size.count kind) kind.twists (op.move size kind) := by
  cases op with
  | turn t => exact Cube.rigid_twistSeat visible t.axis t.layers t.angle.toInt
  | cycle c =>
    rw [move]
    split
    · rename_i same
      rw [same]
      exact Cycle.rigid_move oriented fits
    · exact .refl _ _

theorem rigid_moveAll (visible : kind ≠ .center) {ops : List Op}
    (oriented : ∀ op ∈ ops, op.Oriented) (fits : ∀ op ∈ ops, op.Fits size) :
    Seat.Rigid (size.count kind) kind.twists (moveAll size kind ops) := by
  induction ops with
  | nil => exact .refl _ _
  | cons op ops ih =>
    rw [List.forall_mem_cons] at oriented fits
    exact (rigid_move visible oriented.1 fits.1).trans (ih oriented.2 fits.2)

/-- An operation moves the pieces of a kind, each on its own. -/
theorem seats_apply (visible : kind ≠ .center) {op : Op} {cube after : Cube} (valid : cube.Valid)
    (applied : op.apply cube = .ok after) :
    after.seats kind = (cube.seats kind).map (op.move cube.size kind) := by
  cases op with
  | turn t =>
    obtain ⟨_, rfl⟩ := Cube.transform_eq_ok_iff.1 applied
    exact Cube.seats_twistBy visible t.axis valid t.layers t.angle.toInt
  | cycle c =>
    obtain ⟨_, _, rfl⟩ := (Cycle.apply_eq_ok_iff valid).1 applied
    rw [move, Cycle.moved]
    split
    · rename_i same
      subst same
      exact Cube.seats_withSeats_self _ _ visible
    · rename_i other
      rw [Cube.seats_withSeats_of_ne _ _ other, List.map_id]

end Op

namespace Cube

variable {cube after : Cube} {ops : List Op}

/-- Operations that have all been done have moved the pieces of a kind, each on its own. -/
theorem seats_applyAll {kind : PieceKind} (visible : kind ≠ .center) (valid : cube.Valid)
    (applied : cube.applyAll ops = (after, none)) :
    after.seats kind = (cube.seats kind).map (Op.moveAll cube.size kind ops) := by
  induction ops generalizing cube with
  | nil =>
    cases applied
    exact (List.map_id _).symm
  | cons op ops ih =>
    obtain ⟨next, done, rest⟩ := applyAll_cons_eq_iff.1 applied
    obtain ⟨validNext, size⟩ := Op.valid_apply valid done
    rw [ih validNext rest, Op.seats_apply visible valid done, List.map_map, size]
    rfl

/-- Operations that do the same to a solved cube move all pieces alike. -/
theorem moveAll_eq_of_solved {size : Size} {first second : List Op}
    (orientedFirst : ∀ op ∈ first, op.Oriented) (orientedSecond : ∀ op ∈ second, op.Oriented)
    (one : (solved size).applyAll first = (after, none))
    (other : (solved size).applyAll second = (after, none)) {kind : PieceKind}
    (visible : kind ≠ .center) {seat : Seat} (inside : seat.InRange (size.count kind) kind.twists) :
    Op.moveAll size kind first seat = Op.moveAll size kind second seat := by
  have valid := valid_solved size
  have home : (solved size).seats kind = Seat.solved (size.count kind) := by
    cases kind with
    | center => exact absurd rfl visible
    | _ => rfl
  have rigidFirst := Op.rigid_moveAll visible orientedFirst (fits_of_applyAll valid one)
  have rigidSecond := Op.rigid_moveAll visible orientedSecond (fits_of_applyAll valid other)
  have agree : (Seat.solved (size.count kind)).map (Op.moveAll size kind first) =
      (Seat.solved (size.count kind)).map (Op.moveAll size kind second) := by
    rw [← home]
    exact (seats_applyAll visible valid one).symm.trans (seats_applyAll visible valid other)
  exact rigidFirst.eq_of_solved rigidSecond agree inside

/-- Operations that move all pieces alike do the same to a cube, if they can be done. -/
theorem applyAll_eq_of_moveAll (valid : cube.Valid) {first second : List Op}
    (orientedFirst : ∀ op ∈ first, op.Oriented) (orientedSecond : ∀ op ∈ second, op.Oriented)
    (fits : ∀ op ∈ first, op.Fits cube.size) (fitsToo : ∀ op ∈ second, op.Fits cube.size)
    (alike : ∀ kind ≠ .center, ∀ seat : Seat, seat.InRange (cube.size.count kind) kind.twists →
      Op.moveAll cube.size kind first seat = Op.moveAll cube.size kind second seat) :
    ∃ result, cube.applyAll first = (result, none) ∧ cube.applyAll second = (result, none) := by
  obtain ⟨result, done⟩ := exists_applyAll_of_fits valid orientedFirst fits
  obtain ⟨resultToo, doneToo⟩ := exists_applyAll_of_fits valid orientedSecond fitsToo
  have size := (valid_applyAll valid first).2
  have sizeToo := (valid_applyAll valid second).2
  rw [done] at size
  rw [doneToo] at sizeToo
  have results : result = resultToo := by
    apply ext_seats (size.trans sizeToo.symm)
    intro kind visible
    rw [seats_applyAll visible valid done, seats_applyAll visible valid doneToo]
    apply List.map_congr_left
    intro seat member
    exact alike kind visible seat ((valid kind).inRange member)
  exact ⟨result, done, results ▸ doneToo⟩

/-- Operations that do the same to a solved cube can both be done on every valid cube of its size,
and do the same to it. -/
theorem applyAll_eq_of_solved {size : Size} {first second : List Op}
    (orientedFirst : ∀ op ∈ first, op.Oriented) (orientedSecond : ∀ op ∈ second, op.Oriented)
    (one : (solved size).applyAll first = (after, none))
    (other : (solved size).applyAll second = (after, none)) {cube : Cube} (valid : cube.Valid)
    (same : cube.size = size) :
    ∃ result, cube.applyAll first = (result, none) ∧ cube.applyAll second = (result, none) := by
  subst same
  have home := valid_solved cube.size
  have fits := fits_of_applyAll home one
  have fitsToo := fits_of_applyAll home other
  apply applyAll_eq_of_moveAll valid orientedFirst orientedSecond fits fitsToo
  intro kind visible seat inside
  exact moveAll_eq_of_solved orientedFirst orientedSecond one other visible inside

/-- The quarter turn of the right face of a cube of three layers. -/
def rightTurn : List Op := [.turn ⟨.x, 4#32, .quarter⟩]

/-- The same as a twist of the right side and cycles of the corners and the edges around it. -/
def rightCycles : List Op := [
  .cycle {
    kind := .side
    items := [⟨.side, 0, 0, "r"⟩]
    sign := .plus
    items_ne_nil := by decide
    kind_eq := by decide
    nodup_places := by decide
    legal_sign := rfl },
  .cycle {
    kind := .corner
    items := [⟨.corner, 4, 0, "ubr"⟩, ⟨.corner, 5, 2, "bdr"⟩, ⟨.corner, 1, 0, "dfr"⟩,
      ⟨.corner, 0, 2, "fur"⟩]
    sign := .none
    items_ne_nil := by decide
    kind_eq := by decide
    nodup_places := by decide
    legal_sign := rfl },
  .cycle {
    kind := .edge
    items := [⟨.edge, 0, 0, "ur"⟩, ⟨.edge, 10, 0, "br"⟩, ⟨.edge, 4, 0, "dr"⟩, ⟨.edge, 8, 0, "fr"⟩]
    sign := .none
    items_ne_nil := by decide
    kind_eq := by decide
    nodup_places := by decide
    legal_sign := rfl }]

theorem applyAll_eq_of_solved_rightTurn :
    (∀ op ∈ rightTurn, op.Oriented) ∧ (∀ op ∈ rightCycles, op.Oriented) ∧
      ∃ after, (solved ⟨3, by decide, by decide⟩).applyAll rightTurn = (after, none) ∧
        (solved ⟨3, by decide, by decide⟩).applyAll rightCycles = (after, none) ∧
        ((solved ⟨3, by decide, by decide⟩).twistBy .y 4#32 1).Valid ∧
        ∃ result,
          ((solved ⟨3, by decide, by decide⟩).twistBy .y 4#32 1).applyAll rightTurn =
            (result, none) ∧
          ((solved ⟨3, by decide, by decide⟩).twistBy .y 4#32 1).applyAll rightCycles =
            (result, none) := by
  have orientedTurn : ∀ op ∈ rightTurn, op.Oriented := by decide
  have orientedCycles : ∀ op ∈ rightCycles, op.Oriented := by decide
  have one : (solved ⟨3, by decide, by decide⟩).applyAll rightTurn =
      (((solved ⟨3, by decide, by decide⟩).applyAll rightTurn).1, none) := by
    decide +kernel
  have other : (solved ⟨3, by decide, by decide⟩).applyAll rightCycles =
      (((solved ⟨3, by decide, by decide⟩).applyAll rightTurn).1, none) := by
    decide +kernel
  have valid := valid_twistBy (valid_solved ⟨3, by decide, by decide⟩) .y 4#32 1
  exact ⟨orientedTurn, orientedCycles, _, one, other, valid,
    applyAll_eq_of_solved orientedTurn orientedCycles one other valid (size_twistBy ..)⟩

end Cube

end CubeScript
