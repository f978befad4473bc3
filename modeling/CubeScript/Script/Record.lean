import CubeScript.Cube.Ledger
import CubeScript.Cycle
import CubeScript.Script.Resolver

/-!
# Recording what is done to a cube

Operations and scripts are recorded in a ledger as they are done to a cube. A cycle looks up its
pieces in the lists by place, works on copies of the other two lists and assigns these in the end. A
script is recorded operation by operation, up to the first that is refused.
-/

namespace CubeScript

namespace Cycle

/-- Move the pieces along some steps, on copies of the lists of places and twists. -/
def moveLists (r : Register) (kind : PieceKind) (extra : Nat) :
    List (Item × Item) → (places twists : List Nat) → Except Cube.Fault (List Nat × List Nat)
  | [], places, twists => .ok (places, twists)
  | (source, target) :: steps, places, twists =>
    match r.pieceAt? source.place with
    | none => .error (.noSuchPart source.name)
    | some piece =>
      let before := r.twists[piece]?.getD 0
      if 256 ≤ twistSum kind before source target then .error .byteOverflow
      else
        let twist := twistAfter kind before source target
        let twist := if steps.isEmpty then (twist + extra) % kind.twists else twist
        moveLists r kind extra steps (places.set piece target.place) (twists.set piece twist)

/-- Record a cycle. -/
def record (c : Cycle) (l : Ledger) : Ledger × Option Cube.Fault :=
  let r := l.register c.kind
  match moveLists r c.kind (c.sign.twist c.kind.twists) c.steps r.places r.twists with
  | .error fault => (l, some fault)
  | .ok (places, twists) => l.assign c.kind places twists

end Cycle

/-- Record an operation. Gives the ledger afterwards and why the operation is refused, if it is. -/
def Op.record : Op → Ledger → Ledger × Option Cube.Fault
  | .turn t, l => l.transform t.axis.index t.layers t.angle.toInt
  | .cycle c, l => c.record l

/-- Record the operations that are left, up to the first that is refused. -/
def Resolver.record (r : Resolver) (l : Ledger) : Ledger × Option Cube.Fault :=
  match _ : r.next? with
  | none => (l, none)
  | some (op, s) =>
    match op.record l with
    | (after, some fault) => (after, some fault)
    | (after, none) => s.record after
termination_by r.budget
decreasing_by exact next?_budget_lt (by assumption)

/-- Record a script, or the script undone, in the ledger of a cube of the size it was written for. -/
def Script.record (script : Script) (inverse : Bool) (l : Ledger) : Ledger × Option Cube.Fault :=
  if l.size.layers ≠ script.layers then
    (l, some (.sizeMismatch script.layers l.size.layers))
  else (script.resolve inverse).record l

end CubeScript
