import CubeScript.Script.Resolver

/-!
# Running a script on a cube

A script is run operation by operation. The first operation that fails ends the run, and the cube
stays as the operations before it have left it.
-/

namespace CubeScript

namespace Resolver

/-- Do the operations that are left, up to the first that fails. -/
def run (r : Resolver) (cube : Cube) : Cube × Option Cube.Fault :=
  match _ : r.next? with
  | none => (cube, none)
  | some (op, s) =>
    match op.apply cube with
    | .error fault => (cube, some fault)
    | .ok cube => s.run cube
termination_by r.budget
decreasing_by exact next?_budget_lt (by assumption)

end Resolver

namespace Script

/-- Do a script, or undo it, on a cube of the size it was written for. Gives the cube afterwards
and what went wrong, if something did. -/
def run (script : Script) (inverse : Bool) (cube : Cube) : Cube × Option Cube.Fault :=
  if cube.size.layers ≠ script.layers then
    (cube, some (.sizeMismatch script.layers cube.size.layers))
  else (script.resolve inverse).run cube

end Script

end CubeScript
