import CubeScript.Proofs.Cube.Consistency
import CubeScript.Proofs.Script.Restoring

/-!
# Histories of calls

A cube is changed by calls: layers are turned, seats are assigned, turns, cycles and whole scripts
are run on it, and any of these may fail. A call keeps a cube valid whether it fails or not
(`Call.valid_run`), so a cube that was solved once stays consistent however it has been used since.
A call that fails changes nothing (`Call.leaves_of_run`), except that a script may have done some of
its operations by then.

Nothing is asked of the arguments. Items of cycles may name faces that no place has, and the nodes
of a script may go round in a circle.
-/

namespace CubeScript

namespace Op

/-- An operation keeps a cube valid. -/
theorem valid_apply {op : Op} {cube after : Cube} (valid : cube.Valid)
    (applied : op.apply cube = .ok after) : after.Valid ∧ after.size = cube.size := by
  cases op with
  | turn t =>
    obtain ⟨validAfter, size, _⟩ := Turn.apply_inverse valid applied
    exact ⟨validAfter, size⟩
  | cycle c => exact Cycle.valid_apply valid applied

end Op

namespace Cube

theorem valid_applyAll {cube : Cube} (valid : cube.Valid) (ops : List Op) :
    (cube.applyAll ops).1.Valid ∧ (cube.applyAll ops).1.size = cube.size := by
  induction ops generalizing cube with
  | nil => exact ⟨valid, rfl⟩
  | cons op ops ih =>
    rw [applyAll]
    cases applied : op.apply cube with
    | error fault => exact ⟨valid, rfl⟩
    | ok next =>
      obtain ⟨validNext, size⟩ := Op.valid_apply valid applied
      obtain ⟨validAfter, sizeAfter⟩ := ih validNext
      exact ⟨validAfter, sizeAfter.trans size⟩

/-- Operations that fail have been done up to the one that does. -/
theorem exists_of_applyAll {cube after : Cube} {ops : List Op} {fault : Fault}
    (failed : cube.applyAll ops = (after, some fault)) :
    ∃ done op rest, ops = done ++ op :: rest ∧ cube.applyAll done = (after, none) ∧
      op.apply after = .error fault := by
  induction ops generalizing cube with
  | nil => cases failed
  | cons op ops ih =>
    rw [applyAll] at failed
    split at failed
    · rename_i stops
      cases failed
      exact ⟨[], op, ops, rfl, rfl, stops⟩
    · rename_i next goes
      obtain ⟨done, last, rest, rfl, before, stops⟩ := ih failed
      refine ⟨op :: done, last, rest, rfl, ?_, stops⟩
      rw [applyAll, goes]
      exact before

end Cube

/-- A call that may change a cube. -/
inductive Call where
  /-- Turn the layers in a mask about the axis with a given number. -/
  | transform (axis : Nat) (mask : LayerMask) (angle : Int)
  /-- Put the pieces of a kind into given places with given twists. -/
  | assign (kind : PieceKind) (places twists : List Nat)
  /-- Put every piece back home. -/
  | reset
  /-- Make a turn, or move pieces along a cycle. -/
  | operation (op : Op)
  /-- Run a script, or undo it. -/
  | script (s : Script) (inverse : Bool)

namespace Call

/-- The cube after a request, and what is wrong with the request if it is refused. A cube that
refuses a request stays what it was. -/
def outcome (cube : Cube) : Except Cube.Fault Cube → Cube × Option Cube.Fault
  | .ok after => (after, none)
  | .error fault => (cube, some fault)

/-- Make a call on a cube. -/
def run (cube : Cube) : Call → Cube × Option Cube.Fault
  | .transform axis mask angle => outcome cube (cube.transform axis mask angle)
  | .assign kind places twists => outcome cube (cube.assign kind places twists)
  | .reset => (cube.reset, none)
  | .operation op => outcome cube (op.apply cube)
  | .script s inverse => s.run inverse cube

/-- Make some calls on a cube one after the other, whether they fail or not. -/
def runAll (cube : Cube) (calls : List Call) : Cube :=
  calls.foldl (fun cube call => (call.run cube).1) cube

/-- How a call that has failed has to leave a cube: as it was, or if it was a script for the cube,
as the operations before the one that failed have left it. -/
def Leaves (cube after : Cube) (fault : Cube.Fault) : Call → Prop
  | .script s inverse =>
    cube.size.layers ≠ s.layers ∧ after = cube ∨
      ∃ done op rest, (s.resolve inverse).toList = done ++ op :: rest ∧
        cube.applyAll done = (after, none) ∧ op.apply after = .error fault
  | _ => after = cube

theorem valid_outcome {cube : Cube} (valid : cube.Valid) {result : Except Cube.Fault Cube}
    (kept : ∀ after, result = .ok after → after.Valid ∧ after.size = cube.size) :
    (outcome cube result).1.Valid ∧ (outcome cube result).1.size = cube.size := by
  cases result with
  | error fault => exact ⟨valid, rfl⟩
  | ok after => exact kept after rfl

theorem eq_of_outcome {cube after : Cube} {result : Except Cube.Fault Cube} {fault : Cube.Fault}
    (failed : outcome cube result = (after, some fault)) : after = cube := by
  cases result with
  | error _ =>
    cases failed
    rfl
  | ok _ => cases failed

/-- A call keeps a cube valid, whether it fails or not. -/
theorem valid_run {cube : Cube} (valid : cube.Valid) (call : Call) :
    (call.run cube).1.Valid ∧ (call.run cube).1.size = cube.size := by
  cases call with
  | transform axis mask angle =>
    refine valid_outcome valid fun after turned => ?_
    obtain ⟨validAfter, size, _⟩ := Cube.transform_neg valid turned
    exact ⟨validAfter, size⟩
  | assign kind places twists => exact valid_outcome valid fun _ => Cube.valid_assign valid
  | reset => exact ⟨Cube.valid_solved _, rfl⟩
  | operation op => exact valid_outcome valid fun _ => Op.valid_apply valid
  | script s inverse =>
    rw [run, Script.run]
    split
    · exact ⟨valid, rfl⟩
    · rw [Resolver.run_eq_applyAll]
      exact Cube.valid_applyAll valid _

theorem valid_runAll {cube : Cube} (valid : cube.Valid) (calls : List Call) :
    (runAll cube calls).Valid ∧ (runAll cube calls).size = cube.size := by
  induction calls generalizing cube with
  | nil => exact ⟨valid, rfl⟩
  | cons call calls ih =>
    obtain ⟨validNext, size⟩ := valid_run valid call
    obtain ⟨validAfter, sizeAfter⟩ := ih validNext
    exact ⟨validAfter, sizeAfter.trans size⟩

/-- A call that fails changes nothing but what a script has done before. -/
theorem leaves_of_run {call : Call} {cube after : Cube} {fault : Cube.Fault}
    (failed : call.run cube = (after, some fault)) : call.Leaves cube after fault := by
  cases call with
  | transform axis mask angle => exact eq_of_outcome failed
  | assign kind places twists => exact eq_of_outcome failed
  | reset => cases failed
  | operation op => exact eq_of_outcome failed
  | script s inverse =>
    rw [run, Script.run] at failed
    split at failed
    · rename_i other
      cases failed
      exact .inl ⟨other, rfl⟩
    · rw [Resolver.run_eq_applyAll] at failed
      exact .inr (Cube.exists_of_applyAll failed)

/-- However a cube that was solved once has been used, its lists agree, a call that fails leaves it
as it is, and it counts as solved exactly if it is the solved cube again. -/
theorem consistent_runAll (size : Size) (calls : List Call) :
    (runAll (.solved size) calls).size = size ∧ (runAll (.solved size) calls).Consistent ∧
      (∀ (call : Call) (after : Cube) (fault : Cube.Fault),
        call.run (runAll (.solved size) calls) = (after, some fault) →
          call.Leaves (runAll (.solved size) calls) after fault) ∧
      ((runAll (.solved size) calls).IsSolved ↔ runAll (.solved size) calls = .solved size) := by
  obtain ⟨valid, same⟩ := valid_runAll (Cube.valid_solved size) calls
  change _ = size at same
  refine ⟨same, valid.consistent, fun _ _ _ => leaves_of_run, ?_⟩
  rw [Cube.isSolved_iff valid, same]

end Call

end CubeScript
