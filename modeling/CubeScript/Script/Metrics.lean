import CubeScript.Script.Resolver

/-!
# Counting turns

There are several ways to count what a turn costs. All of them look at the runs of
neighbouring layers that a turn selects, and use the runs of the other layers where these are
cheaper, since turning the others the other way is the same up to a turn of the whole cube. A
whole cube turn is free.

A run costs one block turn. It costs one face turn if it has an outer layer, else two, as it is
then done by turning everything outside it on either side. Quarter turns are face turns times the
size of the angle. Cycles of pieces are not counted.
-/

namespace CubeScript

/-- The cost of some operations. -/
structure Metrics where
  moves : Nat
  blockTurns : Nat
  faceTurns : Nat
  quarterTurns : Nat
  deriving DecidableEq, Repr

namespace Metrics

/-- The cost of doing nothing. -/
def zero : Metrics := ⟨0, 0, 0, 0⟩

/-- Whether each of `n` layers is selected, from the first to the last. A mask tells 32 layers
apart and starts over for those beyond. -/
def selected (n : Nat) (mask : LayerMask) : List Bool :=
  (List.range n).map fun i => mask.getLsbD (i % 32)

/-- The runs of `true` in a list, each with its first and last index. The list begins at
index `i`, and `begun` is the start of the run that reaches up to there. -/
def runsFrom (i : Nat) (begun : Option Nat) : List Bool → List (Nat × Nat)
  | [] => match begun with
    | some first => [(first, i - 1)]
    | none => []
  | true :: bs => runsFrom (i + 1) (some (begun.getD i)) bs
  | false :: bs => match begun with
    | some first => (first, i - 1) :: runsFrom (i + 1) none bs
    | none => runsFrom (i + 1) none bs

/-- The runs of selected layers, each with its first and last layer. -/
def runs (layers : List Bool) : List (Nat × Nat) := runsFrom 0 none layers

/-- The face turns that some runs of `n` layers cost. -/
def faceCost (n : Nat) (runs : List (Nat × Nat)) : Nat :=
  runs.foldr (fun (first, last) cost => (if first = 0 ∨ last + 1 = n then 1 else 2) + cost) 0

/-- The cost after one more turn on a cube of `n` layers. -/
def addTurn (n : Nat) (m : Metrics) (t : Turn) : Metrics :=
  let layers := selected n t.layers
  let own := runs layers
  let others := runs (layers.map (!·))
  let faceTurns := min (faceCost n own) (faceCost n others)
  { moves := m.moves + 1
    blockTurns := m.blockTurns + min own.length others.length
    faceTurns := m.faceTurns + faceTurns
    quarterTurns := m.quarterTurns + faceTurns * t.angle.quarters }

/-- The cost after one more operation. -/
def addOp (n : Nat) (m : Metrics) : Op → Metrics
  | .turn t => m.addTurn n t
  | .cycle _ => m

/-- The cost of the operations of a resolver on a cube of `n` layers. -/
def ofResolver (n : Nat) (r : Resolver) : Metrics := r.foldl (addOp n) zero

end Metrics

namespace Script

/-- The cost of a script. -/
def metrics (script : Script) (inverse : Bool) : Metrics :=
  .ofResolver script.layers (script.resolve inverse)

end Script

end CubeScript
