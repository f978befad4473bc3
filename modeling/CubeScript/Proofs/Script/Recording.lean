import CubeScript.Proofs.Cube.Keeping
import CubeScript.Script.Record

/-!
# Histories of ledgers

The calls that change a cube are recorded in its ledger. Whatever they are, the ledger that has been
kept up from the start is the one that the cube as it is now would be given (`Call.record_ofCube`),
with every list by place written anew by turns, by resets, by assignments, and by cycles through
them. So the three lists of a kind always agree, and a piece that is looked up is the one that is
there.

A call that is refused has written nothing. This needs no agreement: it is true of any ledger
(`Call.leavesLedger_of_record`).
-/

namespace CubeScript

variable {cube : Cube} {l after : Ledger} {fault : Cube.Fault}

/-! ### Requests that are refused -/

theorem Ledger.eq_of_transform {axis : Nat} {mask : LayerMask} {angle : Int}
    (refused : l.transform axis mask angle = (after, some fault)) : after = l := by
  rw [transform] at refused
  split at refused
  · cases refused
    rfl
  · split at refused
    · cases refused
      rfl
    · split at refused <;> cases refused

theorem Ledger.eq_of_assign {kind : PieceKind} {places twists : List Nat}
    (refused : l.assign kind places twists = (after, some fault)) : after = l := by
  rw [assign] at refused
  split at refused
  · cases refused
    rfl
  · split at refused
    · cases refused
      rfl
    · split at refused
      · cases refused
        rfl
      · split at refused <;> cases refused
        rfl

/-! ### Cycles -/

namespace Cycle

theorem eq_of_record {c : Cycle} (refused : c.record l = (after, some fault)) : after = l := by
  rw [record] at refused
  split at refused
  · cases refused
    rfl
  · exact Ledger.eq_of_assign refused

/-- On the lists of a cube a cycle moves what it moves on the cube. -/
theorem moveLists_ofSeats (valid : cube.Valid) (kind : PieceKind) (extra : Nat)
    (steps : List (Item × Item)) (seats : List Seat) :
    moveLists (.ofSeats (cube.seats kind)) kind extra steps (seats.map Seat.place)
        (seats.map Seat.twist) =
      (moveAlong cube kind extra steps seats).map fun seats =>
        (seats.map Seat.place, seats.map Seat.twist) := by
  induction steps generalizing seats with
  | nil => rfl
  | cons step steps ih =>
    obtain ⟨source, target⟩ := step
    have same : (Register.ofSeats (cube.seats kind)).pieceAt? source.place =
        cube.pieceAt? kind source.place := Register.pieceAt?_ofSeats (valid kind) source.place
    rw [moveLists, moveAlong, same]
    cases cube.pieceAt? kind source.place with
    | none => rfl
    | some piece =>
      have before : (Register.ofSeats (cube.seats kind)).twists[piece]? =
          (cube.seats kind)[piece]?.map Seat.twist := List.getElem?_map
      dsimp only
      rw [before]
      split
      · rfl
      · rw [← ih, List.map_set, List.map_set]

theorem record_ofCube (c : Cycle) (valid : cube.Valid) :
    c.record (.ofCube cube) = Ledger.ofOutcome (Call.outcome cube (c.apply cube)) := by
  have moves : moveLists (.ofSeats (cube.seats c.kind)) c.kind (c.sign.twist c.kind.twists) c.steps
      (Register.ofSeats (cube.seats c.kind)).places (Register.ofSeats (cube.seats c.kind)).twists =
        _ := moveLists_ofSeats valid c.kind _ c.steps (cube.seats c.kind)
  rw [record, Ledger.register_ofCube, apply, moves]
  cases moveAlong cube c.kind (c.sign.twist c.kind.twists) c.steps (cube.seats c.kind) with
  | error fault => rfl
  | ok seats => exact Ledger.assign_ofCube cube c.kind _ _

end Cycle

/-! ### Scripts -/

namespace Op

theorem eq_of_record {op : Op} (refused : op.record l = (after, some fault)) : after = l := by
  cases op with
  | turn t => exact Ledger.eq_of_transform refused
  | cycle c => exact Cycle.eq_of_record refused

theorem record_ofCube (op : Op) (valid : cube.Valid) :
    op.record (.ofCube cube) = Ledger.ofOutcome (Call.outcome cube (op.apply cube)) := by
  cases op with
  | turn t => exact Ledger.transform_ofCube valid _ _ _
  | cycle c => exact c.record_ofCube valid

end Op

/-- Record some operations one after the other, up to the first that is refused. -/
def Ledger.recordAll (l : Ledger) : List Op → Ledger × Option Cube.Fault
  | [] => (l, none)
  | op :: ops =>
    match op.record l with
    | (after, some fault) => (after, some fault)
    | (after, none) => after.recordAll ops

/-- Operations that are refused have been recorded up to the one that is. -/
theorem Ledger.exists_of_recordAll {ops : List Op}
    (refused : l.recordAll ops = (after, some fault)) :
    ∃ done op rest, ops = done ++ op :: rest ∧ l.recordAll done = (after, none) ∧
      op.record after = (after, some fault) := by
  induction ops generalizing l with
  | nil => cases refused
  | cons op ops ih =>
    rw [recordAll] at refused
    split at refused
    · rename_i last other stops
      cases refused
      obtain rfl := Op.eq_of_record stops
      exact ⟨[], op, ops, rfl, rfl, stops⟩
    · rename_i next goes
      obtain ⟨done, last, rest, rfl, before, stops⟩ := ih refused
      refine ⟨op :: done, last, rest, rfl, ?_, stops⟩
      rw [recordAll, goes]
      exact before

/-- Recording a resolver records the operations it lists, whatever script it is for. -/
theorem Resolver.record_eq_recordAll (r : Resolver) (l : Ledger) :
    r.record l = l.recordAll r.toList := by
  fun_induction r.record l with
  | case1 r l done => rw [toList_of_done done]; rfl
  | case2 r l op s next after fault refused =>
    rw [toList_of_next next, Ledger.recordAll, refused]
  | case3 r l op s next after recorded ih =>
    rw [toList_of_next next, Ledger.recordAll, recorded]
    exact ih

theorem Ledger.recordAll_ofCube (valid : cube.Valid) (ops : List Op) :
    (ofCube cube).recordAll ops = ofOutcome (cube.applyAll ops) := by
  induction ops generalizing cube with
  | nil => rfl
  | cons op ops ih =>
    rw [recordAll, Cube.applyAll, op.record_ofCube valid]
    cases applied : op.apply cube with
    | error fault => rfl
    | ok next => exact ih (Op.valid_apply valid applied).1

/-! ### Calls -/

namespace Call

/-- Record a call in a ledger. -/
def record (l : Ledger) : Call → Ledger × Option Cube.Fault
  | .transform axis mask angle => l.transform axis mask angle
  | .assign kind places twists => l.assign kind places twists
  | .reset => (l.reset, none)
  | .operation op => op.record l
  | .script s inverse => s.record inverse l

/-- Record some calls one after the other, whether they are refused or not. -/
def recordAll (l : Ledger) (calls : List Call) : Ledger :=
  calls.foldl (fun l call => (call.record l).1) l

/-- How a call that is refused has to leave a ledger: as it was, or if it was a script for the cube,
as the operations before the one that is refused have left it. -/
def LeavesLedger (l after : Ledger) (fault : Cube.Fault) : Call → Prop
  | .script s inverse =>
    l.size.layers ≠ s.layers ∧ after = l ∨
      ∃ done op rest, (s.resolve inverse).toList = done ++ op :: rest ∧
        l.recordAll done = (after, none) ∧ op.record after = (after, some fault)
  | _ => after = l

/-- A call that is refused writes nothing but what a script has done before. -/
theorem leavesLedger_of_record {call : Call} (refused : call.record l = (after, some fault)) :
    call.LeavesLedger l after fault := by
  cases call with
  | transform axis mask angle => exact Ledger.eq_of_transform refused
  | assign kind places twists => exact Ledger.eq_of_assign refused
  | reset => cases refused
  | operation op => exact Op.eq_of_record refused
  | script s inverse =>
    rw [record, Script.record] at refused
    split at refused
    · rename_i other
      cases refused
      exact .inl ⟨other, rfl⟩
    · rw [Resolver.record_eq_recordAll] at refused
      exact .inr (Ledger.exists_of_recordAll refused)

/-- Recording a call in the ledger of a cube gives the ledger of the cube after the call. -/
theorem record_ofCube (valid : cube.Valid) (call : Call) :
    call.record (.ofCube cube) = Ledger.ofOutcome (call.run cube) := by
  cases call with
  | transform axis mask angle => exact Ledger.transform_ofCube valid axis mask angle
  | assign kind places twists => exact Ledger.assign_ofCube cube kind places twists
  | reset => exact Prod.ext (Ledger.reset_ofCube cube) rfl
  | operation op => exact op.record_ofCube valid
  | script s inverse =>
    rw [record, Script.record, run, Script.run, show (Ledger.ofCube cube).size = cube.size from rfl]
    split
    · rfl
    · rw [Resolver.record_eq_recordAll, Resolver.run_eq_applyAll, Ledger.recordAll_ofCube valid]

theorem recordAll_ofCube (valid : cube.Valid) (calls : List Call) :
    recordAll (.ofCube cube) calls = .ofCube (runAll cube calls) := by
  induction calls generalizing cube with
  | nil => rfl
  | cons call calls ih =>
    have next := record_ofCube valid call
    rw [recordAll, List.foldl_cons, next]
    exact ih (valid_run valid call).1

/-- However a ledger that was one of a solved cube has been used, it is the ledger of the cube that
has been used alike. The lists of each kind agree: the places are rearranged among the pieces, and the
list by place is their exact inverse. A call that is refused leaves all of them as they are, and the
ledger counts as solved exactly if it is that of a solved cube again. -/
theorem consistent_recordAll (size : Size) (calls : List Call) :
    recordAll (.solved size) calls = .ofCube (runAll (.solved size) calls) ∧
      (recordAll (.solved size) calls).size = size ∧
      (recordAll (.solved size) calls).Consistent ∧
      (∀ (call : Call) (after : Ledger) (fault : Cube.Fault),
        call.record (recordAll (.solved size) calls) = (after, some fault) →
          call.LeavesLedger (recordAll (.solved size) calls) after fault) ∧
      ((recordAll (.solved size) calls).IsSolved ↔
        recordAll (.solved size) calls = .solved size) := by
  have solved := Cube.valid_solved size
  obtain ⟨valid, same⟩ := valid_runAll solved calls
  change _ = size at same
  have kept : recordAll (.solved size) calls = .ofCube (runAll (.solved size) calls) := by
    rw [← Ledger.ofCube_solved, recordAll_ofCube solved]
  refine ⟨kept, ?_, ?_, fun _ _ _ => leavesLedger_of_record, ?_⟩
  · rw [kept]
    exact same
  · rw [kept]
    exact Ledger.consistent_ofCube valid
  · rw [kept, Ledger.isSolved_iff valid, same]

end Call

end CubeScript
