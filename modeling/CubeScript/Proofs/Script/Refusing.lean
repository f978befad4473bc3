import CubeScript.Proofs.Cube.Carrying
import CubeScript.Proofs.Script.Fitting
import CubeScript.Proofs.Script.Totals

/-!
# Turns that are refused, reflected

A cube refuses a turn of layers that it does not have. A reflection only looks at the layers that
the cube has and drops the others, so a turn that selects some of both is refused as it stands and
made when it is reflected (`Script.run_ofTurn`). The refusal is hidden by the
reflection.

What decides is whether the mask selects a layer of the cube at all. A turn and its reflection agree
on this (`Op.Across.getLsbD`), although the reflection of a reflection need not be the turn again. A
mask without such a layer is refused on both sides: it is empty, or it is too wide. So a refusal of
such a mask is never hidden, wherever in the script it happens and whatever reflections there are
around it.

The operations before the refused one are done on the one side. On the other side some of them may
be refused, and then the run ends there, with a refusal of a mask again: cycles are the same on both
sides, and a cycle that can be done on one cube can be done on all cubes of the size, as long as its
items name faces that exist. A cycle of other items may stop on the one cube and not on the other.
-/

namespace CubeScript

namespace Op

/-- Whether one of two operations is the other one reflected. -/
def Across (n : Nat) (a b : Op) : Prop := b = a.reflected n ∨ a = b.reflected n

variable {n : Nat}

theorem Across.eq_cycle {c : Cycle} {op : Op} (across : Across n (.cycle c) op) :
    op = .cycle c := by
  obtain rfl | same := across
  · rfl
  · cases op with
    | turn t => cases same
    | cycle d => exact same.symm

theorem Across.exists_turn {t : Turn} {op : Op} (across : Across n (.turn t) op) :
    ∃ u, op = .turn u := by
  obtain rfl | same := across
  · exact ⟨t.reflected n, rfl⟩
  · cases op with
    | turn u => exact ⟨u, rfl⟩
    | cycle d => cases same

/-- On the layers of the cube, each of the two masks is the other one turned round. -/
theorem Across.getLsbD (positive : 0 < n) (small : n ≤ 32) {t u : Turn}
    (across : Across n (.turn t) (.turn u)) {i : Nat} (inside : i < n) :
    u.layers.getLsbD i = t.layers.getLsbD (n - 1 - i) := by
  obtain same | same := across
  · cases same
    rw [Turn.getLsbD_reflected positive small, decide_eq_true inside, Bool.true_and]
  · cases same
    have less : n - 1 - i < n := by omega
    have back : n - 1 - (n - 1 - i) = i := by omega
    rw [Turn.getLsbD_reflected positive small, decide_eq_true less, Bool.true_and, back]

/-- A turn that fits selects a layer of the cube. -/
theorem Fits.exists_layer {size : Size} {t : Turn} (fits : (turn t).Fits size) :
    ∃ i < size.layers, t.layers.getLsbD i = true := by
  obtain ⟨filled, within⟩ := fits_turn_iff.1 fits
  obtain ⟨i, set⟩ := LayerMask.ne_zero_iff.1 filled
  exact ⟨i, LayerMask.within_iff.1 within i set, set⟩

/-- A reflected turn fits if the turn selects a layer of the cube, whatever else it selects. -/
theorem fits_reflected {size : Size} {t : Turn} {i : Nat} (inside : i < size.layers)
    (set : t.layers.getLsbD i = true) : (turn (t.reflected size.layers)).Fits size := by
  have positive := size.layers_pos
  have small := size.layers_le_width
  rw [fits_turn_iff, LayerMask.ne_zero_iff, LayerMask.within_iff]
  simp only [Turn.getLsbD_reflected positive small, Bool.and_eq_true, decide_eq_true_iff]
  refine ⟨⟨size.layers - 1 - i, by omega, ?_⟩, fun _ other => other.1⟩
  rwa [show size.layers - 1 - (size.layers - 1 - i) = i by omega]

/-- The two turns of a pair both select a layer of the cube, or neither does. -/
theorem Across.not_fits {size : Size} {t u : Turn}
    (across : Across size.layers (.turn t) (.turn u))
    (none : ∀ i < size.layers, t.layers.getLsbD i = false) : ¬ (turn u).Fits size := by
  intro fits
  obtain ⟨i, inside, set⟩ := fits.exists_layer
  rw [across.getLsbD size.layers_pos size.layers_le_width inside, none _ (by omega)] at set
  cases set

end Op

/-! ### Meanings on both sides -/

namespace Meaning

/-- Whether turning the flag `reflected` over exchanges every operation for its reflection, or for
one that it is the reflection of. -/
def Crosses (n : Nat) (m : Meaning) : Prop :=
  ∀ inverse reflected, List.Forall₂ (Op.Across n) (m inverse reflected) (m inverse (!reflected))

variable {n : Nat}

theorem Crosses.nothing (n : Nat) : nothing.Crosses n := fun _ _ => .nil

theorem Crosses.inSequence {parts : List Meaning} (each : ∀ part ∈ parts, part.Crosses n) :
    (inSequence parts).Crosses n := by
  intro inverse reflected
  have flat (parts : List Meaning) (each : ∀ part ∈ parts, part.Crosses n) :
      List.Forall₂ (Op.Across n) (parts.flatMap fun part => part inverse reflected)
        (parts.flatMap fun part => part inverse (!reflected)) := by
    induction parts with
    | nil => exact .nil
    | cons part parts ih =>
      have first := each part List.mem_cons_self inverse reflected
      have rest := ih fun other member => each other (List.mem_cons_of_mem part member)
      exact List.rel_append first rest
  cases inverse with
  | false => exact flat parts each
  | true => exact flat parts.reverse fun part member => each part (List.mem_reverse.1 member)

end Meaning

theorem Atom.crosses_meaning (n : Nat) (a : Atom) : (a.meaning n).Crosses n := by
  intro inverse reflected
  cases a with
  | nop => exact .nil
  | cycle c => exact .cons (.inl rfl) .nil
  | turn t =>
    -- Undoing a turn leaves its layers as they are, so it may come before or after.
    cases reflected with
    | false =>
      refine .cons (.inl ?_) .nil
      cases inverse <;> rfl
    | true =>
      refine .cons (.inr ?_) .nil
      cases inverse <;> rfl

theorem Wrapper.crosses_meaning {n : Nat} (w : Wrapper) {parts : List Meaning}
    (each : ∀ part ∈ parts, part.Crosses n) : (w.meaning parts).Crosses n := by
  have body := Meaning.Crosses.inSequence each
  intro inverse reflected
  cases w with
  | grouping => exact body inverse reflected
  | shorthand name => exact body inverse reflected
  | inversion => exact body (!inverse) reflected
  | reflection => exact body inverse (!reflected)
  | repetition count =>
    simp only [Wrapper.meaning]
    induction count with
    | zero => exact .nil
    | succ count ih => exact List.rel_append (body inverse reflected) ih

theorem Pairing.crosses_meaning {n : Nat} (p : Pairing) {a b : Meaning} (first : a.Crosses n)
    (second : b.Crosses n) : (p.meaning a b).Crosses n := by
  intro inverse reflected
  have a' (back : Bool) := first back reflected
  have b' (back : Bool) := second back reflected
  cases p with
  | commutation =>
    cases inverse with
    | false => exact List.rel_append (List.rel_append (List.rel_append (a' _) (b' _)) (a' _)) (b' _)
    | true => exact List.rel_append (List.rel_append (List.rel_append (b' _) (a' _)) (b' _)) (a' _)
  | conjugation | rotation =>
    cases inverse <;> exact List.rel_append (List.rel_append (a' _) (b' _)) (a' _)

theorem Form.crosses_meaning {n : Nat} (form : Form) {parts : List Meaning}
    (each : ∀ part ∈ parts, part.Crosses n) : (form.meaning parts).Crosses n := by
  cases form with
  | sequence => exact .inSequence each
  | wrapper w => exact w.crosses_meaning each
  | pairing p =>
    match parts with
    | [a, b] => exact p.crosses_meaning (each a (by simp)) (each b (by simp))
    | [] => exact .nothing n
    | [_] => exact .nothing n
    | _ :: _ :: _ :: _ => exact .nothing n

theorem Script.crosses_meaning {script : Script} (ordered : script.Ordered) (id : Nat) :
    (script.meaning id).Crosses script.layers :=
  meaning_induction ordered (.nothing script.layers)
    (fun _ _ a _ => a.crosses_meaning script.layers) (fun form _ each => form.crosses_meaning each)
    id

/-! ### Runs on both sides -/

namespace Cube

/-- Operations that fail with the refusal of a mask without layers of the cube also do when each is
exchanged, unless a cycle stops before. The two cubes need not be the same, as the turns before may
have been others. -/
theorem exists_refused_of_across {size : Size} {mask : LayerMask}
    (none : ∀ i < size.layers, mask.getLsbD i = false) {ops others : List Op}
    (across : List.Forall₂ (Op.Across size.layers) ops others) {first second after : Cube}
    (valid : first.Valid ∧ first.size = size) (validToo : second.Valid ∧ second.size = size)
    (failed : first.applyAll ops = (after, some (.maskOutOfRange mask size.layers))) :
    ∃ last fault, second.applyAll others = (last, some fault) ∧
      ((∃ other, fault = .maskOutOfRange other size.layers) ∨
        fault = .byteOverflow ∧ ¬ ∀ op ∈ others, op.Oriented) := by
  induction across generalizing first second with
  | nil => cases failed
  | @cons a b ops others pair _ ih =>
    have goOn {next nextToo : Cube} (done : a.apply first = .ok next)
        (doneToo : b.apply second = .ok nextToo) : ∃ last fault,
        second.applyAll (b :: others) = (last, some fault) ∧
          ((∃ other, fault = .maskOutOfRange other size.layers) ∨
            fault = .byteOverflow ∧ ¬ ∀ op ∈ b :: others, op.Oriented) := by
      obtain ⟨validNext, same⟩ := Op.valid_apply valid.1 done
      obtain ⟨validNextToo, sameToo⟩ := Op.valid_apply validToo.1 doneToo
      rw [applyAll, done] at failed
      rw [applyAll, doneToo]
      obtain ⟨last, fault, stopped, reason⟩ :=
        ih ⟨validNext, same.trans valid.2⟩ ⟨validNextToo, sameToo.trans validToo.2⟩ failed
      refine ⟨last, fault, stopped, reason.imp_right fun large => ⟨large.1, fun named => ?_⟩⟩
      exact large.2 fun op member => named op (List.mem_cons_of_mem b member)
    cases a with
    | cycle c =>
      obtain rfl := pair.eq_cycle
      cases done : (Op.cycle c).apply first with
      | ok next =>
        have inside : ∀ item ∈ c.items, item.place < second.size.count c.kind := by
          have fits := Op.fits_of_apply valid.1 done
          rwa [valid.2, ← validToo.2] at fits
        obtain ⟨goes, stops⟩ := Cycle.apply_of_inside validToo.1 inside
        by_cases sums : Cycle.SumsFit second c.kind c.steps
        · exact goOn done (goes sums)
        · refine ⟨second, _, by rw [applyAll, Op.apply, stops sums], .inr ⟨rfl, fun named => ?_⟩⟩
          have oriented : c.Oriented := named (.cycle c) List.mem_cons_self
          exact sums (oriented.sumsFit second)
      | error fault =>
        -- A cycle is never refused for a mask.
        rw [applyAll, done] at failed
        cases failed
        obtain ⟨_, named⟩ | ⟨_, _, _, _, _, _, named⟩ :=
          Cycle.exists_of_apply_eq_error valid.1 done <;> cases named
    | turn t =>
      obtain ⟨u, rfl⟩ := pair.exists_turn
      have stop (refused : ¬ (Op.turn u).Fits size) : ∃ last fault,
          second.applyAll (.turn u :: others) = (last, some fault) ∧
            ((∃ other, fault = .maskOutOfRange other size.layers) ∨
              fault = .byteOverflow ∧ ¬ ∀ op ∈ .turn u :: others, op.Oriented) := by
        rw [← validToo.2] at refused
        refine ⟨second, .maskOutOfRange u.layers size.layers, ?_, .inl ⟨u.layers, rfl⟩⟩
        rw [applyAll, Op.apply_turn_of_not_fits refused, validToo.2]
      by_cases fits : (Op.turn t).Fits size
      · by_cases fitsToo : (Op.turn u).Fits size
        · rw [← valid.2] at fits
          rw [← validToo.2] at fitsToo
          obtain ⟨next, done⟩ := Op.exists_apply_turn_iff.2 fits
          obtain ⟨nextToo, doneToo⟩ := Op.exists_apply_turn_iff.2 fitsToo
          exact goOn done doneToo
        · exact stop fitsToo
      · have refused := fits
        rw [← valid.2] at refused
        rw [applyAll, Op.apply_turn_of_not_fits refused, valid.2] at failed
        cases failed
        exact stop (pair.not_fits none)

end Cube

/-- A mask that is refused has no layers or too many. -/
theorem Cube.not_fits_of_refused {size : Size} {mask : LayerMask} {ops : List Op}
    {cube after : Cube} (valid : cube.Valid) (sized : cube.size = size)
    (failed : cube.applyAll ops = (after, some (.maskOutOfRange mask size.layers))) :
    ¬ (1 ≤ mask.toNat ∧ mask.toNat < 2 ^ size.layers) := by
  obtain ⟨done, op, rest, rfl, before, stopped⟩ := Cube.exists_of_applyAll failed
  obtain ⟨validAfter, kept⟩ := Cube.valid_applyAll valid done
  rw [before] at validAfter kept
  have same : after.size = size := kept.trans sized
  cases op with
  | cycle c =>
    obtain ⟨_, named⟩ | ⟨_, _, _, _, _, _, named⟩ :=
      Cycle.exists_of_apply_eq_error validAfter stopped <;> cases named
  | turn t =>
    intro selects
    by_cases fits : (Op.turn t).Fits after.size
    · obtain ⟨next, made⟩ := Op.exists_apply_turn_iff.2 fits
      cases made.symm.trans stopped
    · rw [Op.apply_turn_of_not_fits fits, same] at stopped
      cases stopped
      rw [same] at fits
      exact fits ⟨by cases t.axis <;> decide, selects⟩

namespace Script

variable {script : Script}

/-- With a reflection of all of it for its root, a script stands for the other side. -/
theorem operations_wrapped_reflection (descends : script.nodes.Descends)
    (other : script.root ≠ script.nodes.size) (range : Range) (inverse : Bool) :
    (script.wrapped .reflection range).operations inverse =
      script.meaning script.root inverse true := by
  rw [operations, meaning_wrapped .reflection range descends other]
  cases inverse <;> simp [Wrapper.meaning, Meaning.inSequence]

/-- A refusal of a mask without layers of the cube is not hidden by a reflection. Only a cycle whose
items name no face may stop the run before. -/
theorem exists_run_wrapped_refused {size : Size} {mask : LayerMask}
    (none : ∀ i < size.layers, mask.getLsbD i = false) (descends : script.nodes.Descends)
    (layers : script.layers = size.layers) (range : Range) {inverse : Bool} {cube after : Cube}
    (valid : cube.Valid) (sized : cube.size = size)
    (failed : script.run inverse cube = (after, some (.maskOutOfRange mask size.layers))) :
    ∃ last fault, (script.wrapped .reflection range).run inverse cube = (last, some fault) ∧
      ((∃ other, fault = .maskOutOfRange other size.layers) ∨
        fault = .byteOverflow ∧ ¬ script.Oriented) := by
  have fitting : cube.size.layers = script.layers := by rw [sized, layers]
  rw [run_eq_applyAll (ordered_of_descends descends) inverse fitting, operations] at failed
  have other : script.root ≠ script.nodes.size := by
    intro missing
    rw [meaning_of_size_le (Nat.le_of_eq missing.symm)] at failed
    cases failed
  have across := crosses_meaning (ordered_of_descends descends) script.root inverse false
  rw [layers] at across
  rw [run_eq_applyAll (ordered_wrapped .reflection range descends other) inverse fitting,
    operations_wrapped_reflection descends other]
  obtain ⟨last, fault, stopped, reason⟩ :=
    Cube.exists_refused_of_across none across ⟨valid, sized⟩ ⟨valid, sized⟩ failed
  refine ⟨last, fault, stopped, reason.imp_right fun large => ⟨large.1, fun oriented => ?_⟩⟩
  exact large.2 (oriented_meaning (ordered_of_descends descends) oriented script.root inverse true)

/-- The script of a single turn. -/
def ofTurn (t : Turn) (layers : Nat) : Script where
  nodes := #[⟨.atom (.turn t), ⟨0, 0⟩⟩]
  root := 0
  layers := layers

theorem descends_ofTurn (t : Turn) (layers : Nat) : (ofTurn t layers).nodes.Descends := by
  intro id node stored child member
  obtain ⟨inside, rfl⟩ := Array.getElem?_eq_some_iff.1 stored
  obtain rfl : id = 0 := Nat.lt_one_iff.1 inside
  cases member

theorem meaning_ofTurn (t : Turn) (layers : Nat) :
    (ofTurn t layers).meaning (ofTurn t layers).root = (Atom.turn t).meaning layers :=
  meaning_of_atom (show (ofTurn t layers).nodes[0]? = some ⟨.atom (.turn t), ⟨0, 0⟩⟩ from rfl) rfl

/-- A turn of layers of the cube and of others is refused as it stands, and made when it is
reflected. -/
theorem run_ofTurn {size : Size} {t : Turn} (refused : ¬ (Op.turn t).Fits size) {i : Nat}
    (inside : i < size.layers) (set : t.layers.getLsbD i = true) (range : Range) :
    (ofTurn t size.layers).run false (.solved size) =
        (.solved size, some (.maskOutOfRange t.layers size.layers)) ∧
      ∃ after, ((ofTurn t size.layers).wrapped .reflection range).run false (.solved size) =
        (after, none) := by
  have descends := descends_ofTurn t size.layers
  have other : (ofTurn t size.layers).root ≠ (ofTurn t size.layers).nodes.size := Nat.zero_ne_one
  constructor
  · rw [run_eq_applyAll (ordered_of_descends descends) false rfl, operations, meaning_ofTurn,
      Atom.meaning, Cube.applyAll]
    have stopped : (Op.turn t).apply (.solved size) =
        .error (.maskOutOfRange t.layers size.layers) := Op.apply_turn_of_not_fits refused
    simp [stopped]
  · rw [run_eq_applyAll (ordered_wrapped .reflection range descends other) false rfl,
      operations_wrapped_reflection descends other, meaning_ofTurn]
    refine Cube.exists_applyAll_of_fits (Cube.valid_solved size) (fun op member => ?_)
      fun op member => ?_
    · cases List.mem_singleton.1 member
      exact trivial
    · cases List.mem_singleton.1 member
      exact Op.fits_reflected inside set

/-- A reflection of a whole script hides no refusal of a mask exactly if cubes of the size never
refuse the mask, or if it selects none of their layers. The reflected script is refused a mask then,
too, unless it stops at a cycle whose items name no face. -/
theorem reflection_keeps_refusals_iff (size : Size) (mask : LayerMask) :
    (∀ script : Script, script.nodes.Descends → script.layers = size.layers →
      ∀ (range : Range) (inverse : Bool) (cube after : Cube), cube.Valid → cube.size = size →
        script.run inverse cube = (after, some (.maskOutOfRange mask size.layers)) →
          ∃ last fault, (script.wrapped .reflection range).run inverse cube = (last, some fault) ∧
            ((∃ other, fault = .maskOutOfRange other size.layers) ∨
              fault = .byteOverflow ∧ ¬ script.Oriented)) ↔
      (1 ≤ mask.toNat ∧ mask.toNat < 2 ^ size.layers) ∨
        ∀ i < size.layers, mask.getLsbD i = false := by
  constructor
  · intro kept
    by_contra neither
    obtain ⟨refused, some⟩ := not_or.1 neither
    push Not at some
    obtain ⟨i, inside, set⟩ := some
    have refusedTurn : ¬ (Op.turn ⟨.x, mask, .quarter⟩).Fits size := fun fits => refused fits.2
    obtain ⟨stops, after, done⟩ :=
      run_ofTurn refusedTurn inside (Bool.eq_true_of_not_eq_false set) ⟨0, 0⟩
    obtain ⟨last, other, stopsToo, _⟩ := kept _ (descends_ofTurn _ _) rfl ⟨0, 0⟩ false _ _
      (Cube.valid_solved size) rfl stops
    cases done.symm.trans stopsToo
  · rintro (fits | none) script descends layers range inverse cube after valid sized failed
    · have fitting : cube.size.layers = script.layers := by rw [sized, layers]
      rw [run_eq_applyAll (ordered_of_descends descends) inverse fitting] at failed
      exact absurd fits (Cube.not_fits_of_refused valid sized failed)
    · exact exists_run_wrapped_refused none descends layers range valid sized failed

/-- A turn of the first and the fourth layer on a cube of three is refused, and a reflection of it
turns the third. -/
theorem exists_reflection_hides_refusal :
    (ofTurn ⟨.x, 0b1001, .quarter⟩ 3).nodes.Descends ∧
      (Cube.solved ⟨3, by decide, by decide⟩).Valid ∧
      (ofTurn ⟨.x, 0b1001, .quarter⟩ 3).run false (.solved ⟨3, by decide, by decide⟩) =
        (.solved ⟨3, by decide, by decide⟩, some (.maskOutOfRange 0b1001 3)) ∧
      ∃ after, ((ofTurn ⟨.x, 0b1001, .quarter⟩ 3).wrapped .reflection ⟨0, 1⟩).run false
        (.solved ⟨3, by decide, by decide⟩) = (after, none) := by
  have refused : ¬ (Op.turn ⟨.x, 0b1001, .quarter⟩).Fits ⟨3, by decide, by decide⟩ := by decide
  have first : (0b1001 : LayerMask).getLsbD 0 = true := by decide
  obtain ⟨stops, goes⟩ := run_ofTurn refused (Nat.zero_lt_succ 2) first ⟨0, 1⟩
  exact ⟨descends_ofTurn _ _, Cube.valid_solved _, stops, goes⟩

end Script

end CubeScript
