import CubeScript.Proofs.Reading.Acting

/-!
# Undoing what has failed

Every way of reading in place is steady, and so is reading a statement, however deeply statements
and shorthands are nested in it. So going back to the old tokens and forgetting the new nodes is all
it takes to undo an attempt: what comes of some attempts, one after the other on one session, is
what comes of them on copies of the session.
-/

namespace CubeScript

namespace InPlace

open CubeScript.Action (Congruence Steady)
open Diagnostic (Context)

variable {r : Reader} {nested : Nested} {context : Context}

section

variable {layers : Nat}

theorem steady_failUnclosed {α : Type} (candidates : List Construct) (bracket : Token) :
    Steady layers (failUnclosed r candidates bracket : Action α) :=
  Steady.scope.bind fun _ => (Steady.range _ _).bind fun _ => .fail _

theorem steady_pair (construct : Construct) (first second : List Nat) (range : Range) :
    Steady layers (pair construct first second range) :=
  (Steady.wrap first).bind fun _ => (Steady.wrap second).bind fun _ => .add _ _

theorem steady_oneLeft (candidates : List Construct) (opening closing : Token) :
    Steady layers (oneLeft candidates context opening closing) := by
  unfold oneLeft
  split
  · exact .pure _
  · exact .fail _
  · exact (Steady.range _ _).bind fun _ => .fail _

theorem steady_completePart (size : Size) (draft : CycleDraft) (t : Token) :
    Steady layers (completePart r size draft t) := by
  refine .ite (.fail _) ?_
  split
  · exact .fail _
  · exact (Steady.range _ _).bind fun _ => (Steady.check _).bind fun _ => .pure _

theorem steady_extendCycle (size : Size) (draft : CycleDraft) (t : Token) :
    Steady layers (extendCycle r size draft t) := by
  unfold extendCycle
  dsimp only
  split
  · exact (Steady.peekIf _ _).bind fun _ => (Steady.check _).bind fun _ => .pure _
  · refine .ite ((Steady.check _).bind fun _ => .pure _) ?_
    split
    · exact (Steady.check _).bind fun _ => .pure _
    · exact (steady_completePart size draft t).bind fun _ => .pure _

theorem steady_parts (size : Size) (bracket : Token) (draft : CycleDraft) :
    Steady layers (parts r size bracket draft) := by
  refine .loop (fun draft => Steady.next.bind fun t => .ite (steady_failUnclosed _ _) ?_) draft
  exact (steady_extendCycle size draft t).bind fun _ => .pure _

theorem steady_signBehind (draft : CycleDraft) (around : Range) :
    Steady layers (signBehind r draft around) := by
  refine .ite (Steady.checkpoint.bind fun c => Steady.next.bind fun t => ?_) (.pure _)
  split
  · exact (Steady.range _ _).bind fun _ => .pure _
  · exact (Steady.restore c).bind fun _ => .pure _

theorem steady_cycle (sign : Option (Cycle.Sign × Range)) :
    Steady r.dialect.layers (cycle r sign) := by
  refine Steady.next.bind fun bracket => (Steady.cubeSize _).bind fun size => ?_
  refine (steady_parts size bracket _).bind fun (draft, stop) => (Steady.range _ _).bind fun _ => ?_
  exact (steady_signBehind draft _).bind fun _ => (Steady.check _).bind fun _ => .add _ _

theorem steady_signedCycle : Steady r.dialect.layers (signedCycle r) := by
  refine Steady.next.bind fun t => Steady.peek.bind fun bracket => .ite (steady_cycle _) ?_
  exact Steady.next.bind fun _ => .fail _

end

/-! ### Reading inside

All of the functions are told how to read the statements inside others. If two ways to do so are
related, so are the functions that go either way. -/

section

variable {layers : Nat} {other : Nested} (R : Congruence layers)
  (inner : ∀ context, R.Rel (nested context) (other context))

include inner

theorem rel_sequence (stop : SymbolSet) :
    R.Rel (sequence r nested context stop) (sequence r other context stop) := by
  refine R.loop (fun ids => R.after .peek fun t => R.ite (R.of_steady (.pure _)) ?_) []
  exact R.before (inner context) fun _ => .pure _

theorem rel_operand (operator : Range) :
    R.Rel (operand nested operator) (operand other operator) := by
  refine R.after .peek fun t => R.ite (R.of_steady ?_) (inner .operand)
  exact (Steady.range _ _).bind fun _ => .fail _

theorem rel_second (construct : Construct) (first : List Nat) (closed : Range) :
    R.Rel (second r nested construct first closed) (second r other construct first closed) := by
  refine R.after .peek fun t => R.ite (R.of_steady ?_) (R.before (inner .operand) fun _ => ?_)
  · exact (Steady.range _ _).bind fun _ => .fail _
  · exact (Steady.cover _ _).bind fun _ => steady_pair ..

theorem rel_close (candidates : List Construct) (opening : Token) (first : List Nat)
    (others : Option (List Nat)) (closing : Token) :
    R.Rel (close r nested candidates context opening first others closing)
      (close r other candidates context opening first others closing) := by
  refine R.after (steady_oneLeft ..) fun construct => R.after (.range _ _) fun closed => ?_
  split
  · exact R.of_steady (.add _ _)
  · exact R.of_steady (.add _ _)
  · exact R.of_steady (.add _ _)
  · exact R.of_steady (steady_pair ..)
  · exact rel_second R inner _ _ _

theorem rel_compound (candidates : List Construct) :
    R.Rel (compound r nested candidates) (compound r other candidates) := by
  refine R.after .next fun opening => R.bind (rel_sequence R inner _) fun first => ?_
  refine R.after .next fun t => R.ite (R.of_steady (steady_failUnclosed _ _)) ?_
  split
  · exact rel_close R inner ..
  · refine R.bind (rel_sequence R inner _) fun others => R.after .next fun t => ?_
    exact R.ite (R.of_steady (steady_failUnclosed _ _)) (rel_close R inner ..)

theorem rel_whole : R.Rel (whole r nested context) (whole r other context) := by
  refine R.before (rel_sequence R inner _) fun ids => Steady.next.bind fun t => ?_
  exact .ite (.pure _) (.fail _)

theorem rel_wrapped (w : Wrapper) (operator : Range) :
    R.Rel (wrapped nested w operator) (wrapped other w operator) :=
  R.before (rel_operand R inner operator) fun _ => (Steady.cover _ _).bind fun _ => .add _ _

theorem rel_repeated : R.Rel (repeated r nested) (repeated r other) := by
  refine R.after .next fun number => R.after (.check _) fun count => R.after .peek fun t => ?_
  refine R.ite (R.after .next fun _ => rel_wrapped R inner _ _) ?_
  exact R.ite (rel_wrapped R inner _ _) (R.of_steady (Steady.next.bind fun _ => .fail _))

theorem rel_bracketBehind (candidates : List Construct) (id begins : Nat) (opening : Token) :
    R.Rel (bracketBehind r nested candidates id begins opening)
      (bracketBehind r other candidates id begins opening) := by
  refine R.before (rel_sequence R inner _) fun others => Steady.next.bind fun t => ?_
  refine .ite (steady_failUnclosed _ _) ((steady_oneLeft ..).bind fun construct => ?_)
  exact (Steady.range _ _).bind fun _ => steady_pair ..

theorem rel_delimiterBehind (candidates : List Construct) (id : Nat) (delimiter through : Range) :
    R.Rel (delimiterBehind nested candidates id delimiter through)
      (delimiterBehind other candidates id delimiter through) := by
  unfold delimiterBehind
  split
  · refine R.before (rel_operand R inner _) fun _ => (Steady.cover _ _).bind fun _ => ?_
    exact steady_pair ..
  · exact R.of_steady (.fail _)

theorem rel_extendBy (id : Nat) (t : Token) (through : Range) (behind : Reader.Behind) :
    R.Rel (extendBy r nested context id t through behind)
      (extendBy r other context id t through behind) := by
  cases behind with
  | wrap w => exact R.of_steady (.add _ _)
  | count => exact R.of_steady ((Steady.check _).bind fun _ => .add _ _)
  | countNext =>
    refine R.of_steady (Steady.next.bind fun number => .ite (.fail _) ?_)
    exact (Steady.check _).bind fun _ => (Steady.range _ _).bind fun _ => .add _ _
  | bracket candidates => exact rel_bracketBehind R inner ..
  | delimiter candidates => exact rel_delimiterBehind R inner ..

theorem rel_extend (id : Nat) :
    R.Rel (extend r nested context id) (extend r other context id) := by
  refine R.after .checkpoint fun c => R.after .next fun t => ?_
  refine R.ite (R.of_steady ((Steady.restore c).bind fun _ => .pure _)) ?_
  refine R.after (.rangeOf id) fun _ => R.after (.range _ _) fun through => ?_
  refine R.after (.peekIf _ _) fun next => ?_
  cases r.behind? t next with
  | none => exact R.of_steady ((Steady.restore c).bind fun _ => .pure _)
  | some behind => exact R.before (rel_extendBy R inner ..) fun _ => .pure _

theorem rel_behind (id : Nat) :
    R.Rel (behind r nested context id) (behind r other context id) :=
  R.loop (rel_extend R inner) id

end

/-- All ways to begin a statement stay in the text, but for a shorthand. -/
theorem rel_start {other : Nested} (R : Congruence r.dialect.layers)
    (inner : ∀ context, R.Rel (nested context) (other context)) {way : Start}
    (leaves : way = .shorthand → R.Rel (shorthand r nested context) (shorthand r other context)) :
    R.Rel (start r nested context way) (start r other context way) := by
  cases way with
  | turn =>
    refine R.of_steady (Steady.next.bind fun t => ?_)
    split
    · exact .add _ _
    · exact .fail _
  | nop => exact R.of_steady (Steady.next.bind fun _ => .add _ _)
  | shorthand => exact leaves rfl
  | compound candidates => exact rel_compound R inner candidates
  | cycle => exact R.of_steady (steady_cycle none)
  | signedCycle => exact R.of_steady steady_signedCycle
  | inversion => exact R.after .next fun _ => rel_wrapped R inner _ _
  | reflection => exact R.after .next fun _ => rel_wrapped R inner _ _
  | repetition => exact rel_repeated R inner

section

variable {layers : Nat} (inner : ∀ context, Steady layers (nested context))

include inner

theorem rel_steady (context : Context) :
    (Congruence.steady layers).Rel (nested context) (nested context) :=
  inner context

theorem steady_shorthand : Steady layers (shorthand r nested context) := by
  refine Steady.next.bind fun t => ?_
  split
  · exact .fail _
  · refine Steady.scope.bind fun scope => .ite (.fail _) ?_
    have body : Steady layers (whole r nested .shorthand) := rel_whole _ (rel_steady inner)
    exact .bind (.gatherAt _ (.mapProblem _ (.inside _ body))) fun _ => .add _ _

theorem steady_behind (id : Nat) : Steady layers (behind r nested context id) :=
  rel_behind _ (rel_steady inner) id

end

theorem steady_start (inner : ∀ context, Steady r.dialect.layers (nested context)) (way : Start) :
    Steady r.dialect.layers (start r nested context way) :=
  rel_start _ (rel_steady inner) fun _ => steady_shorthand inner

/-! ### Attempts one after the other -/

/-- Whether a diagnostic is that of the attempt that got furthest among some attempts which fail,
and of the first one among those that got equally far. -/
def IsFurthest {α : Type} (problem : α → Diagnostic) (ways : List α) (d : Diagnostic) : Prop :=
  ∃ earlier way later, ways = earlier ++ way :: later ∧ problem way = d ∧
    (∀ other ∈ earlier, (problem other).range.stop < d.range.stop) ∧
    ∀ other ∈ later, (problem other).range.stop ≤ d.range.stop

namespace IsFurthest

variable {α : Type} {problem : α → Diagnostic} {ways : List α} {d : Diagnostic}

theorem single (problem : α → Diagnostic) (way : α) : IsFurthest problem [way] (problem way) :=
  ⟨[], way, [], rfl, rfl, nofun, nofun⟩

theorem le (furthest : IsFurthest problem ways d) :
    ∀ way ∈ ways, (problem way).range.stop ≤ d.range.stop := by
  obtain ⟨earlier, first, later, rfl, rfl, before, behind⟩ := furthest
  intro way member
  obtain member | member := List.mem_append.1 member
  · exact Nat.le_of_lt (before way member)
  · obtain rfl | member := List.mem_cons.1 member
    · exact Nat.le_refl _
    · exact behind way member

theorem concat (furthest : IsFurthest problem ways d) (way : α) :
    IsFurthest problem (ways ++ [way]) (d.furthest (problem way)) := by
  rw [Diagnostic.furthest]
  split
  · rename_i further
    refine ⟨ways, way, [], rfl, rfl, fun other member => ?_, nofun⟩
    exact Nat.lt_of_le_of_lt (furthest.le other member) further
  · rename_i nearer
    obtain ⟨earlier, first, later, rfl, rfl, before, behind⟩ := furthest
    refine ⟨earlier, first, later ++ [way], by simp, rfl, before, fun other member => ?_⟩
    obtain member | member := List.mem_append.1 member
    · exact behind other member
    · rw [List.mem_singleton.1 member]
      exact Nat.le_of_not_lt nearer

/-- The attempt that got furthest is found by comparing each with the best one before. -/
theorem foldl (furthest : IsFurthest problem ways d) (more : List α) :
    ∃ e, more.foldl (fun best way => some (best.elim (problem way) (·.furthest (problem way))))
      (some d) = some e ∧ IsFurthest problem (ways ++ more) e := by
  induction more generalizing ways d with
  | nil => exact ⟨d, rfl, by rwa [List.append_nil]⟩
  | cons way more ih =>
    obtain ⟨e, best, final⟩ := ih (furthest.concat way)
    exact ⟨e, best, by rwa [List.append_assoc] at final⟩

end IsFurthest

section

variable {α β : Type} {layers : Nat} {attempt : α → Action β} {s : Session}

/-- An attempt that fails is undone. -/
theorem tryEach_cons (way : α) (ways : List α) (furthest : Option Diagnostic) (t : Session) :
    tryEach attempt context s.tokens.checkpoint s.arena.size furthest (way :: ways) t =
      match attempt way t with
      | (.error (.problem d), u) =>
        tryEach attempt context s.tokens.checkpoint s.arena.size
          (some (furthest.elim d (·.furthest d))) ways (s.undo u)
      | outcome => outcome := by
  rw [tryEach]
  rfl

/-- An attempt that is undone leaves the old session, but for the size of the cube. -/
theorem undo_attempt (steady : ∀ way, Steady layers (attempt way)) {t : Session}
    (same : t = s ∨ t = s.fill layers) (way : α) :
    s.undo (attempt way t).2 = s ∨ s.undo (attempt way t).2 = s.fill layers := by
  have undone := ((steady way).grows t).undo
  obtain rfl | rfl := same
  · exact undone
  · rw [Session.fill_fill] at undone
    exact undone.elim .inr .inr

/-- An attempt comes to the same end whether the size of the cube has been looked up or not. -/
theorem attempt_fst (steady : ∀ way, Steady layers (attempt way)) {t : Session}
    (same : t = s ∨ t = s.fill layers) (way : α) : (attempt way t).1 = (attempt way s).1 := by
  obtain rfl | rfl := same
  · rfl
  · rw [(steady way).same s]

theorem tryEach_of_fails (context : Context) (steady : ∀ way, Steady layers (attempt way))
    {t : Session} (same : t = s ∨ t = s.fill layers) {way : α} {d : Diagnostic}
    (fails : (attempt way s).1 = .error (.problem d)) (furthest : Option Diagnostic)
    (ways : List α) : ∃ u, (u = s ∨ u = s.fill layers) ∧
      tryEach attempt context s.tokens.checkpoint s.arena.size furthest (way :: ways) t =
        tryEach attempt context s.tokens.checkpoint s.arena.size
          (some (furthest.elim d (·.furthest d))) ways u := by
  refine ⟨_, undo_attempt steady same way, ?_⟩
  rw [← attempt_fst steady same] at fails
  rw [tryEach_cons]
  rcases outcome : attempt way t with ⟨result, u⟩
  rw [outcome] at fails
  obtain rfl : result = .error (.problem d) := fails
  rfl

theorem tryEach_of_ends (steady : ∀ way, Steady layers (attempt way)) {t : Session}
    (same : t = s ∨ t = s.fill layers) {way : α}
    (ends : ∀ d, (attempt way s).1 ≠ .error (.problem d)) (furthest : Option Diagnostic)
    (ways : List α) :
    tryEach attempt context s.tokens.checkpoint s.arena.size furthest (way :: ways) t =
      attempt way t := by
  rw [tryEach_cons]
  split
  · rename_i d u outcome
    have fails := attempt_fst steady same way
    rw [outcome] at fails
    exact absurd fails.symm (ends d)
  · rfl

/-- The first attempt that does not fail counts. -/
theorem tryEach_eq_first (steady : ∀ way, Steady layers (attempt way)) {t : Session}
    (same : t = s ∨ t = s.fill layers) {earlier later : List α} {way : α}
    (fails : ∀ other ∈ earlier, ∃ d, (attempt other s).1 = .error (.problem d))
    (ends : ∀ d, (attempt way s).1 ≠ .error (.problem d)) (furthest : Option Diagnostic) :
    (tryEach attempt context s.tokens.checkpoint s.arena.size furthest
        (earlier ++ way :: later) t).1 = (attempt way s).1 ∧
      (tryEach attempt context s.tokens.checkpoint s.arena.size furthest
        (earlier ++ way :: later) t).2.Alike (attempt way s).2 := by
  induction earlier generalizing t furthest with
  | nil =>
    rw [List.nil_append, tryEach_of_ends steady same ends]
    refine ⟨attempt_fst steady same way, ?_⟩
    obtain rfl | rfl := same
    · exact ⟨rfl, rfl, rfl, rfl⟩
    · rw [(steady way).same s]
      exact Session.alike_fill _
  | cons other earlier ih =>
    obtain ⟨d, failed⟩ := fails other List.mem_cons_self
    obtain ⟨u, again, went⟩ :=
      tryEach_of_fails context steady same failed furthest (earlier ++ way :: later)
    rw [List.cons_append, went]
    exact ih again (fun other member => fails other (List.mem_cons_of_mem _ member)) _

/-- If all attempts fail, the one that got furthest says what is wrong. -/
theorem tryEach_of_all_fail (context : Context)
    (steady : ∀ way, Steady layers (attempt way)) {t : Session}
    (same : t = s ∨ t = s.fill layers) {ways : List α} {problem : α → Diagnostic}
    (fails : ∀ way ∈ ways, (attempt way s).1 = .error (.problem (problem way)))
    (furthest : Option Diagnostic) : ∃ u, (u = s ∨ u = s.fill layers) ∧
      tryEach attempt context s.tokens.checkpoint s.arena.size furthest ways t =
        (.error (.problem ((ways.foldl (fun furthest way =>
          some (furthest.elim (problem way) (·.furthest (problem way)))) furthest).getD
            (.unexpected u.tokens.next.1 context))), { u with tokens := u.tokens.peek.2 }) := by
  induction ways generalizing t furthest with
  | nil => exact ⟨t, same, rfl⟩
  | cons way ways ih =>
    obtain ⟨u, again, went⟩ :=
      tryEach_of_fails context steady same (fails way List.mem_cons_self) furthest ways
    rw [went, List.foldl_cons]
    exact ih again (fun other member => fails other (List.mem_cons_of_mem _ member)) _

theorem steady_tryEach (steady : ∀ way, Steady layers (attempt way)) {t : Session}
    (same : t = s ∨ t = s.fill layers) (furthest : Option Diagnostic) (ways : List α) :
    let tries := tryEach attempt context s.tokens.checkpoint s.arena.size furthest ways
    s.Grows layers (tries t).2 ∧
      tries (t.fill layers) = ((tries t).1, (tries t).2.fill layers) := by
  induction ways generalizing t furthest with
  | nil =>
    have peeks : Steady layers (tryEach attempt context s.tokens.checkpoint s.arena.size furthest
        []) := Steady.peek.bind fun _ => .fail _
    exact ⟨(Session.Grows.of_same same).trans (peeks.grows t), peeks.same t⟩
  | cons way ways ih =>
    intro tries
    have grows := (Session.Grows.of_same same).trans ((steady way).grows t)
    have undone := undo_attempt steady same way
    simp only [tries, tryEach_cons, (steady way).same t]
    rcases outcome : attempt way t with ⟨(d | _ | _) | b, u⟩ <;> rw [outcome] at grows undone
    · exact ih undone _
    · exact ⟨grows, rfl⟩
    · exact ⟨grows, rfl⟩
    · exact ⟨grows, rfl⟩

/-- Trying is steady, too: what has failed is undone. -/
theorem steady_alternatives (steady : ∀ way, Steady layers (attempt way)) (ways : List α) :
    Steady layers (alternatives attempt context ways) where
  grows s := (steady_tryEach (s := s) steady (.inl rfl) none ways).1
  same s := (steady_tryEach (s := s) steady (.inl rfl) none ways).2

end

theorem steady_beginning (inner : ∀ context, Steady r.dialect.layers (nested context)) (t : Token) :
    Steady r.dialect.layers (beginning r nested context t) := by
  unfold beginning
  split
  · exact .fail _
  · exact steady_start inner _
  · exact steady_alternatives (steady_start inner) _

/-- Reading a statement is steady, however deeply statements may be nested in it. -/
theorem steady_statement (r : Reader) (levels : Nat) (context : Context) :
    Steady r.dialect.layers (statement r levels context) := by
  induction levels generalizing context with
  | zero => exact .halt _
  | succ levels ih =>
    refine Steady.peek.bind fun t => .ite (.fail _) (.get_bind (fun _ => rfl) fun s => ?_)
    exact .ite (.fail _) (.nest ((steady_beginning ih t).bind (steady_behind ih)))

/-- What comes of reading the beginning of a statement in one of some ways is what comes of it on
copies of the session. The first way that does not fail counts, with all that it does. If all fail,
the one that got furthest says what is wrong, and the session is as it was, but that the size of
the cube may have been looked up. -/
theorem alternatives_on_copies (r : Reader) (levels : Nat) (context : Context)
    (ways : List Start) (before : Session) :
    let s := (Action.peek before).2
    let attempt (way : Start) := start r (statement r levels) context way s
    let outcome := alternatives (start r (statement r levels) context) context ways s
    (∀ earlier way later, ways = earlier ++ way :: later →
      (∀ other ∈ earlier, ∃ d, (attempt other).1 = .error (.problem d)) →
      (∀ d, (attempt way).1 ≠ .error (.problem d)) →
      outcome.1 = (attempt way).1 ∧ outcome.2.Alike (attempt way).2) ∧
    ∀ problem : Start → Diagnostic,
      (∀ way ∈ ways, (attempt way).1 = .error (.problem (problem way))) →
      (outcome.2 = s ∨ outcome.2 = s.fill r.dialect.layers) ∧
      ∃ d, outcome.1 = .error (.problem d) ∧
        (ways = [] ∧ d = .unexpected s.tokens.next.1 context ∨ IsFurthest problem ways d) := by
  intro s attempt outcome
  have steady (way : Start) : Steady r.dialect.layers (start r (statement r levels) context way) :=
    steady_start (steady_statement r levels) way
  constructor
  · rintro earlier way later rfl fails ends
    exact tryEach_eq_first steady (.inl rfl) fails ends none
  · intro problem fails
    obtain ⟨u, same, all⟩ := tryEach_of_all_fail context steady (.inl rfl) fails none
    have tokens : u.tokens = before.tokens.peek.2 := by
      obtain rfl | rfl := same <;> rfl
    have still : { u with tokens := u.tokens.peek.2 } = u := by
      rw [tokens, Tokenizer.peek_peek, ← tokens]
    rw [still] at all
    have ends : outcome = _ := all
    rw [ends]
    refine ⟨same, _, rfl, ?_⟩
    cases ways with
    | nil => exact .inl ⟨rfl, by rw [tokens]; rfl⟩
    | cons way ways =>
      obtain ⟨d, best, furthest⟩ := (IsFurthest.single problem way).foldl ways
      right
      rw [List.foldl_cons, Option.elim_none, best]
      exact furthest

/-- A dialect with the same brackets around statements and around cycles, in which a letter is a
face and also a statement. -/
def lettered : Dialect where
  layers := 2
  symbols t :=
    if t = "(" then .ofList [.groupingBegin, .permutationBegin]
    else if t = ")" then .ofList [.groupingEnd, .permutationEnd]
    else if t = "," then .ofList [.permutationDelimiter]
    else if t = "R" then .ofList [.nop, .face .right]
    else if t = "F" then .ofList [.nop, .face .front]
    else if t = "U" then .ofList [.nop, .face .up]
    else .ofList [.nop, .face .down]
  allows _ placement := placement = .around
  supports _ := true
  expansion? _ := none
  turn? _ := none
  keywords := ["(", ")", ",", "R", "F", "U", "D"]

/-- The problem that reading has found, if there is one. -/
def problem? {α : Type} : Except Halt α → Option Diagnostic
  | .error (.problem d) => some d
  | _ => none

theorem problem?_eq_some_iff {α : Type} {outcome : Except Halt α} {d : Diagnostic} :
    problem? outcome = some d ↔ outcome = .error (.problem d) := by
  rcases outcome with (e | _ | _) | a <;> simp [problem?]

/-- Three letters and a comma are no group. The nodes of the letters are forgotten, and the cycle
that is read instead has the first number. -/
theorem alternatives_on_copies_cycle :
    let r : Reader := { dialect := lettered }
    let s := (Action.peek { tokens := .start r.lexer "(RFU,RDF) R" }).2
    let group : Start := .compound [.grouping]
    let attempt (way : Start) := start r (statement r 65) .script way s
    let outcome := alternatives (start r (statement r 65) .script) .script [group, .cycle] s
    ((problem? (attempt group).1).isSome ∧ (attempt group).2.arena.size = 3) ∧
      outcome.1.toOption = some 0 ∧ outcome.2.arena.size = 1 ∧
        outcome.2.tokens.remaining.length = 1 := by
  intro r s group attempt outcome
  have group_fails : (problem? (attempt group).1).isSome := by decide +kernel
  have cycle_ends : (problem? (attempt .cycle).1).isNone := by decide +kernel
  obtain ⟨d, problem⟩ := Option.isSome_iff_exists.1 group_fails
  have copies := alternatives_on_copies r 65 .script [group, .cycle]
    { tokens := .start r.lexer "(RFU,RDF) R" }
  obtain ⟨result, alike⟩ := copies.1 [group] .cycle [] rfl
    (fun other member =>
      ⟨d, List.mem_singleton.1 member ▸ problem?_eq_some_iff.1 problem⟩)
    fun d fails => by
      rw [problem?_eq_some_iff.2 fails] at cycle_ends
      cases cycle_ends
  refine ⟨⟨group_fails, by decide +kernel⟩, ?_⟩
  change outcome.1 = _ at result
  change outcome.2.Alike _ at alike
  rw [result, alike.arena, alike.tokens]
  decide +kernel

end InPlace

end CubeScript
