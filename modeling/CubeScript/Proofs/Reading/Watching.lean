import CubeScript.Dialect.Standard
import CubeScript.Proofs.Reading.Faithful
import CubeScript.Proofs.Text.Bounding

/-!
# Reading within limits

A session counts how many statements are being read, one inside the other, and how many texts of
shorthands. The numbers can also be had from the calls themselves: each call knows how many calls
it is made in. A watched reader is told so by every caller (`Counts`). It compares the numbers with
what the session counts, and with the limits, where a statement, an attempt at its beginning or the
text of a shorthand begins and wherever one ends, by success or by failure. If anything is wrong it
raises an alarm.

No alarm is ever raised: whatever it is, the watched reader comes to the same as the reader itself
(`InPlace.read_watched`). So the counters are right all the time, never beyond the limits, and back
to what they were on every return. Neither is the reader itself ever stopped because a loop goes on
without taking a token or because there are no levels left to be read, so reading always ends.

This is so as long as all texts are short enough for offsets of 32 bits, in which the tokenizers
then answer alike. In a longer text the same token may be handed out again and again, and reading
goes on for ever (`Reader.exists_read_again`).
-/

namespace CubeScript

/-- How many statements, and how many texts of shorthands, are being read around some place. -/
@[ext] structure Counts where
  statements : Nat
  texts : Nat
  deriving DecidableEq

/-- What a session counts. -/
def Session.counters (s : Session) : Counts := ⟨s.nesting, s.depth⟩

theorem Session.Grows.counters {layers : Nat} {s t : Session} (grows : s.Grows layers t) :
    t.counters = s.counters :=
  Counts.ext grows.nesting grows.depth

namespace Counts

/-- The counts inside one more statement. -/
def inStatement (c : Counts) : Counts := { c with statements := c.statements + 1 }

/-- The counts inside the text of one more shorthand. -/
def inText (c : Counts) : Counts := { c with texts := c.texts + 1 }

/-- Whether a session counts right, and no more than the limits of a reader allow. -/
structure Right (r : Reader) (c : Counts) (s : Session) : Prop where
  counters : s.counters = c
  statements_le : c.statements ≤ r.maxNesting
  texts_le : c.texts ≤ r.maxShorthandDepth

instance (r : Reader) (c : Counts) (s : Session) : Decidable (c.Right r s) :=
  decidable_of_iff
    (s.counters = c ∧ c.statements ≤ r.maxNesting ∧ c.texts ≤ r.maxShorthandDepth)
    ⟨fun ⟨counters, statements, texts⟩ => ⟨counters, statements, texts⟩,
      fun right => ⟨right.counters, right.statements_le, right.texts_le⟩⟩

namespace Right

variable {r : Reader} {c : Counts} {s : Session} (right : c.Right r s)

include right

/-- Only the counters of a session matter to whether it counts right. -/
theorem of_counters {t : Session} (same : t.counters = s.counters) : c.Right r t :=
  ⟨same.trans right.counters, right.statements_le, right.texts_le⟩

theorem depth : s.depth = c.texts := congrArg texts right.counters

theorem nest (room : c.statements < r.maxNesting) :
    c.inStatement.Right r { s with nesting := s.nesting + 1 } :=
  ⟨congrArg inStatement right.counters, room, right.texts_le⟩

theorem inside (room : c.texts < r.maxShorthandDepth) (tokens : Tokenizer) :
    c.inText.Right r { s with tokens, depth := s.depth + 1 } :=
  ⟨congrArg inText right.counters, right.statements_le, room⟩

end Right

end Counts

namespace Action

variable {α β : Type}

/-- Do something, and raise an alarm if the counts are wrong before or after it. -/
def watch (r : Reader) (alarm : Halt) (c : Counts) (m : Action α) : Action α := fun s =>
  if c.Right r s then
    if c.Right r (m s).2 then m s else (.error alarm, (m s).2)
  else (.error alarm, s)

/-- Whether two actions do the same wherever the counts are right, and leave them right. -/
structure SameAt (r : Reader) (c : Counts) (m n : Action α) : Prop where
  same : ∀ s, c.Right r s → m s = n s
  keeps : ∀ s, c.Right r s → c.Right r (n s).2

namespace SameAt

variable {r : Reader} {c : Counts}

/-- What is steady comes back from whatever it goes into. -/
theorem of_steady {m : Action α} (steady : Steady r.dialect.layers m) : SameAt r c m m where
  same _ _ := rfl
  keeps s right := right.of_counters (steady.grows s).counters

theorem bind {m n : Action α} {f g : α → Action β} (first : SameAt r c m n)
    (next : ∀ a, SameAt r c (f a) (g a)) : SameAt r c (m >>= f) (n >>= g) where
  same s right := by
    have kept := first.keeps s right
    rw [bind_on, bind_on, first.same s right]
    rcases outcome : n s with ⟨halt | a, t⟩
    · rfl
    · rw [outcome] at kept
      exact (next a).same t kept
  keeps s right := by
    have kept := first.keeps s right
    rw [bind_on]
    rcases outcome : n s with ⟨halt | a, t⟩
    · rw [outcome] at kept
      exact kept
    · rw [outcome] at kept
      exact (next a).keeps t kept

theorem get_bind {f g : Session → Action β}
    (next : ∀ s, c.Right r s → SameAt r c (f s) (g s)) : SameAt r c (get >>= f) (get >>= g) where
  same s right := (next s right).same s right
  keeps s right := (next s right).keeps s right

theorem scope_bind {f g : Scope → Action β}
    (next : ∀ length, SameAt r c (f ⟨length, c.texts⟩) (g ⟨length, c.texts⟩)) :
    SameAt r c (scope >>= f) (scope >>= g) where
  same s right := by
    have same := (next s.tokens.textEnd).same s right
    rwa [← right.depth] at same
  keeps s right := by
    have keeps := (next s.tokens.textEnd).keeps s right
    rwa [← right.depth] at keeps

theorem ite {p : Prop} [Decidable p] {m n k l : Action α} (yes : p → SameAt r c m n)
    (no : ¬ p → SameAt r c k l) : SameAt r c (if p then m else k) (if p then n else l) := by
  split
  · exact yes ‹_›
  · exact no ‹_›

theorem loop {step other : α → Action (α ⊕ β)} (steps : ∀ a, SameAt r c (step a) (other a))
    (a : α) : SameAt r c (loop step a) (loop other a) where
  same s right := by
    fun_induction Action.loop other a s with
    | case1 a s halt t outcome => rw [Action.loop, (steps a).same s right, outcome]
    | case2 a s b t outcome => rw [Action.loop, (steps a).same s right, outcome]
    | case3 a s next t outcome shorter ih =>
      have kept := (steps a).keeps s right
      rw [outcome] at kept
      rw [Action.loop, (steps a).same s right, outcome]
      exact (if_pos shorter).trans (ih kept)
    | case4 a s next t outcome longer =>
      rw [Action.loop, (steps a).same s right, outcome]
      exact if_neg longer
  keeps s right := by
    fun_induction Action.loop other a s with
    | case1 a s halt t outcome | case2 a s b t outcome =>
      have kept := (steps a).keeps s right
      rwa [outcome] at kept
    | case3 a s next t outcome shorter ih =>
      have kept := (steps a).keeps s right
      rw [outcome] at kept
      exact ih kept
    | case4 a s next t outcome longer =>
      have kept := (steps a).keeps s right
      rwa [outcome] at kept

end SameAt

/-- To do the same where the counts are right is kept when actions are put together. -/
def Congruence.sameAt (r : Reader) (c : Counts) : Congruence r.dialect.layers where
  Rel := SameAt r c
  of_steady := .of_steady
  bind := .bind
  loop := .loop

namespace SameAt

variable {r : Reader} {c : Counts}

theorem after {m : Action α} {f g : α → Action β} (first : Steady r.dialect.layers m)
    (next : ∀ a, SameAt r c (f a) (g a)) : SameAt r c (m >>= f) (m >>= g) :=
  (Congruence.sameAt r c).after first next

theorem gatherAt (range : Range) {m n : Action α} (inner : SameAt r c m n) :
    SameAt r c (gatherAt range m) (gatherAt range n) where
  same s right := by rw [gatherAt_on, gatherAt_on, inner.same s right]
  keeps s right := by
    have kept := inner.keeps s right
    rw [gatherAt_on]
    rcases outcome : n s with ⟨halt | a, t⟩
    · rw [outcome] at kept
      exact kept
    · rw [outcome] at kept
      exact kept.of_counters rfl

theorem mapProblem (f : Diagnostic → Diagnostic) {m n : Action α} (inner : SameAt r c m n) :
    SameAt r c (mapProblem f m) (mapProblem f n) where
  same s right := by rw [Action.mapProblem, Action.mapProblem, inner.same s right]
  keeps s right := by
    have kept := inner.keeps s right
    rw [Action.mapProblem]
    rcases outcome : n s with ⟨(d | _ | _) | a, t⟩ <;>
    · rw [outcome] at kept
      exact kept

/-- Inside a statement the counts are those inside a statement, if there is room for one. -/
theorem nest (room : c.statements < r.maxNesting) {m n : Action α}
    (inner : SameAt r c.inStatement m n) : SameAt r c (nest m) (nest n) where
  same s right := by rw [Action.nest, Action.nest, inner.same _ (right.nest room)]
  keeps s right := by
    have kept := inner.keeps _ (right.nest room)
    refine ⟨?_, right.statements_le, right.texts_le⟩
    exact congrArg (fun k => { k with statements := k.statements - 1 }) kept.counters

theorem inside (room : c.texts < r.maxShorthandDepth) (tokens : Tokenizer) {m n : Action α}
    (inner : SameAt r c.inText m n) : SameAt r c (inside tokens m) (inside tokens n) where
  same s right := by rw [Action.inside, Action.inside, inner.same _ (right.inside room tokens)]
  keeps s right := by
    have kept := inner.keeps _ (right.inside room tokens)
    refine ⟨?_, right.statements_le, right.texts_le⟩
    exact congrArg (fun k => { k with texts := k.texts - 1 }) kept.counters

/-- No alarm is raised where the counts are right. -/
theorem watch (alarm : Halt) {m n : Action α} (inner : SameAt r c m n) :
    SameAt r c (watch r alarm c m) n where
  same s right := by
    rw [Action.watch, if_pos right, inner.same s right, if_pos (inner.keeps s right)]
  keeps := inner.keeps

end SameAt

end Action

namespace InPlace

open CubeScript.Action
open Diagnostic (Context unexpected)

/-! ### The watched reader -/

section

variable (r : Reader) (alarm : Halt)

/-- Read a shorthand whose text is watched. -/
def watchedShorthand (c : Counts) (nested : Nested) (context : Context) : Action Nat := do
  let t ← next
  match r.dialect.expansion? t.text with
  | none => fail (unexpected t context)
  | some text =>
    let scope ← scope
    if r.maxShorthandDepth ≤ scope.depth then
      fail { problem := .shorthandTooDeep t.text r.maxShorthandDepth, range := t.range }
    else
      let because (cause : Diagnostic) : Diagnostic :=
        { problem := .shorthandBody t.text, range := t.range, cause := some cause }
      let body ← gatherAt t.range (mapProblem because
        (inside (.start r.lexer text) (watch r alarm c.inText (whole r nested .shorthand))))
      add (.group (.wrapper (.shorthand t.text)) body) t.range

/-- Watch an attempt to read the beginning of a statement. The statements in the text of a shorthand
are told by `inText` where they are. -/
def watchedStart (c : Counts) (nested inText : Nested) (context : Context) (way : Start) :
    Action Nat :=
  watch r alarm c (match way with
    | .shorthand => watchedShorthand r alarm c inText context
    | way => start r nested context way)

/-- Watch all attempts to read the beginning of a statement. -/
def watchedBeginning (c : Counts) (nested inText : Nested) (context : Context) (t : Token) :
    Action Nat :=
  match r.dialect.starts t with
  | [] => fail (Reader.noStart t context)
  | [way] => watchedStart r alarm c nested inText context way
  | ways => alternatives (watchedStart r alarm c nested inText context) context ways

/-- Watch a statement, from without and from within. -/
def watchedStatement : (levels : Nat) → Counts → Nested
  | 0, _, _ => throw .endless
  | levels + 1, c, context => watch r alarm c do
    let t ← peek
    if t.isEnd then fail (unexpected t context)
    else if r.maxNesting ≤ (← get).nesting then
      fail { problem := .nestedTooDeeply r.maxNesting, range := t.range }
    else nest (watch r alarm c.inStatement do
      let nested := watchedStatement levels c.inStatement
      let inText := watchedStatement levels c.inStatement.inText
      let id ← watchedBeginning r alarm c.inStatement nested inText context t
      behind r nested context id)

/-- Read the statements of a text and make them the root of a script, and watch it all. -/
def watchedScript (text : String) : Action Script := watch r alarm ⟨0, 0⟩ do
  let ids ← whole r (watchedStatement r alarm (r.maxNesting + 1) ⟨0, 0⟩) .script
  let range ← range 0 text.utf8ByteSize
  let root ← add (.group .sequence ids) range
  return ⟨(← get).arena, root, r.dialect.layers⟩

/-- Read a script and watch it. -/
def watchedRead (text : String) : Except Halt Script :=
  (watchedScript r alarm text { tokens := .start r.lexer text }).1

end

/-! ### The same without alarms -/

section

variable {r : Reader} {c : Counts} {nested inText other : Nested} {context : Context}
  (alarm : Halt)

/-- The text of a shorthand is only read if there is room for one more. -/
theorem sameAt_shorthand (inner : ∀ context, SameAt r c.inText (inText context) (other context)) :
    SameAt r c (watchedShorthand r alarm c inText context) (shorthand r other context) := by
  refine .after .next fun t => ?_
  cases r.dialect.expansion? t.text with
  | none => exact .of_steady (.fail _)
  | some text =>
    refine .scope_bind fun length => .ite (fun _ => .of_steady (.fail _)) fun room => ?_
    have body : SameAt r c.inText (watch r alarm c.inText (whole r inText .shorthand))
        (whole r other .shorthand) := .watch alarm (rel_whole (.sameAt r c.inText) inner)
    refine (Congruence.sameAt r c).before ?_ fun _ => .add _ _
    exact .gatherAt _ (.mapProblem _ (.inside (Nat.lt_of_not_le room) _ body))

theorem sameAt_start (inner : ∀ context, SameAt r c (nested context) (other context))
    (within : ∀ context, SameAt r c.inText (inText context) (other context)) (way : Start) :
    SameAt r c (watchedStart r alarm c nested inText context way)
      (start r other context way) := by
  refine .watch alarm ?_
  cases way with
  | shorthand => exact sameAt_shorthand alarm within
  | _ =>
    refine rel_start (.sameAt r c) inner ?_
    rintro ⟨⟩

/-- An attempt that is undone leaves the counters as they are. -/
theorem sameAt_tryEach {α β : Type} {attempt another : α → Action β}
    (attempts : ∀ way, SameAt r c (attempt way) (another way)) (before : Session)
    (furthest : Option Diagnostic) (ways : List α) :
    SameAt r c
      (tryEach attempt context before.tokens.checkpoint before.arena.size furthest ways)
      (tryEach another context before.tokens.checkpoint before.arena.size furthest ways) := by
  induction ways generalizing furthest with
  | nil => exact .of_steady (Steady.peek.bind fun _ => .fail _)
  | cons way ways ih =>
    constructor <;> intro s right
    · have kept := (attempts way).keeps s right
      rw [tryEach_cons, tryEach_cons, (attempts way).same s right]
      rcases outcome : another way s with ⟨(d | _ | _) | b, t⟩ <;> rw [outcome] at kept
      · exact (ih _).same _ (kept.of_counters rfl)
    · have kept := (attempts way).keeps s right
      rw [tryEach_cons]
      rcases outcome : another way s with ⟨(d | _ | _) | b, t⟩ <;> rw [outcome] at kept
      · exact (ih _).keeps _ (kept.of_counters rfl)
      all_goals exact kept

theorem sameAt_beginning (inner : ∀ context, SameAt r c (nested context) (other context))
    (within : ∀ context, SameAt r c.inText (inText context) (other context)) (t : Token) :
    SameAt r c (watchedBeginning r alarm c nested inText context t)
      (beginning r other context t) := by
  unfold watchedBeginning beginning
  match r.dialect.starts t with
  | [] => exact .of_steady (.fail _)
  | [way] => exact sameAt_start alarm inner within way
  | _ :: _ :: _ =>
    exact .get_bind fun s _ => sameAt_tryEach (sameAt_start alarm inner within) s none _

end

/-- However deeply statements are nested, no alarm is raised where the counts are right. -/
theorem sameAt_statement (r : Reader) (alarm : Halt) (levels : Nat) (c : Counts)
    (context : Context) : SameAt r c (watchedStatement r alarm levels c context)
      (statement r levels context) := by
  induction levels generalizing c context with
  | zero => exact .of_steady (.halt _)
  | succ levels ih =>
    refine .watch alarm (.after .peek fun t => .ite (fun _ => .of_steady (.fail _)) fun _ => ?_)
    refine .get_bind fun s right => .ite (fun _ => .of_steady (.fail _)) fun room => ?_
    have room : c.statements < r.maxNesting := by
      rw [← right.counters]
      exact Nat.lt_of_not_le room
    refine .nest room (.watch alarm (.bind ?_ fun id => rel_behind (.sameAt r _) (ih _) id))
    exact sameAt_beginning alarm (ih _) (ih _) t

theorem sameAt_script (r : Reader) (alarm : Halt) (text : String) :
    SameAt r ⟨0, 0⟩ (watchedScript r alarm text) (script r text) := by
  have inner := sameAt_statement r alarm (r.maxNesting + 1) ⟨0, 0⟩
  refine .watch alarm (.bind (rel_whole (.sameAt r ⟨0, 0⟩) inner) fun ids => ?_)
  refine .after (.range _ _) fun range => .after (.add _ _) fun root => ?_
  exact .get_bind fun s _ => .of_steady (.pure _)

/-- Reading always ends, whatever the shorthands stand for, if the lengths of the text and of those
of the shorthands fit in 32 bits. Skipping comes to an end, and reading to a script or a problem:
never does a loop go on without taking a token, or a statement have no levels left. No alarm is ever
raised, so at all times as many statements and texts of shorthands are counted as are being read,
and no more than the limits allow. Reading a statement or a shorthand leaves the counters as they
were, by success or by failure. Whatever is asked of a tokenizer of one of these texts, the answers
are the same with offsets of 32 bits. -/
theorem read_watched (r : Reader) (advances : r.lexer.Advances) (text : String)
    (short : text.utf8ByteSize < offsetBound)
    (shortTexts : ∀ name body, r.dialect.expansion? name = some body →
      body.utf8ByteSize < offsetBound) :
    (∀ p, r.lexer.Skips p (r.lexer.skip p)) ∧
    (∃ outcome : Except Diagnostic Script, read r text = outcome.mapError .problem) ∧
    (∀ alarm, watchedRead r alarm text = read r text) ∧
    (∀ levels context s,
      (statement r levels context s).2.counters = s.counters ∧
      (shorthand r (statement r levels) context s).2.counters = s.counters) ∧
    ∀ body, body = text ∨ (∃ name, r.dialect.expansion? name = some body) → ∀ calls,
      (NarrowTokenizer.start r.lexer body).answers [] calls =
        some (Tokenizer.source.answers (.start r.lexer body) [] calls) := by
  refine ⟨r.lexer.skips_skip advances, ⟨r.read text, read_eq r text⟩, fun alarm => ?_,
    fun levels context s => ⟨?_, ?_⟩, fun body readOf calls => ?_⟩
  · have none : Counts.Right r ⟨0, 0⟩ { tokens := .start r.lexer text } :=
      ⟨rfl, Nat.zero_le _, Nat.zero_le _⟩
    exact congrArg Prod.fst ((sameAt_script r alarm text).same _ none)
  · exact ((steady_statement r levels context).grows s).counters
  · exact ((steady_shorthand (steady_statement r levels)).grows s).counters
  · have fits : body.utf8ByteSize < offsetBound := by
      obtain rfl | ⟨name, known⟩ := readOf
      · exact short
      · exact shortTexts name body known
    exact Tokenizer.answers_start r.lexer fits calls

/-- A dialect with two shorthands each of which is used in the text of the other. -/
def circular : Dialect where
  layers := 3
  symbols t :=
    if t = "(" then .ofList [.groupingBegin]
    else if t = ")" then .ofList [.groupingEnd]
    else if t = "x" || t = "y" then .ofList [.shorthand]
    else .ofList [.nop]
  allows _ placement := placement = .around
  supports _ := true
  expansion? t := if t = "x" then some "R (y)" else if t = "y" then some "(R x)" else none
  turn? _ := none
  keywords := ["(", ")", "x", "y", "R"]

/-- Reading goes from one shorthand to the other until one of the limits stops it. -/
theorem read_watched_circular :
    let r : Reader := { dialect := circular, maxShorthandDepth := 1 }
    let s : Reader := { dialect := circular, maxNesting := 3 }
    (r.lexer.Advances ∧ watchedRead r .endless "R x" = read r "R x" ∧
      (problem? (read r "R x")).map (fun d => (d.problem, d.cause.map (·.problem))) =
        some (.shorthandBody "x", some (.shorthandTooDeep "y" 1))) ∧
    s.lexer.Advances ∧ watchedRead s .endless "x" = read s "x" ∧
      (problem? (read s "x")).map (fun d => d.cause.bind fun e => e.cause.map (·.problem)) =
        some (some (.nestedTooDeeply 3)) := by
  intro r s
  have advances : circular.lexer.Advances := by rintro start ⟨⟩
  have short (name body : String) (known : circular.expansion? name = some body) :
      body.utf8ByteSize < offsetBound := by
    simp only [circular] at known
    split at known
    · cases known
      decide
    · split at known
      · cases known
        decide
      · cases known
  have one := (read_watched r advances "R x" (by decide) short).2.2.1 .endless
  have two := (read_watched s advances "x" (by decide) short).2.2.1 .endless
  exact ⟨⟨advances, one, by decide +kernel⟩, advances, two, by decide +kernel⟩

end InPlace

/-! ### A text that is too long -/

namespace Reader

open Diagnostic (Context)

variable {r : Reader} {scope : Scope} {context : Context} {t : Token} {s : Statement}

/-- If a token is a statement of its own, reading any number of them only leads to the next one. -/
theorem readSequence_replicate {nested : Nested}
    (alone : ∀ ts, nested scope context t (t :: ts) = .ok (s, .all (t :: ts))) (count : Nat)
    (behind : List Token) :
    (r.readSequence nested scope context .empty
        (List.replicate count t ++ t :: behind)).map Prod.fst =
      ((r.readSequence nested scope context .empty (t :: behind)).map Prod.fst).map
        (List.replicate count s ++ ·) := by
  have step (ts : List Token) :
      (r.readSequence nested scope context .empty (t :: t :: ts)).map Prod.fst =
        ((r.readSequence nested scope context .empty (t :: ts)).map Prod.fst).map (s :: ·) := by
    rw [readSequence, SymbolSet.intersects_empty, alone]
    change Except.map Prod.fst (readSequence r nested scope context .empty (t :: ts) >>= _) = _
    cases readSequence r nested scope context .empty (t :: ts) <;> rfl
  induction count with
  | zero =>
    rw [List.replicate_zero, List.nil_append]
    cases r.readSequence nested scope context .empty (t :: behind) <;> rfl
  | succ count ih =>
    have split : ∃ ts, List.replicate count t ++ t :: behind = t :: ts := by
      cases count with
      | zero => exact ⟨behind, rfl⟩
      | succ count => exact ⟨_, rfl⟩
    obtain ⟨ts, split⟩ := split
    rw [split] at ih
    rw [List.replicate_succ, List.cons_append, split, step, ih]
    cases r.readSequence nested scope context .empty (t :: behind) <;> rfl

/-- Only behind a count does it matter what the next token is. -/
theorem behind?_of_kind (other : t.kind ≠ .number) (next : Token) :
    r.behind? t next = r.behind? t t := by
  simp only [behind?, other, decide_false, Bool.false_and]
  rfl

/-- A token that can only be a turn, and that makes nothing of a statement before it, is a statement
of its own. -/
theorem readStatement_turn {turn : Turn} (levels : Nat) (starts : r.dialect.starts t = [.turn])
    (known : r.dialect.turn? t.text = some turn) (other : t.kind ≠ .number)
    (behind : r.behind? t t = none) (ts : List Token) :
    r.readStatement (levels + 1) scope context t (t :: ts) =
      .ok (.atom (.turn turn) t.range, .all (t :: ts)) := by
  have first : r.readBeginning (r.readStatement levels) scope context t (t :: ts) =
      .ok (.atom (.turn turn) t.range, .all (t :: ts)) := by
    rw [readBeginning, starts]
    simp only [firstSuccess, readStart, known]
  have last : r.readBehind (r.readStatement levels) scope context (.atom (.turn turn) t.range)
      (t :: ts) = .ok (.atom (.turn turn) t.range, .all (t :: ts)) := by
    rw [readBehind, readWhile, extend?, behind?_of_kind other, behind]
    rfl
  rw [readStatement, first]
  change (readBehind r _ scope context _ (t :: ts) >>= _) = _
  rw [last]
  rfl

/-- Reading may go on for ever in a text that is too long. However many of its tokens have been
read, each to one more turn, there is the same token to be read next. -/
theorem exists_read_again : ∃ (r : Reader) (text : String) (t : Token) (s : Statement),
    r.lexer.Advances ∧ (∀ n, (NarrowTokenizer.start r.lexer text).nth n = some t) ∧
    ∀ scope context count behind,
      (r.readSequence (r.readStatement r.maxNesting) scope context .empty
          (List.replicate count t ++ t :: behind)).map Prod.fst =
        ((r.readSequence (r.readStatement r.maxNesting) scope context .empty
          (t :: behind)).map Prod.fst).map (List.replicate count s ++ ·) := by
  let r : Reader := { dialect := (Lexicon.standard ⟨2, by decide, by decide⟩).dialect }
  let t : Token := ⟨.keyword, "R", ⟨0, 1⟩⟩
  let turn : Turn := ⟨.x, 2, .quarter⟩
  have starts : r.dialect.starts t = [.turn] := by decide +kernel
  have known : r.dialect.turn? t.text = some turn := by decide +kernel
  have behind : r.behind? t t = none := by decide +kernel
  refine ⟨r, NarrowTokenizer.blanksBefore offsetBound 'R', t, .atom (.turn turn) t.range, ?_, ?_, ?_⟩
  · rintro start ⟨⟩
    decide
  · exact NarrowTokenizer.nth_blanksBefore (by decide) (by decide) rfl rfl (by decide +kernel)
      (Nat.mod_self offsetBound) (by decide)
  · intro scope context count more
    exact readSequence_replicate (readStatement_turn 63 starts known nofun behind) count more

end Reader

end CubeScript
