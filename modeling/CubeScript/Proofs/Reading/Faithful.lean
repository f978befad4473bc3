import CubeScript.Proofs.Reading.Agreement
import CubeScript.Proofs.Reading.Backtracking

/-!
# Reading in place is reading

A statement begins in one of several ways and then goes on. In place, an attempt at its beginning
that fails is undone, so that the next one starts as the first one did; and the token behind the
statement is given back if it does not take it as an operand. So a statement is read in place as it
is read otherwise (`InPlace.follows_statement`), and with the statements the whole script
(`InPlace.read_eq`). What has been said of where diagnostics point holds for both.
-/

namespace CubeScript

namespace InPlace

open CubeScript.Action (Steady)
open Diagnostic (Context)
open Reader (Behind Extends)

variable {r : Reader} {scope : Scope} {levels : Nat} {context : Context} {text : String}
  {s : Session} {α β γ : Type} {Agrees : α → β → Arena → Prop} {ts us : List Token}

/-! ### Attempts one after the other -/

theorem furthest_assoc (c d e : Diagnostic) :
    c.furthest (d.furthest e) = (c.furthest d).furthest e := by
  unfold Diagnostic.furthest
  grind

/-- The best diagnostic so far is kept, whatever the attempts that are left have to say. -/
theorem follows_tryEach (context : Context) {layers : Nat} {attempt : γ → Action β}
    {reads : γ → Reading α ts}
    (steady : ∀ way, Steady layers (attempt way))
    (follows : ∀ way t, t = s ∨ t = s.fill layers →
      Follows r scope levels Agrees t (attempt way) (reads way))
    {t : Session} (same : t = s ∨ t = s.fill layers) (best : Option Diagnostic) (way : γ)
    (others : List γ) :
    Follows r scope levels Agrees t
      (tryEach attempt context s.tokens.checkpoint s.arena.size best (way :: others))
      ((Reader.firstSuccess reads way others).mapError fun d => best.elim d (·.furthest d)) := by
  have here := follows way s (.inl rfl)
  cases outcome : reads way with
  | ok a =>
    rw [outcome] at here
    have ends : ∀ d, (attempt way s).1 ≠ .error (.problem d) := by
      obtain ⟨b, u, done, _⟩ := here
      intro d failed
      rw [done] at failed
      cases failed
    have first : Reader.firstSuccess reads way others = .ok a := by
      cases others <;> simp only [Reader.firstSuccess, outcome]
    refine .of_eq (tryEach_of_ends steady same ends best others) ?_
    have begins := follows way t same
    rw [outcome] at begins
    rw [first]
    exact begins
  | error d =>
    rw [outcome] at here
    obtain ⟨u, again, went⟩ := tryEach_of_fails context steady same here best others
    refine .of_eq went ?_
    cases others with
    | nil =>
      rw [Reader.firstSuccess, outcome]
      rfl
    | cons other others =>
      have more := follows_tryEach context steady follows again
        (some (best.elim d (·.furthest d))) other others
      have same : (Reader.firstSuccess reads way (other :: others)).mapError
          (fun e => best.elim e (·.furthest e)) =
            (Reader.firstSuccess reads other others).mapError
              fun e => (best.elim d (·.furthest d)).furthest e := by
        rw [Reader.firstSuccess, outcome]
        cases Reader.firstSuccess reads other others with
        | ok a => rfl
        | error e =>
          cases best with
          | none => rfl
          | some c => exact congrArg Except.error (furthest_assoc c d e)
      rw [same]
      exact more

section

variable {nested : CubeScript.Nested} {inPlace : Nested} {t : Token}
  (inner : FollowsNested r levels nested inPlace)

include inner

theorem follows_beginning (steady : ∀ context, Steady r.dialect.layers (inPlace context))
    (whole : scope.textEnd = text.utf8ByteSize) (shown : Shown text (t :: ts))
    (now : s.At r scope levels (t :: ts)) :
    Follows r scope levels s.arena.LaidOut s (beginning r inPlace context t)
      (r.readBeginning nested scope context t ts) := by
  have follows (way : Start) (u : Session) (same : u = s ∨ u = s.fill r.dialect.layers) :
      Follows r scope levels s.arena.LaidOut u (start r inPlace context way)
        (r.readStart nested scope context t ts way) := by
    obtain rfl | rfl := same
    · exact follows_start inner whole shown now way
    · exact follows_start inner whole shown now.fill way
  unfold beginning Reader.readBeginning
  match r.dialect.starts t with
  | [] => exact .fail _
  | [way] => exact follows way s (.inl rfl)
  | way :: other :: others =>
    have tries := follows_tryEach context (steady_start steady) follows (.inl rfl) none way
      (other :: others)
    have plain (reading : Reading Statement ts) :
        (reading.mapError fun d => (none : Option Diagnostic).elim d (·.furthest d)) = reading := by
      cases reading <;> rfl
    rw [plain] at tries
    exact tries

/-! ### What follows a statement -/

theorem follows_bracketBehind (whole : scope.textEnd = text.utf8ByteSize)
    {candidates : List Construct} {first : Statement} {id : Nat} {opening : Token} {before : Arena}
    (shown : Shown text (opening :: ts)) (begins : first.range.start ≤ opening.range.start)
    (now : s.At r scope levels ts) (laid : before.LaidOut first id s.arena) :
    Follows r scope levels before.LaidOut s
      (bracketBehind r inPlace candidates id first.range.start opening)
      (r.readBracketBehind nested scope candidates first opening ts) := by
  refine .bind (follows_sequence inner whole shown.tail now) ?_
  rintro second ⟨rest, left⟩ others u _ now right
  match rest with
  | [] =>
    exact .next_nil now fun v later _ => .yes rfl (follows_failUnclosed later shown.head whole)
  | closing :: rest =>
    refine .next_cons now fun v later same noEnd => .no noEnd ?_
    have closed := (shown.through (left.subset List.mem_cons_self)).ordered
    dsimp only
    rw [oneLeft_eq closed]
    refine .check fun construct _ => .range (Nat.le_trans begins closed) ?_
    rw [← same] at right
    exact follows_pair later laid.single right

theorem follows_delimiterBehind (whole : scope.textEnd = text.utf8ByteSize)
    {candidates : List Construct} {first : Statement} {id : Nat} {delimiter : Token}
    {before : Arena} (shown : Shown text (delimiter :: ts)) (now : s.At r scope levels ts)
    (laid : before.LaidOut first id s.arena) :
    Follows r scope levels before.LaidOut s
      (delimiterBehind inPlace candidates id delimiter.range
        ⟨first.range.start, delimiter.range.stop⟩)
      (Reader.readDelimiterBehind nested scope candidates first delimiter ts) := by
  match candidates with
  | [] => exact .fail _
  | [construct] =>
    refine .bind (follows_operand inner whole shown.head shown.tail now) ?_
    intro second rest other u _ after right
    exact .cover right.range? (follows_pair after laid.single right.single)
  | _ :: _ :: _ => exact .fail _

/-- The statement begins where its first token does, before the token behind it. -/
theorem follows_extendBy (whole : scope.textEnd = text.utf8ByteSize) {statement : Statement}
    {id : Nat} {next : Token} {behind : Behind} {before : Arena} (shown : Shown text (t :: ts))
    (begins : statement.range.start ≤ t.range.start) (found : r.behind? t next = some behind)
    (now : s.At r scope levels ts) (laid : before.LaidOut statement id s.arena) :
    Follows r scope levels before.LaidOut s
      (extendBy r inPlace context id t ⟨statement.range.start, t.range.stop⟩ behind)
      (r.extendBy nested scope context statement t ts behind) := by
  cases behind with
  | wrap w =>
    have plain : w.isPlain := by
      obtain rfl | rfl := Reader.behind?_wrap found <;> rfl
    exact .add now (laid.single.wrapped plain _)
  | count =>
    refine .check fun count _ => .add now ?_
    exact laid.single.wrapped (w := .repetition count) rfl _
  | countNext =>
    cases ts with
    | nil =>
      have wrong : (Token.atEnd scope.textEnd).kind ≠ .number := Token.Kind.noConfusion
      exact .next_nil now fun u later _ => .yes wrong (.fail _)
    | cons number ts =>
      refine .next_cons now fun u later same _ => ?_
      rw [← same] at laid
      by_cases word : number.kind ≠ .number
      · refine .yes word ?_
        rw [Reader.extendBy, Reader.readCountBehind, if_pos word]
        exact .fail _
      · have reads : r.extendBy nested scope context statement t (number :: ts) .countNext =
            Reader.repeatCount number >>= fun count =>
              .ok (.wrapped (.repetition count) [statement]
                ⟨statement.range.start, number.range.stop⟩, (Suffix.all ts).ofTail) := by
          rw [Reader.extendBy, Reader.readCountBehind, if_neg word]
          cases Reader.repeatCount number <;> rfl
        have ordered := (shown.through List.mem_cons_self).ordered
        rw [reads]
        refine .no word (.check fun count _ => .range (Nat.le_trans begins ordered) (.add later ?_))
        exact laid.single.wrapped (w := .repetition count) rfl _
  | bracket candidates => exact follows_bracketBehind inner whole shown begins now laid
  | delimiter candidates => exact follows_delimiterBehind inner whole shown now laid

omit inner in
/-- The token behind a count matters only if it is looked at. -/
theorem behind?_eq {next other : Token}
    (looked : (decide (t.kind = .number) && r.dialect.accepts .repetition .after) = true →
      next = other) : r.behind? t next = r.behind? t other := by
  by_cases matters : (decide (t.kind = .number) && r.dialect.accepts .repetition .after) = true
  · rw [looked matters]
  · simp only [Reader.behind?, if_neg matters]

omit inner in
theorem follows_extend {range : Range} {id : Nat} {reading : Reading α us}
    {Agrees : α → Nat ⊕ Nat → Arena → Prop} (now : s.At r scope levels (t :: ts))
    (known : s.arena.range? id = some range) (ordered : range.start ≤ t.range.stop)
    (goes : ∀ u, u.At r scope levels ts → u.arena = s.arena →
      Follows r scope levels Agrees u
        (extendOrStop r inPlace context id s.tokens.checkpoint t ⟨range.start, t.range.stop⟩
          (r.behind? t (scope.peek ts))) reading) :
    Follows r scope levels Agrees s (extend r inPlace context id) reading := by
  refine .checkpoint (.next_cons now fun u later same noEnd => .no noEnd ?_)
  refine .rangeOf ?_
  rw [same, known]
  refine .range ordered (.peekIf later fun v next looked again same' => ?_)
  rw [behind?_eq looked]
  exact goes v again (same'.trans same)

/-- The statement that is extended is laid out before what is put behind it. -/
theorem follows_behind (steps : Extends nested) (whole : scope.textEnd = text.utf8ByteSize)
    {statement : Statement} {id : Nat} {first : Token} {before : Arena} {ts : List Token}
    {s : Session} (shown : Shown text ts) (spans : Spans first statement.range ts)
    (positive : first.range.start < first.range.stop) (now : s.At r scope levels ts)
    (laid : before.LaidOut statement id s.arena) :
    Follows r scope levels before.LaidOut s (behind r inPlace context id)
      (r.readBehind nested scope context statement ts) := by
  match ts with
  | [] =>
    rw [Reader.readBehind, Reader.readWhile]
    refine .loop_last (.checkpoint (.next_nil now fun u later same => .yes rfl ?_))
    refine .restore now later fun v back same' => .pure back ⟨id, rfl, ?_⟩
    rwa [same', same]
  | t :: ts =>
    have begins : statement.range.start ≤ t.range.start := by
      have := spans.before t List.mem_cons_self
      have := spans.start
      have := spans.stop
      omega
    have ordered := Nat.le_trans begins shown.head.ordered
    rw [Reader.readBehind, Reader.readWhile, Reader.extend?]
    cases found : r.behind? t (scope.peek ts) with
    | none =>
      refine .loop_last (follows_extend now laid.range? ordered fun u later same => ?_)
      rw [found]
      refine .restore now later fun v back same' => .pure back ⟨id, rfl, ?_⟩
      rwa [same', same]
    | some behind =>
      refine .loop_more before.LaidOut now (Nat.lt_succ_self _)
        (follows_extend now laid.range? ordered fun u later same => ?_) ?_
      · rw [found]
        rw [← same] at laid
        refine .into (follows_extendBy inner whole shown begins found later laid) ?_
        exact fun larger rest id v _ after laid => .pure after ⟨id, rfl, laid⟩
      · intro larger rest id v given after laid
        have shorter : rest.1.length < (t :: ts).length := Nat.lt_succ_of_le rest.2.length_le
        obtain ⟨reaches, _⟩ :=
          Reader.extends_extendBy steps shown.placed spans positive found given
        refine .last (follows_behind steps whole (shown.tail.suffix rest.2) reaches positive after
          laid) ?_
        exact fun statement rest id w _ final laid => .pure final laid
termination_by ts.length
decreasing_by exact shorter

end

/-! ### Statements and scripts -/

/-- A statement is read in place as it is read otherwise, as long as there are as many levels of
statements left for one as for the other. -/
theorem follows_statement (r : Reader) (levels : Nat) :
    FollowsNested r levels (r.readStatement levels) (statement r (levels + 1)) := by
  induction levels with
  | zero =>
    intro text scope context t ts s whole shown now
    refine .peek_cons now fun u later same noEnd => .no noEnd (.step rfl (.yes ?_ (.fail _)))
    exact Nat.le_of_eq later.nesting.symm
  | succ levels ih =>
    intro text scope context t ts s whole shown now
    refine .peek_cons now fun u later same noEnd => .no noEnd (.step rfl (.no ?_ ?_))
    · have := later.nesting
      omega
    · refine .nest later fun v deeper same' => ?_
      rw [← same, ← same']
      refine .bind (follows_beginning ih (steady_statement r (levels + 1)) whole shown deeper) ?_
      intro beginning rest id w begun after laid
      have steps := Reader.extends_readStatement r levels
      obtain ⟨_, start, _, _, read, _⟩ := Reader.gives_readBeginning.1 begun
      obtain ⟨spans, _, _⟩ := Reader.extends_readStart steps shown.placed read
      have left := shown.tail.suffix rest.2
      refine .last (follows_behind ih steps whole left spans shown.placed.pos after laid) ?_
      exact fun statement rest id x _ final laid => .pure final laid

theorem follows_script (r : Reader) (text : String) :
    Follows r ⟨text.utf8ByteSize, 0⟩ r.maxNesting
      (fun statements script _ =>
        script = .ofStatements statements text.utf8ByteSize r.dialect.layers)
      { tokens := .start r.lexer text } (script r text)
      (r.readSequence (r.readStatement r.maxNesting) ⟨text.utf8ByteSize, 0⟩ .script .empty
        (r.lexer.tokens text)) := by
  refine .into (follows_whole (follows_statement r r.maxNesting) rfl
    (Shown.tokens r.lexer text) (.start r text)) ?_
  intro statements rest ids s _ now laid
  refine .range (Nat.zero_le _) (.step rfl (.step rfl (.pure (now.add _) ?_)))
  rw [Script.ofStatements, show Arena.placeAll none statements #[] = _ from laid]

/-- A script is read in place as it is read otherwise. -/
theorem read_eq (r : Reader) (text : String) :
    read r text = (r.read text).mapError .problem := by
  have follows := follows_script r text
  rw [read, Reader.read, Reader.readStatements]
  dsimp only
  revert follows
  cases r.readSequence (r.readStatement r.maxNesting) ⟨text.utf8ByteSize, 0⟩ .script .empty
    (r.lexer.tokens text) with
  | error d => exact id
  | ok a =>
    rintro ⟨script, s, done, _, rfl⟩
    rw [done]
    rfl

/-- A dialect with a shorthand for a text that ends inside brackets. -/
def abbreviating : Dialect where
  layers := 2
  symbols t :=
    if t = "(" then .ofList [.groupingBegin]
    else if t = ")" then .ofList [.groupingEnd]
    else if t = "x" then .ofList [.shorthand]
    else .ofList [.nop]
  allows _ placement := placement = .around
  supports _ := true
  expansion? t := if t = "x" then some "R (R" else none
  turn? _ := none
  keywords := ["(", ")", "x", "R"]

end InPlace

end CubeScript
