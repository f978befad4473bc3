import CubeScript.Proofs.Reading.Outcomes
import CubeScript.Proofs.Text.Splitting
import Mathlib.Data.List.Basic

/-!
# Where statements lie in a text

The tokens of a text lie one behind the other. A statement starts where its first token starts, and
what is left begins where the statement has ended. This is kept by every reading function if it
holds of the one that reads the statements inside (`Reader.Extends`), and so it holds of
`Reader.readStatement`.

It tells apart what a statement began as from what was made of it behind: a statement that has been
extended starts where its operand starts, while in every other one the parts start later. So the
beginning of a statement can be found again in the finished one, and the way in which it began can
be told from it, but for the two ways to begin a cycle.
-/

namespace CubeScript

/-! ### Statements and their tokens -/

/-- Whether a range is that of a statement which begins with a token and is read up to some
tokens. -/
structure Spans (t : Token) (range : Range) (rest : List Token) : Prop where
  start : range.start = t.range.start
  stop : t.range.stop ≤ range.stop
  before : ∀ u ∈ rest, range.stop ≤ u.range.start

namespace Statement

/-- The statement that was extended, if there is one: the first part, if it starts where the whole
does. What stands in a shorthand was read elsewhere. -/
def inner? : Statement → Option Statement
  | .wrapped (.shorthand _) _ _ => none
  | .wrapped _ [s] range => if s.range.start = range.start then some s else none
  | .paired _ [s] _ range => if s.range.start = range.start then some s else none
  | _ => none

theorem inner?_wrapped (w : Wrapper) {parts : List Statement} {range : Range}
    (apart : ∀ s ∈ parts, s.range.start ≠ range.start) :
    (Statement.wrapped w parts range).inner? = none := by
  match parts with
  | [] => cases w <;> rfl
  | [s] => cases w <;> simp [inner?, apart s]
  | _ :: _ :: _ => cases w <;> rfl

theorem inner?_paired {p : Pairing} {first second : List Statement} {range : Range}
    (apart : ∀ s ∈ first, s.range.start ≠ range.start) :
    (Statement.paired p first second range).inner? = none := by
  match first with
  | [] => rfl
  | [s] => simp [inner?, apart s]
  | _ :: _ :: _ => rfl

/-- Whether a statement has been made of another one by extending it some times. -/
inductive Grown : Statement → Statement → Prop where
  | refl (s : Statement) : Grown s s
  | step {b s larger : Statement} (grown : Grown b s) (inner : larger.inner? = some s) :
    Grown b larger

namespace Grown

theorem of_inner {b s larger : Statement} (inner : s.inner? = some b) (grown : Grown s larger) :
    Grown b larger := by
  induction grown with
  | refl => exact .step (.refl b) inner
  | step _ outer ih => exact .step ih outer

end Grown

end Statement

/-- Whether a statement may have begun in some way. -/
def Start.Made : Start → Statement → Prop
  | .turn, .atom (.turn _) _ => True
  | .nop, .atom .nop _ => True
  | .cycle, .atom (.cycle _) _ => True
  | .signedCycle, .atom (.cycle _) _ => True
  | .shorthand, .wrapped (.shorthand _) _ _ => True
  | .repetition, .wrapped (.repetition _) _ _ => True
  | .compound _, .paired .. => True
  | .compound _, .wrapped .grouping _ _ => True
  | .compound _, .wrapped .inversion body range => ∀ s ∈ body, s.range.stop < range.stop
  | .compound _, .wrapped .reflection body range => ∀ s ∈ body, s.range.stop < range.stop
  | .inversion, .wrapped .inversion [s] range => s.range.stop = range.stop
  | .reflection, .wrapped .reflection [s] range => s.range.stop = range.stop
  | _, _ => False

/-- What is known of a statement that begins at a token, before anything extends it. -/
structure Begun (start : Start) (t : Token) (statement : Statement) (rest : List Token) : Prop where
  spans : Spans t statement.range rest
  outer : statement.inner? = none
  made : start.Made statement

namespace Reader

open Reading

/-- Whether statements are read from where their first token starts to before what is left. -/
def Extends (nested : Nested) : Prop := ∀ scope context t ts statement rest,
  Placed (t :: ts) → Gives (nested scope context t ts) statement rest →
    Spans t statement.range rest

section

variable {r : Reader} {nested : Nested} {scope : Scope} {context : Diagnostic.Context}
  {rest : List Token} (inner : Extends nested)

include inner

/-- The statements of a sequence start at tokens of it, and end before what is left. -/
theorem extends_readSequence {stop : SymbolSet} {ts : List Token} {statements : List Statement}
    (placed : Placed ts)
    (given : Gives (r.readSequence nested scope context stop ts) statements rest) :
    ∀ s ∈ statements, (∃ u ∈ ts, s.range.start = u.range.start) ∧
      ∀ u ∈ rest, s.range.stop ≤ u.range.start := by
  match ts with
  | [] =>
    obtain ⟨rfl, _⟩ := gives_readSequence_nil.1 given
    nofun
  | t :: ts =>
    rw [gives_readSequence_cons] at given
    split at given
    · obtain ⟨rfl, _⟩ := given
      nofun
    · obtain ⟨statement, middle, later, first, second, rfl⟩ := given
      have spans := inner scope context t ts statement middle placed first
      have left := first.suffix
      have shorter : middle.length < (t :: ts).length := Nat.lt_succ_of_le left.length_le
      intro s member
      obtain rfl | member := List.mem_cons.1 member
      · exact ⟨⟨t, List.mem_cons_self, spans.start⟩,
          fun u hu => spans.before u (second.suffix.subset hu)⟩
      · obtain ⟨⟨u, hu, start⟩, before⟩ :=
          extends_readSequence (placed.tail.suffix left) second s member
        exact ⟨⟨u, List.mem_cons_of_mem t (left.subset hu), start⟩, before⟩
termination_by ts.length
decreasing_by exact shorter

/-- A statement behind an operator starts behind it and reaches further. -/
theorem extends_operand {operator : Token} {t : Token} {ts : List Token} {operand : Statement}
    (placed : Placed (operator :: t :: ts))
    (given : Gives (nested scope context t ts) operand rest) :
    operator.range.stop ≤ operand.range.start ∧ operator.range.stop ≤ operand.range.stop ∧
      ∀ u ∈ rest, operand.range.stop ≤ u.range.start := by
  have spans := inner scope context t ts operand rest placed.tail given
  have le := placed.le List.mem_cons_self
  have long := placed.tail.pos
  have stop := spans.stop
  rw [spans.start]
  exact ⟨by omega, by omega, spans.before⟩

/-- What has been closed by brackets starts at the opening one, with all its parts behind. -/
theorem extends_closes {opening closing : Token} {ts : List Token} {first : List Statement}
    {second : Option (List Statement)} {statement : Statement} {construct : Construct}
    (reaches : opening.range.stop ≤ closing.range.stop)
    (positive : opening.range.start < opening.range.stop) (placed : Placed (closing :: ts))
    (parts : ∀ s ∈ first, opening.range.start < s.range.start ∧
      s.range.stop < closing.range.stop)
    (closes : Closes r nested scope ⟨opening.range.start, closing.range.stop⟩ first second ts
      statement rest construct) (candidates : List Construct) :
    Begun (.compound candidates) opening statement rest := by
  have alone : ∀ s ∈ first, s.range.start ≠ opening.range.start := fun s member =>
    Nat.ne_of_gt (parts s member).1
  have closed : ∀ u ∈ ts, closing.range.stop ≤ u.range.start := fun u member => placed.le member
  have pairs : ∀ second, statement = .paired construct.pairing first second
      ⟨opening.range.start, closing.range.stop⟩ ∧ rest = ts →
      Begun (.compound candidates) opening statement rest := by
    rintro second ⟨rfl, rfl⟩
    exact ⟨⟨rfl, reaches, closed⟩, Statement.inner?_paired alone, trivial⟩
  have goes : Gives (r.readSecond nested scope construct first
      ⟨opening.range.start, closing.range.stop⟩ ts) statement rest →
      Begun (.compound candidates) opening statement rest := by
    intro given
    obtain ⟨t, us, operand, rfl, _, read, rfl⟩ := gives_readSecond.1 given
    obtain ⟨behind, further, before⟩ := extends_operand inner placed read
    have later : opening.range.start ≤ operand.range.start := by omega
    have start : (Range.cover ⟨opening.range.start, closing.range.stop⟩ operand.range).start =
        opening.range.start := Nat.min_eq_left later
    rw [← start] at alone
    refine ⟨⟨start, ?_, fun u member => ?_⟩, Statement.inner?_paired alone, trivial⟩
    · exact Nat.le_trans reaches (Nat.le_max_left ..)
    · exact Nat.max_le.2 ⟨Nat.le_trans further (before u member), before u member⟩
  cases second with
  | some second =>
    refine pairs second ?_
    cases construct <;> exact closes
  | none =>
    cases construct with
    | grouping =>
      obtain ⟨rfl, rfl⟩ := closes
      exact ⟨⟨rfl, reaches, closed⟩, Statement.inner?_wrapped _ alone, trivial⟩
    | inversion =>
      obtain ⟨rfl, rfl⟩ := closes
      exact ⟨⟨rfl, reaches, closed⟩, Statement.inner?_wrapped _ alone,
        fun s member => (parts s member).2⟩
    | reflection =>
      obtain ⟨rfl, rfl⟩ := closes
      exact ⟨⟨rfl, reaches, closed⟩, Statement.inner?_wrapped _ alone,
        fun s member => (parts s member).2⟩
    | repetition => exact goes closes
    | commutation => exact goes closes
    | conjugation => exact goes closes
    | rotation => exact goes closes
    | permutation => exact goes closes

theorem extends_readCompound {candidates : List Construct} {opening : Token} {ts : List Token}
    {statement : Statement} (placed : Placed (opening :: ts))
    (given : Gives (r.readCompound nested scope candidates opening ts) statement rest) :
    Begun (.compound candidates) opening statement rest := by
  obtain ⟨first, t, left, read, went⟩ := gives_readCompound.1 given
  have placedFirst := placed.tail.suffix read.suffix
  have ordered := placed.le (read.suffix.subset List.mem_cons_self)
  have parts : ∀ closing : Token, t.range.start ≤ closing.range.start →
      closing.range.start < closing.range.stop → ∀ s ∈ first,
        opening.range.start < s.range.start ∧ s.range.stop < closing.range.stop := by
    intro closing behind positive s member
    obtain ⟨⟨u, hu, start⟩, before⟩ := extends_readSequence inner placed.tail read s member
    have := placed.pos
    have := placed.le hu
    have := before t List.mem_cons_self
    omega
  split at went
  · obtain ⟨construct, _, closes⟩ := gives_closeCompound.1 went
    have positive := placedFirst.pos
    exact extends_closes inner (by omega) placed.pos placedFirst
      (parts t (Nat.le_refl _) positive) closes candidates
  · obtain ⟨second, u, right, other, went⟩ := went
    obtain ⟨construct, _, closes⟩ := gives_closeCompound.1 went
    have placedSecond := placedFirst.tail.suffix other.suffix
    have behind := placedFirst.le (other.suffix.subset List.mem_cons_self)
    have positive := placedFirst.pos
    have positiveToo := placedSecond.pos
    exact extends_closes inner (by omega) placed.pos placedSecond
      (parts u (by omega) positiveToo) closes candidates

theorem extends_readWrapped {w : Wrapper} {operator : Token} {ts us : List Token}
    {statement : Statement} (placed : Placed (operator :: ts)) (behind : us <:+ ts)
    (given : Gives (readWrapped nested scope w operator.range us) statement rest) :
    Spans operator statement.range rest ∧ statement.inner? = none ∧
      ∃ operand, statement = .wrapped w [operand] statement.range ∧
        operand.range.stop = statement.range.stop := by
  obtain ⟨t, left, operand, rfl, read, rfl⟩ := gives_readWrapped.1 given
  have shown : Placed (operator :: t :: left) := by
    refine ⟨?_, List.pairwise_cons.2 ⟨fun u member => ?_, (placed.tail.suffix behind).2⟩⟩
    · intro u member
      obtain rfl | member := List.mem_cons.1 member
      · exact placed.pos
      · exact placed.tail.1 u (behind.subset member)
    · exact placed.le (behind.subset member)
  obtain ⟨after, further, before⟩ := extends_operand inner shown read
  have positive := placed.pos
  have start : (operator.range.cover operand.range).start = operator.range.start :=
    Nat.min_eq_left (by omega)
  have stop : (operator.range.cover operand.range).stop = operand.range.stop :=
    Nat.max_eq_right further
  refine ⟨⟨start, ?_, ?_⟩, Statement.inner?_wrapped w ?_, operand, rfl, stop.symm⟩
  · change _ ≤ (operator.range.cover operand.range).stop
    rw [stop]
    exact further
  · change ∀ u ∈ rest, (operator.range.cover operand.range).stop ≤ _
    rw [stop]
    exact before
  · intro s member
    rw [List.mem_singleton.1 member, start]
    omega

omit inner in
/-- The last token of some parts is the bracket behind them. -/
theorem extends_readParts {size : Size} {bracket : Token} {draft : CycleDraft} {ts : List Token}
    {result : CycleDraft × Nat}
    (given : Gives (r.readParts scope size bracket draft ts) result rest) :
    ∃ last, last :: rest <:+ ts ∧ result.2 = last.range.stop := by
  induction ts generalizing draft with
  | nil => exact absurd given gives_readParts_nil
  | cons t ts ih =>
    obtain ⟨next, ended, _, went⟩ := gives_readParts_cons.1 given
    cases ended with
    | true =>
      obtain ⟨rfl, rfl⟩ := went
      exact ⟨t, List.suffix_refl _, rfl⟩
    | false =>
      obtain ⟨last, behind, stop⟩ := ih went
      exact ⟨last, behind.trans (List.suffix_cons t ts), stop⟩

omit inner in
theorem extends_readCycle {sign : Option (Cycle.Sign × Range)} {bracket : Token}
    {ts : List Token} {statement : Statement}
    (given : Gives (r.readCycle scope sign bracket ts) statement rest) :
    ∃ last range cycle, last :: rest <:+ ts ∧ range.start = cycleStart sign bracket ∧
      range.stop = last.range.stop ∧ statement = .atom (.cycle cycle) range := by
  obtain ⟨size, draft, stop, middle, final, cycle, _, parts, rfl, rfl, _, rfl⟩ :=
    gives_readCycle.1 given
  obtain ⟨last, behind, same⟩ := extends_readParts parts
  have kept : ∃ last, last :: middle <:+ ts ∧ stop = last.range.stop := ⟨last, behind, same⟩
  match middle with
  | [] => exact ⟨last, _, cycle, behind, rfl, same, rfl⟩
  | t :: us =>
    have ends : ∃ last, last :: (r.readSignBehind draft stop (t :: us)).2.1 <:+ ts ∧
        (r.readSignBehind draft stop (t :: us)).1.2 = last.range.stop := by
      rw [readSignBehind]
      split
      · split
        · exact ⟨t, (List.suffix_cons last (t :: us)).trans behind, rfl⟩
        · exact kept
      · exact kept
    obtain ⟨final, after, stops⟩ := ends
    exact ⟨final, _, cycle, after, rfl, stops, rfl⟩

omit inner in
theorem spans_last {t last : Token} {ts : List Token} {range : Range} (placed : Placed (t :: ts))
    (start : range.start = t.range.start) (stop : range.stop = last.range.stop)
    (behind : last :: rest <:+ ts) : Spans t range rest := by
  have later := placed.tail.suffix behind
  have order := placed.le (behind.subset List.mem_cons_self)
  have positive := later.pos
  refine ⟨start, by omega, fun u member => ?_⟩
  rw [stop]
  exact later.le member

/-- Every attempt at a statement reads one that could have begun this way. -/
theorem extends_readStart {t : Token} {ts : List Token} {statement : Statement} {start : Start}
    (placed : Placed (t :: ts))
    (given : Gives (r.readStart nested scope context t ts start) statement rest) :
    Begun start t statement rest := by
  cases start with
  | turn =>
    rw [readStart] at given
    split at given
    · obtain ⟨rfl, rfl⟩ := gives_ok_iff.1 given
      exact ⟨⟨rfl, Nat.le_refl _, fun u member => placed.le member⟩, rfl, trivial⟩
    · exact absurd given (not_gives_error _ _ _)
  | nop =>
    obtain ⟨rfl, rfl⟩ := gives_ok_iff.1 given
    exact ⟨⟨rfl, Nat.le_refl _, fun u member => placed.le member⟩, rfl, trivial⟩
  | shorthand =>
    obtain ⟨text, body, left, _, _, _, rfl, rfl⟩ := gives_readShorthand.1 given
    exact ⟨⟨rfl, Nat.le_refl _, fun u member => placed.le member⟩, rfl, trivial⟩
  | compound candidates => exact extends_readCompound inner placed given
  | cycle =>
    obtain ⟨last, range, cycle, behind, start, stop, rfl⟩ := extends_readCycle given
    exact ⟨spans_last placed start stop behind, rfl, trivial⟩
  | signedCycle =>
    obtain ⟨bracket, us, rfl, _, read⟩ := gives_readSignedCycle.1 given
    obtain ⟨last, range, cycle, behind, start, stop, rfl⟩ := extends_readCycle read
    have behind := behind.trans (List.suffix_cons bracket us)
    exact ⟨spans_last placed start stop behind, rfl, trivial⟩
  | inversion =>
    obtain ⟨spans, outer, operand, same, stop⟩ :=
      extends_readWrapped inner placed (List.suffix_refl ts) given
    refine ⟨spans, outer, ?_⟩
    rw [same]
    exact stop
  | reflection =>
    obtain ⟨spans, outer, operand, same, stop⟩ :=
      extends_readWrapped inner placed (List.suffix_refl ts) given
    refine ⟨spans, outer, ?_⟩
    rw [same]
    exact stop
  | repetition =>
    obtain ⟨count, _, repeated⟩ := gives_check_iff.1 given
    obtain ⟨us, behind, wrapped⟩ := gives_readRepeated.1 repeated
    have left : us <:+ ts := by
      obtain ⟨u, rfl, _⟩ | ⟨rfl, _⟩ := behind
      · exact List.suffix_cons u us
      · exact List.suffix_refl ts
    obtain ⟨spans, outer, operand, same, _⟩ := extends_readWrapped inner placed left wrapped
    refine ⟨spans, outer, ?_⟩
    rw [same]
    trivial

omit inner in
theorem behind?_wrap {t next : Token} {w : Wrapper}
    (found : r.behind? t next = some (.wrap w)) : w = .inversion ∨ w = .reflection := by
  simp only [behind?] at found
  split at found
  · cases found
    exact .inl rfl
  · split at found
    · cases found
      exact .inr rfl
    · repeat' split at found
      all_goals cases found

/-- What a token makes of a statement has the statement as its inner one. -/
theorem extends_extendBy {statement larger : Statement} {first t next : Token}
    {ts : List Token} {behind : Behind} (placed : Placed (t :: ts))
    (spans : Spans first statement.range (t :: ts))
    (positive : first.range.start < first.range.stop)
    (found : r.behind? t next = some behind)
    (given : Gives (r.extendBy nested scope context statement t ts behind) larger rest) :
    Spans first larger.range rest ∧ larger.inner? = some statement := by
  have start := spans.start
  have stop := spans.stop
  have before := spans.before t List.mem_cons_self
  have long := placed.pos
  have last {u : Token} {range : Range} (same : range = ⟨statement.range.start, u.range.stop⟩)
      (behind : u :: rest <:+ t :: ts) : Spans first range rest := by
    have later := placed.suffix behind
    have order : t.range.stop ≤ u.range.stop := by
      obtain rfl | member := List.mem_cons.1 (behind.subset List.mem_cons_self)
      · exact Nat.le_refl _
      · have := placed.le member
        have := later.pos
        omega
    subst same
    exact ⟨start, by dsimp only; omega, fun v member => later.le member⟩
  cases behind with
  | wrap w =>
    obtain ⟨rfl, rfl⟩ := gives_ok_iff.1 given
    refine ⟨last rfl (List.suffix_refl _), ?_⟩
    obtain rfl | rfl := behind?_wrap found
    · exact if_pos rfl
    · exact if_pos rfl
  | count =>
    obtain ⟨count, _, same⟩ := gives_check_iff.1 given
    obtain ⟨rfl, rfl⟩ := gives_pure_iff.1 same
    exact ⟨last rfl (List.suffix_refl _), if_pos rfl⟩
  | countNext =>
    obtain ⟨_, _, counted, same⟩ := gives_bind_iff.1 given
    obtain ⟨rfl, rfl⟩ := gives_pure_iff.1 same
    obtain ⟨u, count, rfl, _, rfl⟩ := gives_readCountBehind.1 counted
    exact ⟨last rfl (List.suffix_cons t _), if_pos rfl⟩
  | bracket candidates =>
    obtain ⟨second, u, construct, read, _, rfl⟩ := gives_readBracketBehind.1 given
    exact ⟨last rfl (read.suffix.trans (List.suffix_cons t ts)), if_pos rfl⟩
  | delimiter candidates =>
    obtain ⟨construct, u, us, second, _, rfl, read, rfl⟩ := gives_readDelimiterBehind.1 given
    obtain ⟨after, further, ends⟩ := extends_operand inner placed read
    have least : statement.range.start ≤ second.range.start := by omega
    have same : ((⟨statement.range.start, t.range.stop⟩ : Range).cover second.range).start =
        statement.range.start := Nat.min_eq_left least
    refine ⟨⟨same.trans start, ?_, fun v member => ?_⟩, if_pos same.symm⟩
    · have reaches : first.range.stop ≤ t.range.stop := by omega
      exact Nat.le_trans reaches (Nat.le_max_left ..)
    · exact Nat.max_le.2 ⟨Nat.le_trans further (ends v member), ends v member⟩

theorem extends_readBehind {statement result : Statement} {first : Token} {ts : List Token}
    (placed : Placed ts) (spans : Spans first statement.range ts)
    (positive : first.range.start < first.range.stop)
    (given : Gives (r.readBehind nested scope context statement ts) result rest) :
    Spans first result.range rest ∧ statement.Grown result := by
  match ts with
  | [] =>
    obtain ⟨rfl, rfl⟩ := gives_readBehind_nil.1 given
    exact ⟨spans, .refl _⟩
  | t :: ts =>
    have went := gives_readBehind_cons.1 given
    split at went
    · obtain ⟨rfl, rfl⟩ := went
      exact ⟨spans, .refl _⟩
    · rename_i behind found
      obtain ⟨larger, middle, extended, more⟩ := went
      obtain ⟨reaches, outer⟩ := extends_extendBy inner placed spans positive found extended
      have shorter : middle.length < (t :: ts).length :=
        Nat.lt_succ_of_le extended.suffix.length_le
      obtain ⟨final, grown⟩ :=
        extends_readBehind (placed.tail.suffix extended.suffix) reaches positive more
      exact ⟨final, .of_inner outer grown⟩
termination_by ts.length
decreasing_by exact shorter

end

/-- Statements are read from where their first token starts to before what is left. -/
theorem extends_readStatement (r : Reader) (levels : Nat) : Extends (r.readStatement levels) := by
  induction levels with
  | zero =>
    intro scope context t ts statement rest placed given
    exact absurd given gives_readStatement_zero
  | succ levels ih =>
    intro scope context t ts statement rest placed given
    obtain ⟨beginning, middle, begun, went⟩ := gives_readStatement_succ.1 given
    obtain ⟨_, start, _, _, read, _⟩ := gives_readBeginning.1 begun
    obtain ⟨spans, _, _⟩ := extends_readStart ih placed read
    exact (extends_readBehind ih (placed.tail.suffix read.suffix) spans placed.pos went).1

end Reader

end CubeScript
