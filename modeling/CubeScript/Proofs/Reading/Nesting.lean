import CubeScript.Proofs.Reading.Making
import CubeScript.Proofs.Reading.Pointing
import CubeScript.Proofs.Script.Ranges

/-!
# The ranges of statements that are read

A statement reaches from where its first token starts to where its last one ends, and its parts have
been read from tokens in between. So its range holds theirs, and is one of the text. This is kept by
every reading function if it holds of the one that reads the statements inside (`Reader.Nesting`).
Nothing is asked of what a shorthand stands for, which is read from other tokens: its nodes are put
where the shorthand is.
-/

namespace CubeScript

/-- Whether statements nest, lie one behind the other, and lie in a range. -/
structure Statement.Row (text : String) (tokens : List Token) (statements : List Statement)
    (range : Range) : Prop where
  nests : ∀ s ∈ statements, s.Nests text tokens
  ordered : statements.Pairwise fun s t => s.range.stop ≤ t.range.start
  within : ∀ s ∈ statements, s.range.Within range

namespace Statement.Row

variable {text : String} {tokens : List Token} {first second body : List Statement} {s : Statement}
  {range larger : Range}

theorem one (nests : s.Nests text tokens) (within : s.range.Within range) :
    Row text tokens [s] range where
  nests := List.forall_mem_singleton.2 nests
  ordered := List.pairwise_singleton _ s
  within := List.forall_mem_singleton.2 within

theorem widen (row : Row text tokens body range) (within : range.Within larger) :
    Row text tokens body larger where
  nests := row.nests
  ordered := row.ordered
  within s member := (row.within s member).trans within

theorem wrapped (row : Row text tokens body range) {w : Wrapper}
    (plain : ∀ name, w ≠ .shorthand name) (inText : range.In text) :
    (Statement.wrapped w body range).Nests text tokens :=
  .wrapped plain inText row.nests row.within

theorem paired (left : Row text tokens first range) (right : Row text tokens second range)
    (p : Pairing) (inText : range.In text) :
    (Statement.paired p first second range).Nests text tokens :=
  .paired inText left.nests right.nests (List.forall_mem_append.2 ⟨left.within, right.within⟩)
    left.ordered right.ordered

end Statement.Row

/-- A later token starts and ends later. -/
theorem Shown.earlier {text : String} {t u : Token} {ts : List Token} (shown : Shown text (t :: ts))
    (member : u ∈ ts) : t.range.start ≤ u.range.start ∧ t.range.stop ≤ u.range.stop := by
  have order := shown.placed.le member
  have first := shown.head.ordered
  have second := (shown.tail.isIn member).ordered
  omega

namespace Reader

open Reading Statement

/-- Whether statements that are read from tokens of a text nest. -/
def Nesting (text : String) (all : List Token) (nested : Nested) : Prop :=
  ∀ scope context t ts statement rest, t :: ts <:+ all →
    Gives (nested scope context t ts) statement rest → statement.Nests text all

variable {r : Reader} {nested : Nested} {scope : Scope} {context : Diagnostic.Context}
  {text : String} {all ts rest : List Token} {t u : Token} {statement : Statement}

/-- What ends before a token lies in what goes on up to the end of the token. -/
theorem in_upTo {range : Range} (inText : range.In text) (token : u.range.In text)
    (before : range.stop ≤ u.range.start) :
    (⟨range.start, u.range.stop⟩ : Range).In text ∧ range.Within ⟨range.start, u.range.stop⟩ := by
  have reaches := Nat.le_trans before token.ordered
  exact ⟨inText.through token (Nat.le_trans inText.ordered reaches), Nat.le_refl _, reaches⟩

section

variable (shown : Shown text all) (places : Extends nested) (inner : Nesting text all nested)

include shown places inner

/-- Each statement of a sequence ends before the token at which the next one starts. -/
theorem nests_readSequence {stop : SymbolSet} {ts : List Token} {statements : List Statement}
    (behind : ts <:+ all)
    (given : Gives (r.readSequence nested scope context stop ts) statements rest) :
    (∀ s ∈ statements, s.Nests text all) ∧
      statements.Pairwise fun s t => s.range.stop ≤ t.range.start := by
  match ts with
  | [] =>
    obtain ⟨rfl, _⟩ := gives_readSequence_nil.1 given
    exact ⟨nofun, .nil⟩
  | t :: ts =>
    rw [gives_readSequence_cons] at given
    split at given
    · obtain ⟨rfl, _⟩ := given
      exact ⟨nofun, .nil⟩
    · obtain ⟨statement, middle, later, first, second, rfl⟩ := given
      have placed := shown.placed.suffix behind
      have shorter : middle.length < (t :: ts).length := Nat.lt_succ_of_le first.suffix.length_le
      have left : middle <:+ t :: ts := first.suffix.trans (List.suffix_cons t ts)
      obtain ⟨each, ordered⟩ := nests_readSequence (left.trans behind) second
      have spans := places scope context t ts statement middle placed first
      refine ⟨List.forall_mem_cons.2 ⟨inner _ _ _ _ _ _ behind first, each⟩,
        .cons (fun s member => ?_) ordered⟩
      obtain ⟨⟨u, listed, start⟩, _⟩ :=
        extends_readSequence places (placed.suffix left) second s member
      rw [start]
      exact spans.before u listed
termination_by ts.length
decreasing_by exact shorter

/-- What is read behind a token up to another one lies between the two. -/
theorem row_readSequence {stop : SymbolSet} {statements : List Statement} (behind : t :: ts <:+ all)
    (given : Gives (r.readSequence nested scope context stop ts) statements (u :: rest)) :
    Row text all statements ⟨t.range.start, u.range.stop⟩ := by
  have between := shown.suffix behind
  have after := (List.suffix_cons t ts).trans behind
  obtain ⟨each, ordered⟩ := nests_readSequence shown places inner after given
  refine ⟨each, ordered, fun s member => ?_⟩
  obtain ⟨⟨v, listed, start⟩, before⟩ :=
    extends_readSequence places between.placed.tail given s member
  have first := (between.earlier listed).1
  rw [← start] at first
  have closing := (between.tail.suffix given.suffix).head.ordered
  exact ⟨first, Nat.le_trans (before u List.mem_cons_self) closing⟩

/-! ### Between brackets -/

omit shown places in
theorem nests_closes {opening closing : Token} {first : List Statement}
    {second : Option (List Statement)} {construct : Construct}
    (inText : (⟨opening.range.start, closing.range.stop⟩ : Range).In text)
    (behind : closing :: ts <:+ all)
    (left : Row text all first ⟨opening.range.start, closing.range.stop⟩)
    (closes : Closes r nested scope ⟨opening.range.start, closing.range.stop⟩ first second ts
      statement rest construct)
    (right : ∀ body ∈ second, Row text all body ⟨opening.range.start, closing.range.stop⟩) :
    statement.Nests text all := by
  -- The range grows if the second operand stands behind the brackets.
  have goes (given : Gives (r.readSecond nested scope construct first
      ⟨opening.range.start, closing.range.stop⟩ ts) statement rest) :
      statement.Nests text all := by
    obtain ⟨t, us, operand, rfl, _, read, rfl⟩ := gives_readSecond.1 given
    have other := inner _ _ _ _ _ _ ((List.suffix_cons closing _).trans behind) read
    exact (left.widen (Range.within_cover_left _ _)).paired
      (.one other (Range.within_cover_right _ _)) _ (inText.cover other.isIn)
  cases second with
  | some body =>
    have both : statement = .paired construct.pairing first body
        ⟨opening.range.start, closing.range.stop⟩ ∧ rest = ts := by
      cases construct <;> exact closes
    rw [both.1]
    exact left.paired (right body rfl) _ inText
  | none =>
    cases construct with
    | grouping | inversion | reflection =>
      rw [closes.1]
      exact left.wrapped nofun inText
    | repetition | commutation | conjugation | rotation | permutation => exact goes closes

theorem nests_readCompound {candidates : List Construct} {opening : Token}
    (behind : opening :: ts <:+ all)
    (given : Gives (r.readCompound nested scope candidates opening ts) statement rest) :
    statement.Nests text all := by
  obtain ⟨first, t, left, read, went⟩ := gives_readCompound.1 given
  have between := shown.suffix behind
  have after := read.suffix.trans ((List.suffix_cons opening ts).trans behind)
  have next := read.suffix.subset List.mem_cons_self
  have row := row_readSequence shown places inner behind read
  split at went
  · obtain ⟨construct, _, closes⟩ := gives_closeCompound.1 went
    exact nests_closes inner (between.through next) after row closes nofun
  · obtain ⟨second, u, right, other, went⟩ := went
    obtain ⟨construct, _, closes⟩ := gives_closeCompound.1 went
    have further := other.suffix.trans (List.suffix_cons t left)
    have closed := between.through ((further.trans read.suffix).subset List.mem_cons_self)
    have later := (shown.suffix after).earlier (other.suffix.subset List.mem_cons_self)
    have rowToo := row_readSequence shown places inner after other
    refine nests_closes inner closed (further.trans after) (row.widen ⟨Nat.le_refl _, later.2⟩)
      closes ?_
    rintro _ ⟨⟩
    exact rowToo.widen ⟨(between.earlier next).1, Nat.le_refl _⟩

/-! ### At the beginning of a statement -/

omit places shown in
theorem nests_readWrapped {w : Wrapper} {operator : Range} (inText : operator.In text)
    (behind : ts <:+ all) (given : Gives (readWrapped nested scope w operator ts) statement rest)
    (plain : ∀ name, w ≠ .shorthand name) :
    statement.Nests text all := by
  obtain ⟨t, us, operand, rfl, read, rfl⟩ := gives_readWrapped.1 given
  have part := inner _ _ _ _ _ _ behind read
  exact Row.wrapped (.one part (Range.within_cover_right _ _)) plain (inText.cover part.isIn)

omit places inner in
theorem nests_readCycle {sign : Option (Cycle.Sign × Range)} {bracket : Token}
    (behind : bracket :: ts <:+ all)
    (given : Gives (r.readCycle scope sign bracket ts) statement rest)
    (signed : ∀ s ∈ sign, s.2.In text ∧ s.2.start ≤ bracket.range.start) :
    statement.Nests text all := by
  obtain ⟨last, range, cycle, after, start, stop, rfl⟩ := extends_readCycle given
  have inText := in_cycle (shown.suffix behind) signed (after.subset List.mem_cons_self)
  rw [← start, ← stop] at inText
  exact .atom inText

theorem nests_readStart {start : Start} (behind : t :: ts <:+ all)
    (given : Gives (r.readStart nested scope context t ts start) statement rest) :
    statement.Nests text all := by
  have here := (shown.suffix behind).head
  have after := (List.suffix_cons t ts).trans behind
  cases start with
  | turn =>
    rw [readStart] at given
    split at given
    · obtain ⟨rfl, _⟩ := gives_ok_iff.1 given
      exact .atom here
    · exact absurd given (not_gives_error _ _ _)
  | nop =>
    obtain ⟨rfl, _⟩ := gives_ok_iff.1 given
    exact .atom here
  | shorthand =>
    obtain ⟨_, _, _, _, _, _, rfl, _⟩ := gives_readShorthand.1 given
    exact .shorthand here (behind.subset List.mem_cons_self)
  | compound candidates => exact nests_readCompound shown places inner behind given
  | cycle =>
    exact nests_readCycle shown behind given fun _ member => absurd member (Option.not_mem_none _)
  | signedCycle =>
    obtain ⟨bracket, us, rfl, _, read⟩ := gives_readSignedCycle.1 given
    refine nests_readCycle shown after read ?_
    rintro _ ⟨⟩
    exact ⟨here, Nat.le_trans here.ordered ((shown.suffix behind).placed.le List.mem_cons_self)⟩
  | inversion => exact nests_readWrapped inner here after given (by rintro _ ⟨⟩)
  | reflection => exact nests_readWrapped inner here after given (by rintro _ ⟨⟩)
  | repetition =>
    obtain ⟨count, _, repeated⟩ := gives_check_iff.1 given
    obtain ⟨us, counted, wrapped⟩ := gives_readRepeated.1 repeated
    have left : us <:+ ts := by
      obtain ⟨u, rfl, _⟩ | ⟨rfl, _⟩ := counted
      · exact List.suffix_cons u us
      · exact List.suffix_refl ts
    exact nests_readWrapped inner here (left.trans after) wrapped (by rintro _ ⟨⟩)

/-! ### Behind a statement -/

/-- What a token makes of a statement reaches from there to the token or further. -/
theorem nests_extendBy {larger : Statement} {next : Token} {behind : Behind}
    (suffix : t :: ts <:+ all) (nests : statement.Nests text all)
    (before : ∀ u ∈ t :: ts, statement.range.stop ≤ u.range.start)
    (found : r.behind? t next = some behind)
    (given : Gives (r.extendBy nested scope context statement t ts behind) larger rest) :
    larger.Nests text all := by
  have upTo {u : Token} (member : u ∈ t :: ts) :=
    in_upTo nests.isIn ((shown.suffix suffix).isIn member) (before u member)
  have after := (List.suffix_cons t ts).trans suffix
  cases behind with
  | wrap w =>
    obtain ⟨rfl, _⟩ := gives_ok_iff.1 given
    obtain ⟨inText, within⟩ := upTo List.mem_cons_self
    refine Row.wrapped (.one nests within) ?_ inText
    obtain rfl | rfl := behind?_wrap found
    · nofun
    · nofun
  | count =>
    obtain ⟨count, _, same⟩ := gives_check_iff.1 given
    obtain ⟨rfl, _⟩ := gives_pure_iff.1 same
    obtain ⟨inText, within⟩ := upTo List.mem_cons_self
    exact Row.wrapped (.one nests within) nofun inText
  | countNext =>
    obtain ⟨_, _, counted, same⟩ := gives_bind_iff.1 given
    obtain ⟨rfl, _⟩ := gives_pure_iff.1 same
    obtain ⟨u, count, rfl, _, rfl⟩ := gives_readCountBehind.1 counted
    obtain ⟨inText, within⟩ := upTo (List.mem_cons_of_mem t List.mem_cons_self)
    exact Row.wrapped (.one nests within) nofun inText
  | bracket candidates =>
    obtain ⟨second, u, construct, read, _, rfl⟩ := gives_readBracketBehind.1 given
    obtain ⟨inText, within⟩ := upTo (List.mem_cons_of_mem t (read.suffix.subset List.mem_cons_self))
    have row := row_readSequence shown places inner suffix read
    have starts := Nat.le_trans nests.isIn.ordered (before t List.mem_cons_self)
    exact Row.paired (.one nests within) (row.widen ⟨starts, Nat.le_refl _⟩) _ inText
  | delimiter candidates =>
    obtain ⟨construct, u, us, second, _, rfl, read, rfl⟩ := gives_readDelimiterBehind.1 given
    obtain ⟨inText, within⟩ := upTo List.mem_cons_self
    have other := inner _ _ _ _ _ _ after read
    exact Row.paired (.one nests (within.trans (Range.within_cover_left _ _)))
      (.one other (Range.within_cover_right _ _)) _ (inText.cover other.isIn)

theorem nests_readBehind {statement result : Statement} {first : Token} {ts : List Token}
    (behind : ts <:+ all) (nests : statement.Nests text all)
    (spans : Spans first statement.range ts) (positive : first.range.start < first.range.stop)
    (given : Gives (r.readBehind nested scope context statement ts) result rest) :
    result.Nests text all := by
  match ts with
  | [] =>
    obtain ⟨rfl, _⟩ := gives_readBehind_nil.1 given
    exact nests
  | t :: ts =>
    have went := gives_readBehind_cons.1 given
    split at went
    · obtain ⟨rfl, _⟩ := went
      exact nests
    · rename_i extension found
      obtain ⟨larger, middle, extended, more⟩ := went
      have placed := shown.placed.suffix behind
      have grown := (extends_extendBy places placed spans positive found extended).1
      have shorter : middle.length < (t :: ts).length :=
        Nat.lt_succ_of_le extended.suffix.length_le
      have left := extended.suffix.trans ((List.suffix_cons t ts).trans behind)
      have step := nests_extendBy shown places inner behind nests spans.before found extended
      exact nests_readBehind left step grown positive more
termination_by ts.length
decreasing_by exact shorter

end

/-- Statements nest, however deeply one is nested in the other. -/
theorem nests_readStatement (r : Reader) (shown : Shown text all) (levels : Nat) :
    Nesting text all (r.readStatement levels) := by
  induction levels with
  | zero =>
    intro scope context t ts statement rest _ given
    exact absurd given gives_readStatement_zero
  | succ levels ih =>
    intro scope context t ts statement rest behind given
    obtain ⟨beginning, middle, begun, went⟩ := gives_readStatement_succ.1 given
    obtain ⟨_, start, _, _, read, _⟩ := gives_readBeginning.1 begun
    have places := extends_readStatement r levels
    have placed := shown.placed.suffix behind
    have left := read.suffix.trans ((List.suffix_cons t ts).trans behind)
    obtain ⟨spans, _, _⟩ := extends_readStart places placed read
    have first := nests_readStart shown places ih behind read
    exact nests_readBehind shown places ih left first spans placed.pos went

theorem nests_readStatements {statements : List Statement}
    (read : r.readStatements text = .ok statements) :
    ∀ s ∈ statements, s.Nests text (r.lexer.tokens text) := by
  obtain ⟨left, given⟩ := readStatements_eq_ok_iff.1 read
  have shown := Shown.tokens r.lexer text
  exact (nests_readSequence shown (extends_readStatement r _) (nests_readStatement r shown _)
    (List.suffix_refl _) given).1

/-- A lexicon in which one shorthand abbreviates another, whose second operand is empty. -/
def twofold (size : Size) : Lexicon :=
  ((Lexicon.standard size).addShorthand "Q" "[R:]").addShorthand "QX" "U Q'"

/-- The shorthands stand between brackets, before an operand that is empty as well. -/
theorem nodeLabels_twofold :
    nodeLabels (Reader.read { dialect := (twofold ⟨2, by decide, by decide⟩).dialect } "[QX:]") =
      some ["move", "move", "sequence", "sequence", "conjugation", "macro", "inversion", "macro",
        "sequence", "sequence", "conjugation", "sequence"] := by
  decide +kernel

end Reader

end CubeScript
