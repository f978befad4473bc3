import CubeScript.Proofs.Reading.Extents
import CubeScript.Proofs.Reading.Lifting

/-!
# Two readers that read the same

Two readers may read the same statement of a text and yet have come to it in different ways, as far
as the functions here can tell. They have not: the parts of a statement can be found in it, so they
have read the same parts, and left the same tokens. A third reader that reads what two others agree
on, in the statements inside, therefore does so in every statement made of them.

For what follows a statement this needs the statement between any two steps, which is the one with
the given inner statement that the final one has grown from (`Statement.Grown.unique`).
-/

namespace CubeScript

namespace Statement

/-- The parts that are read first: what a wrapper encloses, and the first operand of a pairing. -/
def body : Statement → List Statement
  | .atom _ _ => []
  | .wrapped _ body _ => body
  | .paired _ first _ _ => first

theorem sizeOf_inner? {s b : Statement} (inner : s.inner? = some b) : sizeOf b < sizeOf s := by
  match s with
  | .atom _ _ => cases inner
  | .wrapped (.shorthand _) _ _ => cases inner
  | .wrapped .grouping [c] range | .wrapped .inversion [c] range
  | .wrapped .reflection [c] range | .wrapped (.repetition _) [c] range
  | .paired _ [c] _ range =>
    obtain ⟨_, same⟩ := Option.ite_none_right_eq_some.1 inner
    cases same
    simp only [wrapped.sizeOf_spec, paired.sizeOf_spec, List.cons.sizeOf_spec]
    omega
  | .wrapped .grouping [] _ | .wrapped .inversion [] _ | .wrapped .reflection [] _
  | .wrapped (.repetition _) [] _ | .paired _ [] _ _ => cases inner
  | .wrapped .grouping (_ :: _ :: _) _ | .wrapped .inversion (_ :: _ :: _) _
  | .wrapped .reflection (_ :: _ :: _) _ | .wrapped (.repetition _) (_ :: _ :: _) _
  | .paired _ (_ :: _ :: _) _ _ => cases inner

namespace Grown

theorem sizeOf_le {b s : Statement} (grown : b.Grown s) : sizeOf b ≤ sizeOf s := by
  induction grown with
  | refl => exact Nat.le_refl _
  | step _ inner ih =>
    have := sizeOf_inner? inner
    omega

/-- Of two statements that one has grown from, one has grown from the other. -/
theorem total {a b s : Statement} (first : a.Grown s) (second : b.Grown s) :
    a.Grown b ∨ b.Grown a := by
  induction first with
  | refl => exact .inr second
  | step grown inner ih =>
    cases second with
    | refl => exact .inl (.step grown inner)
    | step other same =>
      cases inner.symm.trans same
      exact ih other

/-- There is one statement with a given inner one on the way to a statement. -/
theorem unique {a b c s : Statement} (first : a.Grown s) (second : b.Grown s)
    (inner : a.inner? = some c) (same : b.inner? = some c) : a = b := by
  have key {a b : Statement} (grown : a.Grown b) (inner : a.inner? = some c)
      (same : b.inner? = some c) : a = b := by
    cases grown with
    | refl => rfl
    | step earlier outer =>
      cases outer.symm.trans same
      have smaller := sizeOf_inner? inner
      have larger := earlier.sizeOf_le
      omega
  obtain grown | grown := first.total second
  · exact key grown inner same
  · exact (key grown same inner).symm

/-- There is one statement without an inner one that a statement has grown from. -/
theorem eq_of_inner?_eq_none {a b s : Statement} (first : a.Grown s) (second : b.Grown s)
    (outer : a.inner? = none) (outerToo : b.inner? = none) : a = b := by
  obtain grown | grown := first.total second
  · cases grown with
    | refl => rfl
    | step _ inner => cases outerToo.symm.trans inner
  · cases grown with
    | refl => rfl
    | step _ inner => cases outer.symm.trans inner

end Grown

end Statement

namespace Reading

variable {α : Type} {ts : List Token}

/-- Whether a third reading gives what two others give, wherever they give the same. -/
def Merges (tight wide both : Reading α ts) : Prop :=
  ∀ a rest left, Gives tight a rest → Gives wide a left → rest = left ∧ Gives both a rest

theorem Merges.refl (reading : Reading α ts) : Merges reading reading reading :=
  fun _ _ _ given other => ⟨(given.unique other).2, given⟩

end Reading

namespace Reader

open Reading

/-- Whether a third way to read the statements inside others reads what two others agree on. -/
def MergesNested (tight wide both : Nested) : Prop := ∀ scope context t ts, Placed (t :: ts) →
  Merges (tight scope context t ts) (wide scope context t ts) (both scope context t ts)

section

variable {r : Reader} {tight wide both : Nested} {depth nesting : Nat}
  (inner : MergesNested tight wide both)

include inner

theorem merges_readSequence (scope : Scope) (context : Diagnostic.Context) (stop : SymbolSet)
    {ts : List Token} (placed : Placed ts) :
    Merges (r.readSequence tight scope context stop ts)
      ((r.withLimits depth nesting).readSequence wide scope context stop ts)
      (r.readSequence both scope context stop ts) := by
  intro statements rest left given other
  match ts with
  | [] =>
    obtain ⟨rfl, rfl⟩ := gives_readSequence_nil.1 given
    obtain ⟨_, rfl⟩ := gives_readSequence_nil.1 other
    exact ⟨rfl, gives_readSequence_nil.2 ⟨rfl, rfl⟩⟩
  | t :: ts =>
    rw [gives_readSequence_cons] at given other
    rw [dialect_withLimits] at other
    rw [gives_readSequence_cons]
    split at given
    · rename_i stops
      rw [if_pos stops] at other ⊢
      exact ⟨given.2.trans other.2.symm, given⟩
    · rename_i goes
      rw [if_neg goes] at other ⊢
      obtain ⟨statement, middle, later, read, more, rfl⟩ := given
      obtain ⟨_, _, _, readToo, moreToo, same⟩ := other
      cases same
      obtain ⟨rfl, merged⟩ := inner scope context t ts placed _ _ _ read readToo
      have shorter : middle.length < (t :: ts).length :=
        Nat.lt_succ_of_le read.suffix.length_le
      obtain ⟨rfl, rest⟩ := merges_readSequence scope context stop
        (placed.tail.suffix read.suffix) _ _ _ more moreToo
      exact ⟨rfl, statement, middle, later, merged, rest, rfl⟩
termination_by ts.length
decreasing_by exact shorter

theorem merges_closes {closed : Range} {first : List Statement}
    {second : Option (List Statement)} {scope : Scope} {ts rest left : List Token}
    {statement : Statement} {construct : Construct} (placed : Placed ts)
    (closes : Closes r tight scope closed first second ts statement rest construct)
    (other : Closes (r.withLimits depth nesting) wide scope closed first second ts statement left
      construct) :
    rest = left ∧ Closes r both scope closed first second ts statement rest construct := by
  have goes : Gives (r.readSecond tight scope construct first closed ts) statement rest →
      Gives ((r.withLimits depth nesting).readSecond wide scope construct first closed ts)
        statement left → rest = left ∧
        Gives (r.readSecond both scope construct first closed ts) statement rest := by
    intro given other
    obtain ⟨t, us, operand, rfl, stops, read, rfl⟩ := gives_readSecond.1 given
    obtain ⟨_, _, _, same, _, readToo, sameToo⟩ := gives_readSecond.1 other
    cases same
    cases sameToo
    obtain ⟨rfl, merged⟩ := inner _ _ _ _ placed _ _ _ read readToo
    exact ⟨rfl, gives_readSecond.2 ⟨t, us, operand, rfl, stops, merged, rfl⟩⟩
  have keeps (closes : statement = .paired construct.pairing first (second.getD []) closed ∧
      rest = ts) (other : statement = .paired construct.pairing first (second.getD []) closed ∧
      left = ts) : rest = left := closes.2.trans other.2.symm
  cases second with
  | some second => cases construct <;> exact ⟨keeps closes other, closes⟩
  | none =>
    cases construct with
    | grouping => exact ⟨closes.2.trans other.2.symm, closes⟩
    | inversion => exact ⟨closes.2.trans other.2.symm, closes⟩
    | reflection => exact ⟨closes.2.trans other.2.symm, closes⟩
    | repetition => exact goes closes other
    | commutation => exact goes closes other
    | conjugation => exact goes closes other
    | rotation => exact goes closes other
    | permutation => exact goes closes other

omit inner in
/-- What has been closed by brackets has its operands for parts. -/
theorem parts_of_closes {nested : Nested} {closed : Range} {first : List Statement}
    {second : Option (List Statement)} {scope : Scope} {ts rest : List Token}
    {statement : Statement} {construct : Construct}
    (closes : Closes r nested scope closed first second ts statement rest construct) :
    statement.body = first ∧ ∀ operands, second = some operands →
      statement = .paired construct.pairing first operands closed := by
  have goes : Gives (r.readSecond nested scope construct first closed ts) statement rest →
      statement.body = first := by
    intro given
    obtain ⟨_, _, _, _, _, _, rfl⟩ := gives_readSecond.1 given
    rfl
  cases second with
  | some second =>
    have same : statement = .paired construct.pairing first second closed := by
      cases construct <;> exact closes.1
    refine ⟨by rw [same]; rfl, ?_⟩
    rintro _ ⟨⟩
    exact same
  | none =>
    refine ⟨?_, nofun⟩
    cases construct with
    | grouping => rw [closes.1]; rfl
    | inversion => rw [closes.1]; rfl
    | reflection => rw [closes.1]; rfl
    | repetition => exact goes closes
    | commutation => exact goes closes
    | conjugation => exact goes closes
    | rotation => exact goes closes
    | permutation => exact goes closes

theorem merges_closeCompound {candidates : List Construct} {context : Diagnostic.Context}
    {opening : Token} {first : List Statement} {second : Option (List Statement)}
    {closing : Token} {scope : Scope} {ts : List Token} (placed : Placed ts) :
    Merges (r.closeCompound tight scope candidates context opening first second closing ts)
      ((r.withLimits depth nesting).closeCompound wide scope candidates context opening first
        second closing ts)
      (r.closeCompound both scope candidates context opening first second closing ts) := by
  intro statement rest left given other
  obtain ⟨construct, one, closes⟩ := gives_closeCompound.1 given
  obtain ⟨constructToo, oneToo, closesToo⟩ := gives_closeCompound.1 other
  have same : r.closedBy closing second.isSome candidates = [constructToo] := oneToo
  cases one.symm.trans same
  obtain ⟨rfl, merged⟩ := merges_closes inner placed closes closesToo
  exact ⟨rfl, gives_closeCompound.2 ⟨construct, one, merged⟩⟩

theorem merges_readCompound {candidates : List Construct} {opening : Token} {scope : Scope}
    {ts : List Token} (placed : Placed ts) :
    Merges (r.readCompound tight scope candidates opening ts)
      ((r.withLimits depth nesting).readCompound wide scope candidates opening ts)
      (r.readCompound both scope candidates opening ts) := by
  intro statement rest left given other
  obtain ⟨first, t, us, read, went⟩ := gives_readCompound.1 given
  obtain ⟨firstToo, u, vs, readToo, wentToo⟩ := gives_readCompound.1 other
  have body {r : Reader} {nested : Nested} {first : List Statement} {t : Token}
      {us rest : List Token} (went : if r.delimitedBy t candidates = [] then
        Gives (r.closeCompound nested scope candidates (.ofCandidates candidates) opening first
          none t us) statement rest
      else ∃ second u right, Gives (r.readSequence nested scope
          (.ofCandidates (r.delimitedBy t candidates)) (closings (r.delimitedBy t candidates))
          us) second (u :: right) ∧
        Gives (r.closeCompound nested scope (r.delimitedBy t candidates)
          (.ofCandidates candidates) opening first (some second) u right) statement rest) :
      statement.body = first := by
    split at went
    · obtain ⟨_, _, closes⟩ := gives_closeCompound.1 went
      exact (parts_of_closes closes).1
    · obtain ⟨_, _, _, _, went⟩ := went
      obtain ⟨_, _, closes⟩ := gives_closeCompound.1 went
      exact (parts_of_closes closes).1
  cases (body went).symm.trans (body wentToo)
  obtain ⟨same, merged⟩ := merges_readSequence inner _ _ _ placed _ _ _ read readToo
  cases same
  have behind := (placed.suffix read.suffix).tail
  simp only [gives_readCompound]
  rw [delimitedBy_withLimits] at wentToo
  split at went
  · rename_i single
    rw [if_pos single] at wentToo
    obtain ⟨rfl, closed⟩ := merges_closeCompound inner behind _ _ _ went wentToo
    refine ⟨rfl, first, t, us, merged, ?_⟩
    rw [if_pos single]
    exact closed
  · rename_i delimited
    rw [if_neg delimited] at wentToo
    obtain ⟨second, v, ws, next, closed⟩ := went
    obtain ⟨secondToo, x, xs, nextToo, closedToo⟩ := wentToo
    obtain ⟨_, _, closes⟩ := gives_closeCompound.1 closed
    obtain ⟨_, _, closesToo⟩ := gives_closeCompound.1 closedToo
    have operands := ((parts_of_closes closes).2 second rfl).symm.trans
      ((parts_of_closes closesToo).2 secondToo rfl)
    obtain ⟨_, _, rfl, _⟩ := Statement.paired.inj operands
    obtain ⟨same, mergedToo⟩ := merges_readSequence inner _ _ _ behind _ _ _ next nextToo
    cases same
    have last := (behind.suffix next.suffix).tail
    obtain ⟨rfl, finished⟩ := merges_closeCompound inner last _ _ _ closed closedToo
    refine ⟨rfl, first, t, us, merged, ?_⟩
    rw [if_neg delimited]
    exact ⟨second, v, ws, mergedToo, finished⟩

/-! ### Behind a statement -/

theorem merges_extendBy {context : Diagnostic.Context} {statement : Statement} {t : Token}
    {ts : List Token} {behind : Behind} (placed : Placed ts) :
    Merges (r.extendBy tight scope context statement t ts behind)
      ((r.withLimits depth nesting).extendBy wide scope context statement t ts behind)
      (r.extendBy both scope context statement t ts behind) := by
  cases behind with
  | wrap w => exact .refl _
  | count => exact .refl _
  | countNext => exact .refl _
  | bracket candidates =>
    intro larger rest left given other
    obtain ⟨second, u, construct, read, one, rfl⟩ := gives_readBracketBehind.1 given
    obtain ⟨secondToo, v, _, readToo, _, same⟩ := gives_readBracketBehind.1 other
    obtain ⟨_, _, rfl, _⟩ := Statement.paired.inj same
    obtain ⟨same, merged⟩ := merges_readSequence inner _ _ _ placed _ _ _ read readToo
    cases same
    exact ⟨rfl, gives_readBracketBehind.2 ⟨second, u, construct, merged, one, rfl⟩⟩
  | delimiter candidates =>
    intro larger rest left given other
    obtain ⟨construct, u, us, second, one, rfl, read, rfl⟩ := gives_readDelimiterBehind.1 given
    obtain ⟨_, _, _, _, _, sameTokens, readToo, same⟩ := gives_readDelimiterBehind.1 other
    obtain ⟨_, _, operands, _⟩ := Statement.paired.inj same
    cases sameTokens
    cases operands
    obtain ⟨rfl, merged⟩ := inner _ _ _ _ placed _ _ _ read readToo
    exact ⟨rfl, gives_readDelimiterBehind.2 ⟨construct, u, us, second, one, rfl, merged, rfl⟩⟩

/-- Both readers have made the same of the statement at every token behind it, since the final one
has grown from what either has made. -/
theorem merges_readBehind (extends_ : Extends tight) (extendsToo : Extends wide)
    {context : Diagnostic.Context} {statement : Statement} {first : Token} {ts : List Token}
    (placed : Placed ts) (spans : Spans first statement.range ts)
    (positive : first.range.start < first.range.stop) :
    Merges (r.readBehind tight scope context statement ts)
      ((r.withLimits depth nesting).readBehind wide scope context statement ts)
      (r.readBehind both scope context statement ts) := by
  intro result rest left given other
  match ts with
  | [] =>
    obtain ⟨rfl, rfl⟩ := gives_readBehind_nil.1 given
    obtain ⟨_, rfl⟩ := gives_readBehind_nil.1 other
    exact ⟨rfl, gives_readBehind_nil.2 ⟨rfl, rfl⟩⟩
  | t :: ts =>
    rw [gives_readBehind_cons] at given other ⊢
    rw [behind?_withLimits] at other
    cases found : r.behind? t (scope.peek ts) with
    | none =>
      rw [found] at given other
      exact ⟨given.2.trans other.2.symm, given⟩
    | some behind =>
      rw [found] at given other
      obtain ⟨larger, middle, extended, more⟩ := given
      obtain ⟨largerToo, _, extendedToo, moreToo⟩ := other
      have reaches := extends_extendBy extends_ placed spans positive found extended
      have foundToo : (r.withLimits depth nesting).behind? t (scope.peek ts) = some behind := found
      have reachesToo := extends_extendBy extendsToo placed spans positive foundToo extendedToo
      have behindToo := placed.tail.suffix extendedToo.suffix
      have after := placed.tail.suffix extended.suffix
      have grown := extends_readBehind extends_ after reaches.1 positive more
      have grownToo := extends_readBehind extendsToo behindToo reachesToo.1 positive moreToo
      obtain rfl := grown.2.unique grownToo.2 reaches.2 reachesToo.2
      obtain ⟨rfl, merged⟩ := merges_extendBy inner placed.tail _ _ _ extended extendedToo
      have shorter : middle.length < (t :: ts).length :=
        Nat.lt_succ_of_le extended.suffix.length_le
      obtain ⟨rfl, finished⟩ := merges_readBehind extends_ extendsToo after reaches.1 positive
        _ _ _ more moreToo
      exact ⟨rfl, larger, middle, merged, finished⟩
termination_by ts.length
decreasing_by exact shorter

/-! ### At the beginning of a statement -/

theorem merges_readWrapped {w : Wrapper} {operator : Range} {ts : List Token}
    (placed : Placed ts) :
    Merges (readWrapped tight scope w operator ts) (readWrapped wide scope w operator ts)
      (readWrapped both scope w operator ts) := by
  intro statement rest left given other
  obtain ⟨t, us, operand, rfl, read, rfl⟩ := gives_readWrapped.1 given
  obtain ⟨_, _, _, sameTokens, readToo, same⟩ := gives_readWrapped.1 other
  obtain ⟨_, operands, _⟩ := Statement.wrapped.inj same
  cases sameTokens
  cases operands
  obtain ⟨rfl, merged⟩ := inner _ _ _ _ placed _ _ _ read readToo
  exact ⟨rfl, gives_readWrapped.2 ⟨t, us, operand, rfl, merged, rfl⟩⟩

theorem merges_readRepeated {count : Nat} {range : Range} {ts : List Token}
    (placed : Placed ts) :
    Merges (r.readRepeated tight scope count range ts)
      ((r.withLimits depth nesting).readRepeated wide scope count range ts)
      (r.readRepeated both scope count range ts) := by
  intro statement rest left given other
  obtain ⟨us, behind, read⟩ := gives_readRepeated.1 given
  obtain ⟨usToo, behindToo, readToo⟩ := gives_readRepeated.1 other
  have same : us = usToo := by
    obtain ⟨t, rfl, counts⟩ | ⟨rfl, _, none⟩ := behind
    · obtain ⟨_, same, _⟩ | ⟨rfl, _, none⟩ := behindToo
      · cases same
        rfl
      · exact absurd counts (none t rfl)
    · obtain ⟨t, rfl, counts⟩ | ⟨rfl, _⟩ := behindToo
      · exact absurd counts (none t rfl)
      · rfl
  cases same
  have after : Placed us := by
    obtain ⟨t, rfl, _⟩ | ⟨rfl, _⟩ := behind
    · exact placed.tail
    · exact placed
  obtain ⟨rfl, merged⟩ := merges_readWrapped inner after _ _ _ read readToo
  exact ⟨rfl, gives_readRepeated.2 ⟨us, behind, merged⟩⟩

theorem merges_readShorthand {context : Diagnostic.Context} {t : Token} {ts : List Token} :
    Merges (r.readShorthand tight scope context t ts)
      ((r.withLimits depth nesting).readShorthand wide scope context t ts)
      (r.readShorthand both scope context t ts) := by
  intro statement rest left given other
  obtain ⟨text, body, after, known, fits, read, rfl, rfl⟩ := gives_readShorthand.1 given
  obtain ⟨_, _, _, knownToo, _, readToo, same, rfl⟩ := gives_readShorthand.1 other
  obtain ⟨_, rfl, _⟩ := Statement.wrapped.inj same
  cases known.symm.trans knownToo
  have placed := r.lexer.placed_tokens text
  obtain ⟨_, merged⟩ := merges_readSequence inner _ _ _ placed _ _ _ read readToo
  exact ⟨rfl, gives_readShorthand.2 ⟨text, body, after, known, fits, merged, rfl, rfl⟩⟩

theorem merges_readStart {context : Diagnostic.Context} {t : Token} {ts : List Token}
    {start : Start} (placed : Placed ts) :
    Merges (r.readStart tight scope context t ts start)
      ((r.withLimits depth nesting).readStart wide scope context t ts start)
      (r.readStart both scope context t ts start) := by
  cases start with
  | turn => exact .refl _
  | nop => exact .refl _
  | shorthand => exact merges_readShorthand inner
  | compound candidates => exact merges_readCompound inner placed
  | cycle =>
    rw [readStart, readStart, readStart, readCycle_withLimits]
    exact .refl _
  | signedCycle =>
    simp only [readStart, readSignedCycle, readCycle_withLimits, dialect_withLimits]
    exact .refl _
  | inversion => exact merges_readWrapped inner placed
  | reflection => exact merges_readWrapped inner placed
  | repetition =>
    intro statement rest left given other
    obtain ⟨count, counted, read⟩ := gives_check_iff.1 given
    obtain ⟨countToo, same, readToo⟩ := gives_check_iff.1 other
    cases counted.symm.trans same
    obtain ⟨rfl, merged⟩ := merges_readRepeated inner placed _ _ _ read readToo
    exact ⟨rfl, gives_check_iff.2 ⟨count, counted, merged⟩⟩

end

end Reader

end CubeScript
