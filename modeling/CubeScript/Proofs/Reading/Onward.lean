import CubeScript.Proofs.Reading.Pointing

/-!
# Diagnostics point onward

What is found wrong with a statement does not lie before it: no diagnostic starts before the first
token of the statement it was found in (`Reader.onward_readStatement`). A part of a cycle is
reported as a whole, from its first face on, and operands that may belong to several constructs from
the first of them on, but each of these begins at a token of the statement.
-/

namespace CubeScript

/-- Whether a diagnostic does not start before a place. -/
def Diagnostic.From (start : Nat) (d : Diagnostic) : Prop := start ≤ d.range.start

/-- Whether tokens lie one behind the other, and neither they nor the end of their text lie before a
place. -/
structure Ahead (start : Nat) (scope : Scope) (ts : List Token) : Prop where
  placed : Placed ts
  tokens : ∀ t ∈ ts, start ≤ t.range.start
  stop : start ≤ scope.textEnd

namespace Ahead

variable {start : Nat} {scope : Scope} {t : Token} {ts us : List Token}

theorem suffix (ahead : Ahead start scope ts) (behind : us <:+ ts) : Ahead start scope us :=
  ⟨ahead.placed.suffix behind, fun t member => ahead.tokens t (behind.subset member), ahead.stop⟩

theorem tail (ahead : Ahead start scope (t :: ts)) : Ahead start scope ts :=
  ahead.suffix (List.suffix_cons t ts)

theorem head (ahead : Ahead start scope (t :: ts)) : start ≤ t.range.start :=
  ahead.tokens t List.mem_cons_self

theorem peek (ahead : Ahead start scope ts) : start ≤ (scope.peek ts).range.start := by
  cases ts with
  | nil => exact ahead.stop
  | cons t ts => exact ahead.head

end Ahead

namespace Reader

open Reading Diagnostic

variable {r : Reader} {scope : Scope} {context : Diagnostic.Context} {start : Nat}

/-! ### Cycles -/

section

variable {size : Size} {draft result : CycleDraft} {t next : Token} {ts : List Token}

theorem onward_repeatCount (ahead : start ≤ t.range.start) :
    Reports (From start) (repeatCount t) := by
  unfold repeatCount
  split
  · exact .ok _
  · exact .error ahead

theorem onward_item {range : Range} (ahead : start ≤ range.start) :
    Reports (From start) (draft.item size range) := by
  unfold CycleDraft.item
  split
  · exact .error ahead
  · split
    · exact .error ahead
    · exact .ok _

theorem onward_extendCycle (begun : ∀ first ∈ draft.start, start ≤ first)
    (ahead : start ≤ t.range.start) : Reports (From start) (r.extendCycle size draft t next) := by
  unfold extendCycle
  dsimp only
  split
  · refine .bind ?_ fun _ _ => .ok _
    exact .ite (fun _ => .error ahead) fun _ => .ite (fun _ => .error ahead) fun _ => .ok _
  · refine .ite (fun _ => .bind ?_ fun _ _ => .ok _) fun _ => ?_
    · refine .ite (fun _ => .error ahead) fun _ => .ite (fun _ => .error ahead) fun _ => ?_
      split
      · exact .error ahead
      · exact .ok _
    · split
      · refine .bind ?_ fun _ _ => .ok _
        exact .ite (fun _ => .error ahead) fun _ => .ok _
      · refine .bind (.ite (fun _ => .error ahead) fun _ => ?_) fun _ _ => .ok _
        split
        · exact .error ahead
        · rename_i first begins
          exact .bind (onward_item (begun first begins)) fun _ _ => .ok _

/-- The part that is being written begins where it did or at the token that is taken in. -/
theorem start_extendCycle (begun : ∀ first ∈ draft.start, start ≤ first)
    (ahead : start ≤ t.range.start) {ended : Bool}
    (extended : r.extendCycle size draft t next = .ok (result, ended)) :
    ∀ first ∈ result.start, start ≤ first := by
  rw [extendCycle] at extended
  split at extended
  · obtain ⟨_, added, same⟩ := Except.bind_eq_ok_iff.1 extended
    cases same
    rw [addSign] at added
    split at added
    · cases added
    · split at added
      all_goals cases added
      exact begun
  · split at extended
    · obtain ⟨_, added, same⟩ := Except.bind_eq_ok_iff.1 extended
      cases same
      rw [addNumber] at added
      repeat' split at added
      all_goals cases added
      exact begun
    · split at extended
      · obtain ⟨_, added, same⟩ := Except.bind_eq_ok_iff.1 extended
        cases same
        rw [addFace] at added
        split at added
        all_goals cases added
        rintro _ ⟨⟩
        cases begins : draft.start with
        | none => exact ahead
        | some first => exact begun first begins
      · obtain ⟨_, completed, same⟩ := Except.bind_eq_ok_iff.1 extended
        cases same
        rw [completePart] at completed
        split at completed
        · cases completed
        · split at completed
          · cases completed
          · obtain ⟨item, _, same⟩ := Except.bind_eq_ok_iff.1 completed
            cases same
            exact fun _ member => absurd member (Option.not_mem_none _)

theorem onward_readParts {bracket : Token} (opened : start ≤ bracket.range.start)
    (begun : ∀ first ∈ draft.start, start ≤ first) (ahead : Ahead start scope ts) :
    Reports (From start) (r.readParts scope size bracket draft ts) := by
  induction ts generalizing draft with
  | nil => exact .error opened
  | cons t ts ih =>
    refine .bind (onward_extendCycle begun ahead.head) fun (next, ended) extended => ?_
    refine .ite (fun _ => .ok _) fun _ => ?_
    exact .bind (ih (start_extendCycle begun ahead.head extended) ahead.tail) fun _ _ => .ok _

theorem onward_makeCycle {range : Range} (ahead : start ≤ range.start) :
    Reports (From start) (makeCycle draft range) := by
  unfold makeCycle
  dsimp only
  split
  · exact .ok _
  · exact .error ahead
  · exact .error ahead

theorem onward_readCycle {sign : Option (Cycle.Sign × Range)} {bracket : Token}
    (signed : ∀ s ∈ sign, start ≤ s.2.start) (ahead : Ahead start scope (bracket :: ts)) :
    Reports (From start) (r.readCycle scope sign bracket ts) := by
  have begins : start ≤ cycleStart sign bracket := by
    cases sign with
    | none => exact ahead.head
    | some s => exact signed s rfl
  unfold readCycle
  dsimp only
  split
  · exact .error ahead.head
  · have begun : ∀ first ∈ (none : Option Nat), start ≤ first := fun _ member =>
      absurd member (Option.not_mem_none _)
    refine .bind (onward_readParts ahead.head begun ahead.tail) fun _ _ => ?_
    exact .bind (onward_makeCycle begins) fun _ _ => .ok _

theorem onward_readSignedCycle (ahead : Ahead start scope (t :: ts)) :
    Reports (From start) (r.readSignedCycle scope t ts) := by
  unfold readSignedCycle
  dsimp only
  split
  · exact .error ahead.stop
  · refine .ite (fun _ => .bind (onward_readCycle ?_ ahead.tail) fun _ _ => .ok _) fun _ =>
      .error ahead.tail.head
    rintro _ ⟨⟩
    exact ahead.head

end

/-! ### Statements inside statements -/

/-- Whether what is found wrong with statements does not lie before them. -/
def Onwards (nested : Nested) : Prop := ∀ start scope context t ts, Ahead start scope (t :: ts) →
  Reports (From start) (nested scope context t ts)

section

variable {nested : Nested} {t : Token} {ts : List Token} (inner : Onwards nested)

include inner

theorem onward_readSequence {stop : SymbolSet} {ts : List Token} (ahead : Ahead start scope ts) :
    Reports (From start) (r.readSequence nested scope context stop ts) := by
  match ts with
  | [] =>
    rw [readSequence]
    exact .ok _
  | t :: ts =>
    rw [readSequence]
    refine .ite (fun _ => .ok _) fun _ => .bind (inner start scope context t ts ahead) ?_
    rintro ⟨statement, rest⟩ _
    have shorter : rest.1.length < (t :: ts).length := Nat.lt_succ_of_le rest.2.length_le
    exact .bind (onward_readSequence (ahead.tail.suffix rest.2)) fun _ _ => .ok _
termination_by ts.length
decreasing_by exact shorter

theorem onward_readOperand {operator : Range} (before : start ≤ operator.start)
    (ahead : Ahead start scope ts) :
    Reports (From start) (readOperand nested scope operator ts) := by
  cases ts with
  | nil => exact .error before
  | cons t ts => exact .bind (inner start scope .operand t ts ahead) fun _ _ => .ok _

omit inner in
theorem onward_oneLeft {candidates : List Construct} {range : Range}
    (closing : start ≤ t.range.start) (ahead : start ≤ range.start) :
    Reports (From start) (oneLeft candidates context t range) := by
  unfold oneLeft
  split
  · exact .ok _
  · exact .error closing
  · exact .error ahead

theorem onward_readSecond {construct : Construct} {first : List Statement} {closed : Range}
    (before : start ≤ closed.start) (ahead : Ahead start scope ts) :
    Reports (From start) (r.readSecond nested scope construct first closed ts) := by
  unfold readSecond
  split
  · exact .error before
  · refine .ite (fun _ => .error before) fun _ => ?_
    exact .bind (inner start scope .operand _ _ ahead) fun _ _ => .ok _

theorem onward_closeCompound {candidates : List Construct} {opening closing : Token}
    {first : List Statement} {second : Option (List Statement)}
    (opened : start ≤ opening.range.start) (ahead : Ahead start scope (closing :: ts)) :
    Reports (From start)
      (r.closeCompound nested scope candidates context opening first second closing ts) := by
  refine .bind (onward_oneLeft ahead.head opened) fun construct _ => ?_
  split
  · exact .ok _
  · exact .ok _
  · exact .ok _
  · exact .ok _
  · exact onward_readSecond inner opened ahead.tail

theorem onward_readCompound {candidates : List Construct} {opening : Token}
    (ahead : Ahead start scope (opening :: ts)) :
    Reports (From start) (r.readCompound nested scope candidates opening ts) := by
  refine .bind (onward_readSequence inner ahead.tail) ?_
  rintro ⟨first, rest⟩ _
  match rest with
  | ⟨[], _⟩ => exact .error ahead.head
  | ⟨t :: left, behind⟩ =>
    have later := ahead.tail.suffix behind
    dsimp only
    split
    · exact .bind (onward_closeCompound inner ahead.head later) fun _ _ => .ok _
    · refine .bind (onward_readSequence inner later.tail) ?_
      rintro ⟨second, rest⟩ _
      match rest with
      | ⟨[], _⟩ => exact .error ahead.head
      | ⟨u :: right, further⟩ =>
        have last := later.tail.suffix further
        exact .bind (onward_closeCompound inner ahead.head last) fun _ _ => .ok _

theorem onward_readWrapped {w : Wrapper} {operator : Range} (before : start ≤ operator.start)
    (ahead : Ahead start scope ts) :
    Reports (From start) (readWrapped nested scope w operator ts) :=
  .bind (onward_readOperand inner before ahead) fun _ _ => .ok _

theorem onward_readRepeated {count : Nat} {range : Range} (before : start ≤ range.start)
    (ahead : Ahead start scope ts) :
    Reports (From start) (r.readRepeated nested scope count range ts) := by
  have next := ahead.peek
  unfold readRepeated
  split
  · exact .ite (fun _ => onward_readWrapped inner before ahead) fun _ => .error next
  · refine .ite (fun _ => ?_) fun _ => ?_
    · exact .bind (onward_readWrapped inner before ahead.tail) fun _ _ => .ok _
    · exact .ite (fun _ => onward_readWrapped inner before ahead) fun _ => .error next

omit inner in
/-- What is wrong with the text of a shorthand is reported where the shorthand stands. -/
theorem onward_readShorthand (ahead : start ≤ t.range.start) :
    Reports (From start) (r.readShorthand nested scope context t ts) := by
  unfold readShorthand
  split
  · exact .error ahead
  · refine .ite (fun _ => .error ahead) fun _ => ?_
    dsimp only
    split
    · exact .error ahead
    · exact .ok _

theorem onward_readStart (ahead : Ahead start scope (t :: ts)) (way : Start) :
    Reports (From start) (r.readStart nested scope context t ts way) := by
  cases way with
  | turn =>
    rw [readStart]
    split
    · exact .ok _
    · exact .error ahead.head
  | nop => exact .ok _
  | shorthand => exact onward_readShorthand ahead.head
  | compound candidates => exact onward_readCompound inner ahead
  | cycle => exact onward_readCycle (fun _ member => absurd member (Option.not_mem_none _)) ahead
  | signedCycle => exact onward_readSignedCycle ahead
  | inversion => exact onward_readWrapped inner ahead.head ahead.tail
  | reflection => exact onward_readWrapped inner ahead.head ahead.tail
  | repetition =>
    refine .bind (onward_repeatCount ahead.head) fun _ _ => ?_
    exact onward_readRepeated inner ahead.head ahead.tail

theorem onward_readBeginning (ahead : Ahead start scope (t :: ts)) :
    Reports (From start) (r.readBeginning nested scope context t ts) := by
  unfold readBeginning
  split
  · exact .error ahead.head
  · exact reports_firstSuccess (onward_readStart inner ahead) _ _

/-! ### Behind a statement -/

omit inner in
theorem onward_readCountBehind (ahead : Ahead start scope ts) :
    Reports (From start) (readCountBehind scope context ts) := by
  unfold readCountBehind
  split
  · exact .error ahead.stop
  · refine .ite (fun _ => .error ahead.head) fun _ => ?_
    exact .bind (onward_repeatCount ahead.head) fun _ _ => .ok _

theorem onward_readBracketBehind {candidates : List Construct} {first : Statement}
    (ahead : Ahead start scope (t :: ts)) :
    Reports (From start) (r.readBracketBehind nested scope candidates first t ts) := by
  refine .bind (onward_readSequence inner ahead.tail) ?_
  rintro ⟨second, rest⟩ _
  match rest with
  | ⟨[], _⟩ => exact .error ahead.head
  | ⟨u :: left, behind⟩ =>
    exact .bind (onward_oneLeft (ahead.tail.suffix behind).head ahead.head) fun _ _ => .ok _

theorem onward_readDelimiterBehind {candidates : List Construct} {first : Statement}
    (before : start ≤ first.range.start) (ahead : Ahead start scope (t :: ts)) :
    Reports (From start) (readDelimiterBehind nested scope candidates first t ts) := by
  unfold readDelimiterBehind
  dsimp only
  split
  · exact .bind (onward_readOperand inner ahead.head ahead.tail) fun _ _ => .ok _
  · exact .error before

theorem onward_extendBy {statement : Statement} (before : start ≤ statement.range.start)
    (ahead : Ahead start scope (t :: ts)) (behind : Behind) :
    Reports (From start) (r.extendBy nested scope context statement t ts behind) := by
  cases behind with
  | wrap w => exact .ok _
  | count => exact .bind (onward_repeatCount ahead.head) fun _ _ => .ok _
  | countNext => exact .bind (onward_readCountBehind ahead.tail) fun _ _ => .ok _
  | bracket candidates => exact onward_readBracketBehind inner ahead
  | delimiter candidates => exact onward_readDelimiterBehind inner before ahead

/-- A statement begins where its first token does, however often it has been extended. -/
theorem onward_readBehind (places : Extends nested) {statement : Statement} {first : Token}
    {ts : List Token} (before : start ≤ first.range.start)
    (positive : first.range.start < first.range.stop) (ahead : Ahead start scope ts)
    (spans : Spans first statement.range ts) :
    Reports (From start) (r.readBehind nested scope context statement ts) := by
  match ts with
  | [] =>
    rw [readBehind, readWhile]
    exact .ok _
  | t :: ts =>
    rw [readBehind, readWhile, extend?]
    cases found : r.behind? t (scope.peek ts) with
    | none => exact .ok _
    | some behind =>
      refine .bind (onward_extendBy inner (spans.start ▸ before) ahead behind) ?_
      rintro ⟨larger, rest⟩ extended
      have grown := (extends_extendBy places ahead.placed spans positive found
        (eq_ok_iff.1 extended)).1
      have shorter : rest.1.length < (t :: ts).length := Nat.lt_succ_of_le rest.2.length_le
      refine .bind ?_ fun _ _ => .ok _
      exact onward_readBehind places before positive (ahead.tail.suffix rest.2) grown
termination_by ts.length
decreasing_by exact shorter

end

/-- What is found wrong with a statement does not lie before it, however deep inside it is. -/
theorem onward_readStatement (r : Reader) (levels : Nat) : Onwards (r.readStatement levels) := by
  induction levels with
  | zero =>
    intro start scope context t ts ahead
    exact .error ahead.head
  | succ levels ih =>
    intro start scope context t ts ahead
    refine .bind (onward_readBeginning ih ahead) ?_
    rintro ⟨beginning, rest⟩ begun
    obtain ⟨_, way, _, _, read, _⟩ := gives_readBeginning.1 (eq_ok_iff.1 begun)
    have places := extends_readStatement r levels
    obtain ⟨spans, _, _⟩ := extends_readStart places ahead.placed read
    refine .bind ?_ fun _ _ => .ok _
    exact onward_readBehind ih places ahead.head ahead.placed.pos (ahead.tail.suffix rest.2) spans

end Reader

end CubeScript
