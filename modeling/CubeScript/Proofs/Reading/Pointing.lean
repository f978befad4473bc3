import CubeScript.Proofs.Reading.Extents

/-!
# Where diagnostics point

The ranges of a diagnostic are those of the text it was found in: they lie in the text and cut no
character in two. A diagnostic has a cause exactly if the text of a shorthand is at fault. Then the
shorthand stands at its range, and the cause is a diagnostic of the text that the shorthand
abbreviates, whose ranges are counted there (`Diagnostic.Usable`).

Ranges begin where a token begins and end where a token or the text ends. So all that has to be
known of the tokens of a text is that they show what stands at their ranges, one behind the other
(`Shown`). What has been read of a cycle keeps ranges of its own, which lie before what is left
(`CycleDraft.Lies`).
-/

namespace CubeScript

/-! ### Ranges of a text -/

namespace Range.In

variable {text : String} {a b : Range}

theorem through (first : a.In text) (last : b.In text) (ordered : a.start ≤ b.stop) :
    (⟨a.start, b.stop⟩ : Range).In text :=
  ⟨ordered, last.inside, first.start, last.stop⟩

theorem toEnd (first : a.In text) : (⟨a.start, text.utf8ByteSize⟩ : Range).In text := by
  refine ⟨Nat.le_trans first.ordered first.inside, Nat.le_refl _, first.start, ?_⟩
  have := isValid_utf8ByteSize text ""
  rwa [String.append_empty] at this

/-- A range of the text that is being read starts before the end of that text. -/
theorem start_le (inText : a.In text) {scope : Scope} (whole : scope.textEnd = text.utf8ByteSize) :
    a.start ≤ scope.textEnd := by
  rw [whole]
  exact inText.toEnd.ordered

end Range.In

theorem in_atEnd (text : String) : (Token.atEnd text.utf8ByteSize).range.In text := by
  have valid := isValid_utf8ByteSize text ""
  rw [String.append_empty] at valid
  exact ⟨Nat.le_refl _, Nat.le_refl _, valid, valid⟩

/-- Whether tokens stand in a text one behind the other, each where its text stands. -/
structure Shown (text : String) (ts : List Token) : Prop where
  placed : Placed ts
  shows : ∀ t ∈ ts, t.range.Shows text t.text

namespace Shown

variable {text : String} {t u : Token} {ts us : List Token}

theorem suffix (shown : Shown text ts) (behind : us <:+ ts) : Shown text us :=
  ⟨shown.placed.suffix behind, fun t member => shown.shows t (behind.subset member)⟩

theorem tail (shown : Shown text (t :: ts)) : Shown text ts := shown.suffix (List.suffix_cons t ts)

theorem isIn (shown : Shown text ts) (member : t ∈ ts) : t.range.In text :=
  (shown.shows t member).isIn

theorem head (shown : Shown text (t :: ts)) : t.range.In text := shown.isIn List.mem_cons_self

theorem tokens (lexer : Lexer) (text : String) : Shown text (lexer.tokens text) :=
  ⟨lexer.placed_tokens text, fun t member => (lexer.shows_tokens text t member).2.2⟩

/-- A range from one token to a later one. -/
theorem through (shown : Shown text (t :: ts)) (member : u ∈ ts) :
    (⟨t.range.start, u.range.stop⟩ : Range).In text := by
  have first := shown.head
  have last := shown.isIn (List.mem_cons_of_mem t member)
  refine first.through last ?_
  have := shown.placed.le member
  have := first.ordered
  have := last.ordered
  omega

/-- The next token stands in the text, if it is that of the scope. -/
theorem peek (shown : Shown text ts) {scope : Scope} (whole : scope.textEnd = text.utf8ByteSize) :
    (scope.peek ts).range.In text := by
  cases ts with
  | nil =>
    rw [Scope.peek, List.headD_nil, whole]
    exact in_atEnd text
  | cons t ts => exact shown.head

/-- The next token does not end before what stands before it starts. -/
theorem start_le_peek (shown : Shown text ts) {scope : Scope}
    (whole : scope.textEnd = text.utf8ByteSize) {range : Range} (inText : range.In text)
    (before : ∀ u ∈ ts, range.stop ≤ u.range.start) : range.start ≤ (scope.peek ts).range.stop := by
  have ordered := inText.ordered
  cases ts with
  | nil => exact inText.start_le whole
  | cons t ts =>
    have after := before t List.mem_cons_self
    have further := shown.head.ordered
    change _ ≤ t.range.stop
    omega

end Shown

/-! ### Diagnostics of a text -/

namespace Diagnostic

/-- Whether the ranges of a diagnostic are those of a text in a dialect, and those of its cause, if
it has one, are those of the text that the shorthand at its range abbreviates. Only that the text
of a shorthand is at fault has a cause. -/
inductive Usable (dialect : Dialect) : String → Diagnostic → Prop where
  | here {text : String} {d : Diagnostic} (range : d.range.In text)
    (notes : ∀ n ∈ d.notes, n.range.In text) (code : d.code ≠ .shorthandBody)
    (cause : d.cause = none) : Usable dialect text d
  | inside {text name body : String} {d cause : Diagnostic} (range : d.range.In text)
    (notes : ∀ n ∈ d.notes, n.range.In text) (code : d.code = .shorthandBody)
    (shows : d.range.Shows text name) (expands : dialect.expansion? name = some body)
    (caused : d.cause = some cause) (usable : Usable dialect body cause) : Usable dialect text d

variable {dialect : Dialect} {text : String}

/-- A problem with the script itself, at one range. -/
theorem usable_at {problem : Problem} {range : Range} {advice : Option Advice}
    (inText : range.In text) (code : (problem.code == .shorthandBody) = false) :
    Usable dialect text { problem, range, advice } :=
  .here inText (fun _ member => absurd member List.not_mem_nil) (beq_eq_false_iff_ne.1 code) rfl

theorem usable_unexpected {t : Token} (range : t.range.In text) (context : Context)
    (advice : Option Advice) :
    Usable dialect text { unexpected t context with advice := advice } := by
  refine usable_at range ?_
  change ((if t.text = "" then Code.unexpectedEnd else Code.unexpectedToken) == _) = false
  split <;> rfl

end Diagnostic

/-! ### What readings report -/

/-- Whether all that can be found wrong has a property. -/
def Reports {α : Type} (P : Diagnostic → Prop) (reading : Except Diagnostic α) : Prop :=
  ∀ d, reading = .error d → P d

namespace Reports

variable {α β : Type} {P : Diagnostic → Prop}

theorem ok (a : α) : Reports P (.ok a) := nofun

theorem error {d : Diagnostic} (holds : P d) : Reports P (.error d : Except Diagnostic α) := by
  rintro _ ⟨⟩
  exact holds

theorem bind {first : Except Diagnostic α} {next : α → Except Diagnostic β}
    (begins : Reports P first) (goes : ∀ a, first = .ok a → Reports P (next a)) :
    Reports P (first >>= next) := by
  intro d failed
  cases outcome : first with
  | error e =>
    rw [outcome] at failed
    cases failed
    exact begins d outcome
  | ok a =>
    rw [outcome] at failed
    exact goes a outcome d failed

theorem mapError {reading : Except Diagnostic α} {f : Diagnostic → Diagnostic}
    {Q : Diagnostic → Prop} (reports : Reports P reading) (holds : ∀ d, P d → Q (f d)) :
    Reports Q (reading.mapError f) := by
  cases outcome : reading with
  | error d => exact error (holds d (reports d outcome))
  | ok a => exact ok a

theorem ite {p : Prop} [Decidable p] {a b : Except Diagnostic α} (yes : p → Reports P a)
    (no : ¬ p → Reports P b) : Reports P (if p then a else b) := by
  split
  · exact yes ‹_›
  · exact no ‹_›

end Reports

/-! ### Cycles in part -/

/-- Whether the ranges that a draft keeps lie in a text, before some tokens. -/
structure CycleDraft.Lies (text : String) (ts : List Token) (draft : CycleDraft) : Prop where
  sign : ∀ sign ∈ draft.sign, sign.2.In text
  part : ∀ start ∈ draft.start, (⟨start, draft.stop⟩ : Range).In text
  before : ∀ t ∈ ts, draft.stop ≤ t.range.start

namespace CycleDraft.Lies

variable {text : String} {t : Token} {ts : List Token} {draft : CycleDraft}

theorem tail (lies : draft.Lies text (t :: ts)) : draft.Lies text ts where
  sign := lies.sign
  part := lies.part
  before u member := lies.before u (List.mem_cons_of_mem t member)

theorem addSign (lies : draft.Lies text (t :: ts)) (range : t.range.In text) (sign : Cycle.Sign) :
    { draft with sign := some (sign, t.range) }.Lies text ts where
  sign := by
    rintro _ ⟨⟩
    exact range
  part := lies.part
  before := lies.tail.before

theorem addFace (lies : draft.Lies text (t :: ts)) (shown : Shown text (t :: ts)) (face : Face) :
    (draft.addFace face t.range).Lies text ts where
  sign := lies.sign
  part := by
    rintro _ ⟨⟩
    cases begun : draft.start with
    | none => exact shown.head
    | some start =>
      have part := lies.part start begun
      have := lies.before t List.mem_cons_self
      have := shown.head.ordered
      have := part.ordered
      dsimp only at this
      exact part.through shown.head (by dsimp only [Option.getD_some]; omega)
  before u member := shown.placed.le member

theorem setNumber (lies : draft.Lies text (t :: ts)) (shown : Shown text (t :: ts))
    (number : Nat) : (draft.setNumber number t.range).Lies text ts where
  sign := lies.sign
  part start begun := by
    have part := lies.part start begun
    have := lies.before t List.mem_cons_self
    have := shown.head.ordered
    have := part.ordered
    dsimp only at this
    exact part.through shown.head (by dsimp only; omega)
  before u member := shown.placed.le member

theorem complete (lies : draft.Lies text (t :: ts)) (item : Cycle.Item) :
    (draft.complete item).Lies text ts where
  sign := lies.sign
  part := nofun
  before := lies.tail.before

end CycleDraft.Lies

namespace Reader

open Reading Diagnostic

variable {r : Reader} {scope : Scope} {context : Diagnostic.Context} {text : String}
  {rest : List Token}

section

variable {size : Size} {draft result : CycleDraft} {t next : Token} {ts : List Token}

theorem points_repeatCount {dialect : Dialect} (range : t.range.In text) :
    Reports (Usable dialect text) (repeatCount t) := by
  unfold repeatCount
  split
  · exact .ok _
  · exact .error (usable_at range rfl)

theorem points_unclosed {dialect : Dialect} (whole : scope.textEnd = text.utf8ByteSize)
    (range : t.range.In text) (candidates : List Construct) :
    Usable dialect text (r.unclosed scope candidates t) := by
  refine .here ?_ ?_ nofun rfl
  · rw [unclosed, whole]
    exact range.toEnd
  · intro n member
    rw [List.mem_singleton.1 member]
    exact range

theorem codeOfCycle_ne (fault : Cycle.Fault) :
    (Problem.codeOfCycle fault == .shorthandBody) = false := by
  unfold Problem.codeOfCycle
  split <;> rfl

theorem points_item {dialect : Dialect} {range : Range} (inText : range.In text) :
    Reports (Usable dialect text) (draft.item size range) := by
  unfold CycleDraft.item CycleDraft.itemProblem?
  split
  · exact .error (usable_at inText (codeOfCycle_ne _))
  · split
    · rename_i problem found
      refine .error (usable_at inText ?_)
      split at found
      · cases found
      · split at found
        · cases found
          rfl
        · split at found <;> cases found
          rfl
    · exact .ok _

theorem points_completePart (lies : draft.Lies text (t :: ts)) (range : t.range.In text) :
    Reports (Usable r.dialect text) (r.completePart size draft t) := by
  unfold completePart
  refine .ite (fun _ => .error (usable_unexpected range _ none)) fun _ => ?_
  split
  · exact .error (usable_unexpected range _ _)
  · rename_i start begun
    exact .bind (points_item (lies.part start begun)) fun _ _ => .ok _

/-- A token that does not go on with the draft is reported at its own range, or the part that it
completes at that of the part. -/
theorem points_extendCycle (lies : draft.Lies text (t :: ts)) (range : t.range.In text) :
    Reports (Usable r.dialect text) (r.extendCycle size draft t next) := by
  unfold extendCycle
  dsimp only
  split
  · refine .bind ?_ fun _ _ => .ok _
    refine .ite (fun _ => .error (usable_unexpected range _ none)) fun _ => ?_
    exact .ite (fun _ => .error (usable_at range rfl)) fun _ => .ok _
  · refine .ite (fun _ => .bind ?_ fun _ _ => .ok _) fun _ => ?_
    · refine .ite (fun _ => .error (usable_unexpected range _ none)) fun _ => ?_
      refine .ite (fun _ => .error (usable_at range rfl)) fun _ => ?_
      split
      · exact .error (usable_at range rfl)
      · exact .ok _
    · split
      · refine .bind ?_ fun _ _ => .ok _
        exact .ite (fun _ => .error (usable_unexpected range _ none)) fun _ => .ok _
      · exact .bind (points_completePart lies range) fun _ _ => .ok _

/-- A token that goes on with the draft leaves one that lies before what is left. -/
theorem lies_extendCycle (lies : draft.Lies text (t :: ts)) (shown : Shown text (t :: ts))
    {ended : Bool} (extended : r.extendCycle size draft t next = .ok (result, ended)) :
    result.Lies text ts := by
  rw [extendCycle] at extended
  split at extended
  · obtain ⟨_, added, same⟩ := Except.bind_eq_ok_iff.1 extended
    cases same
    rw [addSign] at added
    split at added
    · cases added
    · split at added
      · cases added
      · cases added
        exact lies.addSign shown.head _
  · split at extended
    · obtain ⟨_, added, same⟩ := Except.bind_eq_ok_iff.1 extended
      cases same
      rw [addNumber] at added
      repeat' split at added
      all_goals cases added
      exact lies.setNumber shown _
    · split at extended
      · obtain ⟨_, added, same⟩ := Except.bind_eq_ok_iff.1 extended
        cases same
        rw [addFace] at added
        split at added
        all_goals cases added
        exact lies.addFace shown _
      · obtain ⟨_, completed, same⟩ := Except.bind_eq_ok_iff.1 extended
        cases same
        rw [completePart] at completed
        split at completed
        · cases completed
        · split at completed
          · cases completed
          · obtain ⟨item, _, same⟩ := Except.bind_eq_ok_iff.1 completed
            cases same
            exact lies.complete item

theorem points_readParts {bracket : Token} (whole : scope.textEnd = text.utf8ByteSize)
    (range : bracket.range.In text) (lies : draft.Lies text ts) (shown : Shown text ts) :
    Reports (Usable r.dialect text) (r.readParts scope size bracket draft ts) := by
  induction ts generalizing draft with
  | nil => exact .error (points_unclosed whole range _)
  | cons t ts ih =>
    refine .bind (points_extendCycle lies shown.head) fun (next, ended) extended => ?_
    refine .ite (fun _ => .ok _) fun _ => ?_
    exact .bind (ih (lies_extendCycle lies shown extended) shown.tail) fun _ _ => .ok _

theorem points_makeCycle {dialect : Dialect} {range : Range} (inText : range.In text)
    (lies : draft.Lies text ts) : Reports (Usable dialect text) (makeCycle draft range) := by
  unfold makeCycle
  dsimp only
  split
  · exact .ok _
  · refine .error (.here inText (fun n member => ?_) nofun rfl)
    rw [List.mem_singleton.1 member]
    cases signed : draft.sign with
    | none => exact inText
    | some sign => exact lies.sign sign signed
  · exact .error (usable_at inText (codeOfCycle_ne _))

theorem lies_readParts {bracket : Token} {stop : Nat} (lies : draft.Lies text ts)
    (shown : Shown text ts)
    (given : Gives (r.readParts scope size bracket draft ts) (result, stop) rest) :
    result.Lies text rest := by
  induction ts generalizing draft with
  | nil => exact absurd given gives_readParts_nil
  | cons t ts ih =>
    obtain ⟨next, ended, extended, went⟩ := gives_readParts_cons.1 given
    have lies := lies_extendCycle lies shown extended
    split at went
    · obtain ⟨same, rfl⟩ := went
      cases same
      exact lies
    · exact ih lies shown.tail went

/-- A cycle ends where it did or behind the sign behind it. -/
theorem lies_readSignBehind (r : Reader) (stop : Nat) (lies : draft.Lies text ts)
    (shown : Shown text ts) :
    (r.readSignBehind draft stop ts).1.1.Lies text (r.readSignBehind draft stop ts).2.1 ∧
      ((r.readSignBehind draft stop ts).1.2 = stop ∨
        ∃ u ∈ ts, (r.readSignBehind draft stop ts).1.2 = u.range.stop) := by
  match ts with
  | [] => exact ⟨lies, .inl rfl⟩
  | t :: ts =>
    rw [readSignBehind]
    split
    · split
      · exact ⟨lies.addSign shown.head _, .inr ⟨t, List.mem_cons_self, rfl⟩⟩
      · exact ⟨lies, .inl rfl⟩
    · exact ⟨lies, .inl rfl⟩

/-- A cycle begins at its bracket or at the sign before it, and ends behind the bracket. -/
theorem in_cycle {sign : Option (Cycle.Sign × Range)} {bracket u : Token}
    (shown : Shown text (bracket :: ts))
    (signed : ∀ s ∈ sign, s.2.In text ∧ s.2.start ≤ bracket.range.start) (member : u ∈ ts) :
    (⟨cycleStart sign bracket, u.range.stop⟩ : Range).In text := by
  cases sign with
  | none => exact shown.through member
  | some s =>
    obtain ⟨range, early⟩ := signed s rfl
    have after := (shown.through member).ordered
    exact range.through (shown.tail.isIn member) (Nat.le_trans early after)

theorem points_readCycle {sign : Option (Cycle.Sign × Range)} {bracket : Token}
    (whole : scope.textEnd = text.utf8ByteSize) (shown : Shown text (bracket :: ts))
    (signed : ∀ s ∈ sign, s.2.In text ∧ s.2.start ≤ bracket.range.start) :
    Reports (Usable r.dialect text) (r.readCycle scope sign bracket ts) := by
  have begins : CycleDraft.Lies text ts { sign, stop := bracket.range.stop } :=
    ⟨fun s member => (signed s member).1, nofun, fun u member => shown.placed.le member⟩
  unfold readCycle
  dsimp only
  split
  · exact .error (usable_at shown.head rfl)
  · refine .bind (points_readParts whole shown.head begins shown.tail) ?_
    rintro ⟨⟨draft, stop⟩, rest⟩ read
    have given := eq_ok_iff.1 read
    have lies := lies_readParts begins shown.tail given
    obtain ⟨last, behind, ends⟩ := extends_readParts given
    have left := shown.tail.suffix given.suffix
    obtain ⟨final, stops⟩ := lies_readSignBehind r stop lies left
    obtain ⟨u, member, same⟩ :
        ∃ u ∈ ts, (r.readSignBehind draft stop rest.1).1.2 = u.range.stop := by
      obtain same | ⟨u, member, same⟩ := stops
      · exact ⟨last, behind.subset List.mem_cons_self, same.trans ends⟩
      · exact ⟨u, given.suffix.subset member, same⟩
    refine .bind (points_makeCycle ?_ final) fun _ _ => .ok _
    change (⟨cycleStart sign bracket, _⟩ : Range).In text
    rw [same]
    exact in_cycle shown signed member

end

/-! ### Statements inside statements -/

/-- Whether what is found wrong with statements points into the text. -/
def Points (dialect : Dialect) (nested : Nested) : Prop := ∀ text scope context t ts,
  scope.textEnd = text.utf8ByteSize → Shown text (t :: ts) →
    Reports (Usable dialect text) (nested scope context t ts)

section

variable {nested : Nested} {t : Token} {ts : List Token} (inner : Points r.dialect nested)

include inner

theorem points_readSequence (whole : scope.textEnd = text.utf8ByteSize) {stop : SymbolSet}
    {ts : List Token} (shown : Shown text ts) :
    Reports (Usable r.dialect text) (r.readSequence nested scope context stop ts) := by
  match ts with
  | [] =>
    rw [readSequence]
    exact .ok _
  | t :: ts =>
    rw [readSequence]
    refine .ite (fun _ => .ok _) fun _ => .bind (inner text scope context t ts whole shown) ?_
    rintro ⟨statement, rest⟩ _
    have shorter : rest.1.length < (t :: ts).length := Nat.lt_succ_of_le rest.2.length_le
    exact .bind (points_readSequence whole (shown.tail.suffix rest.2)) fun _ _ => .ok _
termination_by ts.length
decreasing_by exact shorter

theorem points_readOperand (whole : scope.textEnd = text.utf8ByteSize) {operator : Range}
    (range : operator.In text) (shown : Shown text ts) :
    Reports (Usable r.dialect text) (readOperand nested scope operator ts) := by
  cases ts with
  | nil =>
    refine .error (usable_at ?_ rfl)
    rw [whole]
    exact range.toEnd
  | cons t ts => exact .bind (inner text scope .operand t ts whole shown) fun _ _ => .ok _

omit inner in
theorem points_oneLeft {dialect : Dialect} {candidates : List Construct} {range : Range}
    (closing : t.range.In text) (inText : range.In text) :
    Reports (Usable dialect text) (oneLeft candidates context t range) := by
  unfold oneLeft
  split
  · exact .ok _
  · exact .error (usable_unexpected closing _ none)
  · exact .error (usable_at inText rfl)

theorem points_readSecond (whole : scope.textEnd = text.utf8ByteSize) {construct : Construct}
    {first : List Statement} {closed : Range} (range : closed.In text) (shown : Shown text ts)
    (before : ∀ u ∈ ts, closed.stop ≤ u.range.start) :
    Reports (Usable r.dialect text) (r.readSecond nested scope construct first closed ts) := by
  have missing := range.through (shown.peek whole) (shown.start_le_peek whole range before)
  unfold readSecond
  split
  · exact .error (usable_at missing rfl)
  · refine .ite (fun _ => .error (usable_at missing rfl)) fun _ => ?_
    exact .bind (inner text scope .operand _ _ whole shown) fun _ _ => .ok _

/-- The brackets stand in the text, the closing one behind the opening one. -/
theorem points_closeCompound (whole : scope.textEnd = text.utf8ByteSize)
    {candidates : List Construct} {opening closing : Token} {first : List Statement}
    {second : Option (List Statement)} (shown : Shown text (opening :: ts))
    {left : List Token} (behind : closing :: left <:+ ts) :
    Reports (Usable r.dialect text)
      (r.closeCompound nested scope candidates context opening first second closing left) := by
  have member : closing ∈ ts := behind.subset List.mem_cons_self
  have closed := shown.through member
  have later := shown.tail.suffix behind
  refine .bind (points_oneLeft later.head closed) fun construct _ => ?_
  split
  · exact .ok _
  · exact .ok _
  · exact .ok _
  · exact .ok _
  · exact points_readSecond inner whole closed later.tail fun u member => later.placed.le member

theorem points_readCompound (whole : scope.textEnd = text.utf8ByteSize)
    {candidates : List Construct} {opening : Token} (shown : Shown text (opening :: ts)) :
    Reports (Usable r.dialect text) (r.readCompound nested scope candidates opening ts) := by
  refine .bind (points_readSequence inner whole shown.tail) ?_
  rintro ⟨first, rest⟩ _
  match rest with
  | ⟨[], _⟩ => exact .error (points_unclosed whole shown.head _)
  | ⟨t :: left, behind⟩ =>
    dsimp only
    split
    · exact .bind (points_closeCompound inner whole shown behind) fun _ _ => .ok _
    · refine .bind (points_readSequence inner whole (shown.tail.suffix behind).tail) ?_
      rintro ⟨second, rest⟩ _
      match rest with
      | ⟨[], _⟩ => exact .error (points_unclosed whole shown.head _)
      | ⟨u :: right, later⟩ =>
        have behind := later.trans ((List.suffix_cons t left).trans behind)
        exact .bind (points_closeCompound inner whole shown behind) fun _ _ => .ok _

theorem points_readWrapped (whole : scope.textEnd = text.utf8ByteSize) {w : Wrapper}
    {operator : Range} (range : operator.In text) (shown : Shown text ts) :
    Reports (Usable r.dialect text) (readWrapped nested scope w operator ts) :=
  .bind (points_readOperand inner whole range shown) fun _ _ => .ok _

theorem points_readRepeated (whole : scope.textEnd = text.utf8ByteSize) {count : Nat}
    {range : Range} (inText : range.In text) (shown : Shown text ts) :
    Reports (Usable r.dialect text) (r.readRepeated nested scope count range ts) := by
  have missing : Usable r.dialect text { unexpected (scope.peek ts) .operand with
      advice := some (r.adviceFor .repetitionOperator) } :=
    usable_unexpected (shown.peek whole) _ _
  unfold readRepeated
  split
  · exact .ite (fun _ => points_readWrapped inner whole inText shown) fun _ => .error missing
  · refine .ite (fun _ => ?_) fun _ => ?_
    · exact .bind (points_readWrapped inner whole inText shown.tail) fun _ _ => .ok _
    · exact .ite (fun _ => points_readWrapped inner whole inText shown) fun _ => .error missing

/-- What is wrong with the text of a shorthand points there. -/
theorem points_readShorthand (shown : Shown text (t :: ts)) :
    Reports (Usable r.dialect text) (r.readShorthand nested scope context t ts) := by
  unfold readShorthand
  split
  · exact .error (usable_unexpected shown.head _ none)
  · rename_i body expands
    refine .ite (fun _ => .error (usable_at shown.head rfl)) fun _ => ?_
    dsimp only
    split
    · rename_i cause failed
      refine .error (.inside shown.head nofun rfl (shown.shows t List.mem_cons_self) expands rfl ?_)
      exact points_readSequence inner rfl (Shown.tokens r.lexer body) cause failed
    · exact .ok _

omit inner in
theorem points_readSignedCycle (whole : scope.textEnd = text.utf8ByteSize)
    (shown : Shown text (t :: ts)) :
    Reports (Usable r.dialect text) (r.readSignedCycle scope t ts) := by
  have next := shown.tail.peek whole
  unfold readSignedCycle
  dsimp only
  split
  · exact .error (usable_unexpected next _ none)
  · rename_i bracket us
    refine .ite (fun _ => ?_) fun _ => .error (usable_unexpected next _ none)
    refine .bind (points_readCycle whole shown.tail ?_) fun _ _ => .ok _
    rintro _ ⟨⟩
    have := shown.placed.le List.mem_cons_self
    have := shown.head.ordered
    exact ⟨shown.head, by dsimp only; omega⟩

theorem points_readStart (whole : scope.textEnd = text.utf8ByteSize) (shown : Shown text (t :: ts))
    (start : Start) :
    Reports (Usable r.dialect text) (r.readStart nested scope context t ts start) := by
  cases start with
  | turn =>
    rw [readStart]
    split
    · exact .ok _
    · exact .error (usable_unexpected shown.head _ none)
  | nop => exact .ok _
  | shorthand => exact points_readShorthand inner shown
  | compound candidates => exact points_readCompound inner whole shown
  | cycle =>
    exact points_readCycle whole shown fun _ member => absurd member (Option.not_mem_none _)
  | signedCycle => exact points_readSignedCycle whole shown
  | inversion => exact points_readWrapped inner whole shown.head shown.tail
  | reflection => exact points_readWrapped inner whole shown.head shown.tail
  | repetition =>
    refine .bind (points_repeatCount shown.head) fun _ _ => ?_
    exact points_readRepeated inner whole shown.head shown.tail

omit inner in
/-- What is reported of some attempts was reported of one of them. -/
theorem reports_firstSuccess {α β : Type} {P : Diagnostic → Prop}
    {attempt : α → Except Diagnostic β} (each : ∀ a, Reports P (attempt a)) (a : α)
    (others : List α) : Reports P (firstSuccess attempt a others) := by
  induction others generalizing a with
  | nil => exact each a
  | cons b others ih =>
    unfold firstSuccess
    split
    · exact .ok _
    · rename_i d failed
      refine (ih b).mapError fun e later => ?_
      rw [furthest]
      split
      · exact later
      · exact each a d failed

theorem points_readBeginning (whole : scope.textEnd = text.utf8ByteSize)
    (shown : Shown text (t :: ts)) :
    Reports (Usable r.dialect text) (r.readBeginning nested scope context t ts) := by
  unfold readBeginning
  split
  · exact .error (usable_unexpected shown.head _ _)
  · exact reports_firstSuccess (points_readStart inner whole shown) _ _

/-! ### Behind a statement -/

omit inner in
theorem points_readCountBehind {dialect : Dialect} (whole : scope.textEnd = text.utf8ByteSize)
    (shown : Shown text ts) :
    Reports (Usable dialect text) (readCountBehind scope context ts) := by
  have next := shown.peek whole
  unfold readCountBehind
  split
  · exact .error (usable_unexpected next _ _)
  · refine .ite (fun _ => .error (usable_unexpected next _ _)) fun _ => ?_
    exact .bind (points_repeatCount next) fun _ _ => .ok _

theorem points_readBracketBehind (whole : scope.textEnd = text.utf8ByteSize)
    {candidates : List Construct} {first : Statement} (shown : Shown text (t :: ts)) :
    Reports (Usable r.dialect text)
      (r.readBracketBehind nested scope candidates first t ts) := by
  refine .bind (points_readSequence inner whole shown.tail) ?_
  rintro ⟨second, rest⟩ _
  match rest with
  | ⟨[], _⟩ => exact .error (points_unclosed whole shown.head _)
  | ⟨u :: left, behind⟩ =>
    have member : u ∈ ts := behind.subset List.mem_cons_self
    refine .bind (points_oneLeft (shown.tail.isIn member) (shown.through member)) ?_
    exact fun _ _ => .ok _

theorem points_readDelimiterBehind (whole : scope.textEnd = text.utf8ByteSize)
    {candidates : List Construct} {first : Statement} (shown : Shown text (t :: ts))
    (through : (⟨first.range.start, t.range.stop⟩ : Range).In text) :
    Reports (Usable r.dialect text)
      (readDelimiterBehind nested scope candidates first t ts) := by
  unfold readDelimiterBehind
  dsimp only
  split
  · exact .bind (points_readOperand inner whole shown.head shown.tail) fun _ _ => .ok _
  · exact .error (usable_at through rfl)

theorem points_extendBy (whole : scope.textEnd = text.utf8ByteSize) {statement : Statement}
    (shown : Shown text (t :: ts))
    (through : (⟨statement.range.start, t.range.stop⟩ : Range).In text) (behind : Behind) :
    Reports (Usable r.dialect text) (r.extendBy nested scope context statement t ts behind) := by
  cases behind with
  | wrap w => exact .ok _
  | count => exact .bind (points_repeatCount shown.head) fun _ _ => .ok _
  | countNext => exact .bind (points_readCountBehind whole shown.tail) fun _ _ => .ok _
  | bracket candidates => exact points_readBracketBehind inner whole shown
  | delimiter candidates => exact points_readDelimiterBehind inner whole shown through

/-- A statement begins where its first token does, however often it has been extended. -/
theorem points_readBehind (places : Extends nested) (whole : scope.textEnd = text.utf8ByteSize)
    {statement : Statement} {first : Token} {ts : List Token} (range : first.range.In text)
    (positive : first.range.start < first.range.stop) (shown : Shown text ts)
    (spans : Spans first statement.range ts) :
    Reports (Usable r.dialect text) (r.readBehind nested scope context statement ts) := by
  match ts with
  | [] =>
    rw [readBehind, readWhile]
    exact .ok _
  | t :: ts =>
    rw [readBehind, readWhile, extend?]
    cases found : r.behind? t (scope.peek ts) with
    | none => exact .ok _
    | some behind =>
      have through : (⟨statement.range.start, t.range.stop⟩ : Range).In text := by
        rw [spans.start]
        have := spans.stop
        have := spans.before t List.mem_cons_self
        have := shown.placed.pos
        exact range.through shown.head (by omega)
      refine .bind (points_extendBy inner whole shown through behind) ?_
      rintro ⟨larger, rest⟩ extended
      have given := eq_ok_iff.1 extended
      have grown := (extends_extendBy places shown.placed spans positive found given).1
      have shorter : rest.1.length < (t :: ts).length := Nat.lt_succ_of_le rest.2.length_le
      refine .bind ?_ fun _ _ => .ok _
      exact points_readBehind places whole range positive (shown.tail.suffix rest.2) grown
termination_by ts.length
decreasing_by exact shorter

end

/-- Reading a statement points into the text, however deeply statements are nested in it. -/
theorem points_readStatement (r : Reader) (levels : Nat) :
    Points r.dialect (r.readStatement levels) := by
  induction levels with
  | zero =>
    intro text scope context t ts _ shown
    exact .error (usable_at shown.head rfl)
  | succ levels ih =>
    intro text scope context t ts whole shown
    refine .bind (points_readBeginning ih whole shown) ?_
    rintro ⟨beginning, rest⟩ begun
    have given := eq_ok_iff.1 begun
    obtain ⟨_, start, _, _, read, _⟩ := gives_readBeginning.1 given
    obtain ⟨spans, _, _⟩ := extends_readStart (extends_readStatement r levels) shown.placed read
    refine .bind ?_ fun _ _ => .ok _
    exact points_readBehind ih (extends_readStatement r levels) whole shown.head shown.placed.pos
      (shown.tail.suffix rest.2) spans

theorem points_read (r : Reader) (text : String) :
    Reports (Usable r.dialect text) (r.read text) := by
  refine .bind (.bind ?_ fun _ _ => .ok _) fun _ _ => .ok _
  exact points_readSequence (points_readStatement r r.maxNesting) rfl (Shown.tokens r.lexer text)

end Reader

end CubeScript
