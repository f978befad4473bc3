import CubeScript.Proofs.Reading.Enclosing
import CubeScript.Proofs.Reading.Onward

/-!
# What is wrong with a text that ends later

Two texts may have the same tokens, though one of them ends later than the other one. Readers find
the same statements in both. A diagnostic can only tell them apart if it reaches the end of the
text. Then it still starts where it did, unless it is about nothing but the end of the text, and
moves as a whole (`Diagnostic.Delayed`).

There is one exception. Of several attempts at a statement the one that got furthest tells what is
wrong, and the earliest of those that got equally far. An attempt that fails at the last token gets
as far as a later one that fails at the end of the text only if the text ends with the token. The
later attempt is one at a cycle, as all others are made first, so what it reports is a bracket that
is never closed.
-/

namespace CubeScript

namespace Diagnostic

/-- What becomes of a diagnostic if the text ends later, with the same tokens. -/
inductive Delayed (near far : Nat) : Diagnostic → Diagnostic → Prop where
  | same (d : Diagnostic) : Delayed near far d d
  /-- It goes on up to the end of the text. -/
  | moved {d : Diagnostic} (stop : d.range.stop = near) :
    Delayed near far d { d with range := ⟨d.range.start, far⟩ }
  /-- It is about the end of the text. -/
  | atEnd {d : Diagnostic} (code : d.code = .unexpectedEnd) (range : d.range = ⟨near, near⟩) :
    Delayed near far d { d with range := ⟨far, far⟩ }
  /-- It got as far as the text, and a bracket that is never closed now gets further. -/
  | overtaken {d e : Diagnostic} (stop : d.range.stop = near) (late : e.range.stop = far)
    (code : e.code = .unclosed) (start : e.range.start ≤ d.range.start) : Delayed near far d e

namespace Delayed

variable {near far : Nat} {d e f g : Diagnostic}

/-- A diagnostic that does not stay as it is ended at the end of the text, and still does. -/
theorem eq_or_stop (delayed : Delayed near far d e) :
    e = d ∨ d.range.stop = near ∧ e.range.stop = far := by
  cases delayed with
  | same => exact .inl rfl
  | moved stop => exact .inr ⟨stop, rfl⟩
  | atEnd _ range => exact .inr ⟨congrArg Range.stop range, rfl⟩
  | overtaken stop late => exact .inr ⟨stop, late⟩

/-- Of two diagnostics the first is kept as long as both end with the text. A later one that is
about the end of the text may only be a bracket that is never closed. -/
theorem furthest (later : near < far) (first : Delayed near far d e) (second : Delayed near far f g)
    (inside : d.range.stop ≤ near) (insideToo : f.range.stop ≤ near)
    (unclosed : g = f ∨ g.code = .unclosed ∧ g.range.start ≤ d.range.start) :
    Delayed near far (d.furthest f) (e.furthest g) := by
  rw [Diagnostic.furthest, Diagnostic.furthest]
  obtain rfl | ⟨stop, late⟩ := first.eq_or_stop
  · obtain rfl | ⟨stop, late⟩ := second.eq_or_stop
    · exact .same _
    · rw [if_pos (c := e.range.stop < g.range.stop) (by omega)]
      split
      · exact second
      · obtain rfl | ⟨code, start⟩ := unclosed
        · omega
        · exact .overtaken (by omega) late code start
  · have shorter : ¬ e.range.stop < g.range.stop := by
      obtain rfl | ⟨_, lateToo⟩ := second.eq_or_stop <;> omega
    rw [if_neg (c := d.range.stop < f.range.stop) (by omega), if_neg shorter]
    exact first

end Delayed

theorem Usable.isIn {dialect : Dialect} {text : String} {d : Diagnostic}
    (usable : d.Usable dialect text) : d.range.In text := by
  cases usable with
  | here range => exact range
  | inside range => exact range

end Diagnostic

/-- Whether two readings give the same, or what is wrong with the second is delayed. -/
inductive Waits (near far : Nat) {α : Type} : Except Diagnostic α → Except Diagnostic α → Prop where
  | ok (a : α) : Waits near far (.ok a) (.ok a)
  | error {d e : Diagnostic} (delayed : d.Delayed near far e) : Waits near far (.error d) (.error e)

namespace Waits

variable {near far : Nat} {α β : Type}

theorem refl (a : Except Diagnostic α) : Waits near far a a := by
  cases a with
  | ok a => exact .ok a
  | error d => exact .error (.same d)

theorem bind {a b : Except Diagnostic α} {f g : α → Except Diagnostic β}
    (first : Waits near far a b) (second : ∀ x, Waits near far (f x) (g x)) :
    Waits near far (a >>= f) (b >>= g) := by
  cases first with
  | ok a => exact second a
  | error delayed => exact .error delayed

theorem ite {p : Prop} [Decidable p] {a b c d : Except Diagnostic α}
    (yes : p → Waits near far a c) (no : ¬ p → Waits near far b d) :
    Waits near far (if p then a else b) (if p then c else d) := by
  split
  · exact yes ‹_›
  · exact no ‹_›

end Waits

namespace Reader

open Reading Diagnostic

variable {r : Reader} {near far depth : Nat} {context : Diagnostic.Context}

/-! ### Cycles -/

theorem delayed_unclosed (candidates : List Construct) (bracket : Token) :
    Delayed near far (r.unclosed ⟨near, depth⟩ candidates bracket)
      (r.unclosed ⟨far, depth⟩ candidates bracket) :=
  .moved rfl

/-- The parts of a cycle are read up to its bracket, so where the text ends only matters if there is
none. -/
theorem readParts_eq_or_unclosed (r : Reader) (near far depth : Nat) (size : Size)
    (bracket : Token) (draft : CycleDraft) (ts : List Token) :
    r.readParts ⟨far, depth⟩ size bracket draft ts =
        r.readParts ⟨near, depth⟩ size bracket draft ts ∨
      r.readParts ⟨near, depth⟩ size bracket draft ts =
          .error (r.unclosed ⟨near, depth⟩ [.permutation] bracket) ∧
        r.readParts ⟨far, depth⟩ size bracket draft ts =
          .error (r.unclosed ⟨far, depth⟩ [.permutation] bracket) := by
  induction ts generalizing draft with
  | nil => exact .inr ⟨rfl, rfl⟩
  | cons t ts ih =>
    have next : r.extendCycle size draft t (Scope.peek ⟨far, depth⟩ ts) =
        r.extendCycle size draft t (Scope.peek ⟨near, depth⟩ ts) := by
      cases ts <;> rfl
    rw [readParts, readParts, next]
    cases r.extendCycle size draft t (Scope.peek ⟨near, depth⟩ ts) with
    | error d => exact .inl rfl
    | ok extended =>
      obtain ⟨extended, _ | _⟩ := extended
      · dsimp only [bind, Except.bind]
        rw [if_neg Bool.false_ne_true]
        obtain same | ⟨unclosed, unclosedToo⟩ := ih extended
        · rw [same]
          exact .inl rfl
        · rw [unclosed, unclosedToo]
          exact .inr ⟨rfl, rfl⟩
      · exact .inl rfl

theorem readCycle_eq_or_unclosed (r : Reader) (near far depth : Nat)
    (sign : Option (Cycle.Sign × Range)) (bracket : Token) (ts : List Token) :
    r.readCycle ⟨far, depth⟩ sign bracket ts = r.readCycle ⟨near, depth⟩ sign bracket ts ∨
      r.readCycle ⟨near, depth⟩ sign bracket ts =
          .error (r.unclosed ⟨near, depth⟩ [.permutation] bracket) ∧
        r.readCycle ⟨far, depth⟩ sign bracket ts =
          .error (r.unclosed ⟨far, depth⟩ [.permutation] bracket) := by
  unfold readCycle
  dsimp only
  split
  · exact .inl rfl
  · rename_i size _
    obtain same | ⟨unclosed, unclosedToo⟩ := readParts_eq_or_unclosed r near far depth size bracket
      { sign, stop := bracket.range.stop } ts
    · rw [same]
      exact .inl rfl
    · rw [unclosed, unclosedToo]
      exact .inr ⟨rfl, rfl⟩

theorem waits_readCycle (sign : Option (Cycle.Sign × Range)) (bracket : Token) (ts : List Token) :
    Waits near far (r.readCycle ⟨near, depth⟩ sign bracket ts)
      (r.readCycle ⟨far, depth⟩ sign bracket ts) := by
  obtain same | ⟨unclosed, unclosedToo⟩ :=
    readCycle_eq_or_unclosed r near far depth sign bracket ts
  · rw [same]
    exact .refl _
  · rw [unclosed, unclosedToo]
    exact .error (delayed_unclosed _ bracket)

theorem waits_readSignedCycle (t : Token) (ts : List Token) :
    Waits near far (r.readSignedCycle ⟨near, depth⟩ t ts)
      (r.readSignedCycle ⟨far, depth⟩ t ts) := by
  unfold readSignedCycle
  dsimp only
  split
  · exact .error (.atEnd rfl rfl)
  · refine .ite (fun _ => ?_) fun _ => .refl _
    exact .bind (waits_readCycle _ _ _) fun _ => .refl _

/-! ### Statements inside statements -/

/-- Whether what is found wrong with statements of a text is delayed if the text ends later. -/
def WaitsNested (text : String) (far : Nat) (nested : Nested) : Prop :=
  ∀ depth context t ts, Shown text (t :: ts) →
    Waits text.utf8ByteSize far (nested ⟨text.utf8ByteSize, depth⟩ context t ts)
      (nested ⟨far, depth⟩ context t ts)

section

variable {text : String} {nested : Nested} {t : Token} {ts : List Token}
  (inner : WaitsNested text far nested)

include inner

theorem waits_readSequence (stop : SymbolSet) {ts : List Token} (shown : Shown text ts) :
    Waits text.utf8ByteSize far
      (r.readSequence nested ⟨text.utf8ByteSize, depth⟩ context stop ts)
      (r.readSequence nested ⟨far, depth⟩ context stop ts) := by
  match ts with
  | [] =>
    rw [readSequence, readSequence]
    exact .refl _
  | t :: ts =>
    rw [readSequence, readSequence]
    refine .ite (fun _ => .refl _) fun _ => .bind (inner depth context t ts shown) ?_
    rintro ⟨statement, rest⟩
    have shorter : rest.1.length < (t :: ts).length := Nat.lt_succ_of_le rest.2.length_le
    exact .bind (waits_readSequence stop (shown.tail.suffix rest.2)) fun _ => .refl _
termination_by ts.length
decreasing_by exact shorter

theorem waits_readOperand (operator : Range) (shown : Shown text ts) :
    Waits text.utf8ByteSize far (readOperand nested ⟨text.utf8ByteSize, depth⟩ operator ts)
      (readOperand nested ⟨far, depth⟩ operator ts) := by
  cases ts with
  | nil => exact .error (.moved rfl)
  | cons t ts => exact .bind (inner depth .operand t ts shown) fun _ => .refl _

theorem waits_readSecond (construct : Construct) (first : List Statement) (closed : Range)
    (shown : Shown text ts) :
    Waits text.utf8ByteSize far
      (r.readSecond nested ⟨text.utf8ByteSize, depth⟩ construct first closed ts)
      (r.readSecond nested ⟨far, depth⟩ construct first closed ts) := by
  cases ts with
  | nil => exact .error (.moved rfl)
  | cons t ts =>
    refine .ite (fun _ => .refl _) fun _ => ?_
    exact .bind (inner depth .operand t ts shown) fun _ => .refl _

theorem waits_closeCompound (candidates : List Construct) (opening closing : Token)
    (first : List Statement) (second : Option (List Statement)) (shown : Shown text ts) :
    Waits text.utf8ByteSize far
      (r.closeCompound nested ⟨text.utf8ByteSize, depth⟩ candidates context opening first second
        closing ts)
      (r.closeCompound nested ⟨far, depth⟩ candidates context opening first second closing ts) := by
  refine .bind (.refl _) fun construct => ?_
  split
  · exact .refl _
  · exact .refl _
  · exact .refl _
  · exact .refl _
  · exact waits_readSecond inner _ first _ shown

theorem waits_readCompound (candidates : List Construct) (opening : Token)
    (shown : Shown text ts) :
    Waits text.utf8ByteSize far
      (r.readCompound nested ⟨text.utf8ByteSize, depth⟩ candidates opening ts)
      (r.readCompound nested ⟨far, depth⟩ candidates opening ts) := by
  refine .bind (waits_readSequence inner _ shown) ?_
  rintro ⟨first, rest⟩
  match rest with
  | ⟨[], _⟩ => exact .error (delayed_unclosed candidates opening)
  | ⟨t :: left, behind⟩ =>
    have later := (shown.suffix behind).tail
    dsimp only
    split
    · exact .bind (waits_closeCompound inner _ _ t _ _ later) fun _ => .refl _
    · refine .bind (waits_readSequence inner _ later) ?_
      rintro ⟨second, rest⟩
      match rest with
      | ⟨[], _⟩ => exact .error (delayed_unclosed _ opening)
      | ⟨u :: right, further⟩ =>
        have last := (later.suffix further).tail
        exact .bind (waits_closeCompound inner _ _ u _ _ last) fun _ => .refl _

theorem waits_readWrapped (w : Wrapper) (operator : Range) (shown : Shown text ts) :
    Waits text.utf8ByteSize far (readWrapped nested ⟨text.utf8ByteSize, depth⟩ w operator ts)
      (readWrapped nested ⟨far, depth⟩ w operator ts) :=
  .bind (waits_readOperand inner operator shown) fun _ => .refl _

theorem waits_readRepeated (count : Nat) (range : Range) (shown : Shown text ts) :
    Waits text.utf8ByteSize far
      (r.readRepeated nested ⟨text.utf8ByteSize, depth⟩ count range ts)
      (r.readRepeated nested ⟨far, depth⟩ count range ts) := by
  cases ts with
  | nil =>
    exact .ite (fun _ => waits_readWrapped inner _ range shown) fun _ => .error (.atEnd rfl rfl)
  | cons t ts =>
    refine .ite (fun _ => ?_) fun _ => ?_
    · exact .bind (waits_readWrapped inner _ range shown.tail) fun _ => .refl _
    · exact .ite (fun _ => waits_readWrapped inner _ range shown) fun _ => .refl _

theorem waits_readStart (shown : Shown text (t :: ts)) (start : Start) :
    Waits text.utf8ByteSize far
      (r.readStart nested ⟨text.utf8ByteSize, depth⟩ context t ts start)
      (r.readStart nested ⟨far, depth⟩ context t ts start) := by
  cases start with
  | turn => exact .refl _
  | nop => exact .refl _
  | shorthand => exact .refl _
  | compound candidates => exact waits_readCompound inner candidates t shown.tail
  | cycle => exact waits_readCycle none t ts
  | signedCycle => exact waits_readSignedCycle t ts
  | inversion => exact waits_readWrapped inner _ t.range shown.tail
  | reflection => exact waits_readWrapped inner _ t.range shown.tail
  | repetition => exact .bind (.refl _) fun count => waits_readRepeated inner count _ shown.tail

/-! ### Behind a statement -/

omit inner in
theorem waits_readCountBehind (ts : List Token) :
    Waits near far (readCountBehind ⟨near, depth⟩ context ts)
      (readCountBehind ⟨far, depth⟩ context ts) := by
  cases ts with
  | nil => exact .error (.atEnd rfl rfl)
  | cons t ts => exact .refl _

theorem waits_readBracketBehind (candidates : List Construct) (first : Statement)
    (opening : Token) (shown : Shown text ts) :
    Waits text.utf8ByteSize far
      (r.readBracketBehind nested ⟨text.utf8ByteSize, depth⟩ candidates first opening ts)
      (r.readBracketBehind nested ⟨far, depth⟩ candidates first opening ts) := by
  refine .bind (waits_readSequence inner _ shown) ?_
  rintro ⟨second, rest⟩
  match rest with
  | ⟨[], _⟩ => exact .error (delayed_unclosed candidates opening)
  | ⟨_ :: _, _⟩ => exact .refl _

theorem waits_readDelimiterBehind (candidates : List Construct) (first : Statement)
    (delimiter : Token) (shown : Shown text ts) :
    Waits text.utf8ByteSize far
      (readDelimiterBehind nested ⟨text.utf8ByteSize, depth⟩ candidates first delimiter ts)
      (readDelimiterBehind nested ⟨far, depth⟩ candidates first delimiter ts) := by
  unfold readDelimiterBehind
  dsimp only
  split
  · exact .bind (waits_readOperand inner _ shown) fun _ => .refl _
  · exact .refl _

theorem waits_extendBy (statement : Statement) (shown : Shown text ts) (behind : Behind) :
    Waits text.utf8ByteSize far
      (r.extendBy nested ⟨text.utf8ByteSize, depth⟩ context statement t ts behind)
      (r.extendBy nested ⟨far, depth⟩ context statement t ts behind) := by
  cases behind with
  | wrap w => exact .refl _
  | count => exact .refl _
  | countNext => exact .bind (waits_readCountBehind ts) fun _ => .refl _
  | bracket candidates => exact waits_readBracketBehind inner candidates statement t shown
  | delimiter candidates => exact waits_readDelimiterBehind inner candidates statement t shown

theorem waits_readBehind (statement : Statement) {ts : List Token} (shown : Shown text ts) :
    Waits text.utf8ByteSize far
      (r.readBehind nested ⟨text.utf8ByteSize, depth⟩ context statement ts)
      (r.readBehind nested ⟨far, depth⟩ context statement ts) := by
  match ts with
  | [] =>
    rw [readBehind, readBehind, readWhile, readWhile]
    exact .refl _
  | t :: ts =>
    have next : r.behind? t (Scope.peek ⟨far, depth⟩ ts) =
        r.behind? t (Scope.peek ⟨text.utf8ByteSize, depth⟩ ts) := by
      cases ts <;> rfl
    rw [readBehind, readBehind, readWhile, readWhile, extend?, extend?, next]
    cases r.behind? t (Scope.peek ⟨text.utf8ByteSize, depth⟩ ts) with
    | none => exact .refl _
    | some behind =>
      refine .bind (waits_extendBy inner statement shown.tail behind) ?_
      rintro ⟨larger, rest⟩
      have shorter : rest.1.length < (t :: ts).length := Nat.lt_succ_of_le rest.2.length_le
      exact .bind (waits_readBehind larger (shown.tail.suffix rest.2)) fun _ => .refl _
termination_by ts.length
decreasing_by exact shorter

end

/-! ### Several attempts -/

/-- Nothing of a text from one of its tokens on lies before that token. -/
theorem ahead_of_shown {text : String} {t : Token} {ts : List Token} (shown : Shown text (t :: ts))
    (depth : Nat) : Ahead t.range.start ⟨text.utf8ByteSize, depth⟩ (t :: ts) where
  placed := shown.placed
  tokens u member := by
    obtain rfl | member := List.mem_cons.1 member
    · exact Nat.le_refl _
    · exact Nat.le_trans shown.head.ordered (shown.placed.le member)
  stop := shown.head.start_le rfl

/-- Of two attempts the second may depend on where the text ends by a bracket that is never closed.
Then nothing that is wrong with the first may lie before the bracket. -/
theorem waits_firstSuccess {α γ : Type} {attempt another : γ → Except Diagnostic α} {a b : γ}
    (longer : near < far) (first : Waits near far (attempt a) (another a))
    (inside : Reports (fun d => d.range.stop ≤ near) (attempt a))
    (insideToo : Reports (fun d => d.range.stop ≤ near) (attempt b))
    (second : another b = attempt b ∨ ∃ f g, attempt b = .error f ∧ another b = .error g ∧
      f.Delayed near far g ∧ g.code = .unclosed ∧ Reports (From g.range.start) (attempt a)) :
    Waits near far (firstSuccess attempt a [b]) (firstSuccess another a [b]) := by
  rw [firstSuccess, firstSuccess, firstSuccess, firstSuccess]
  generalize attempt a = outcome at first inside second ⊢
  generalize another a = late at first ⊢
  cases first with
  | ok result => exact .ok result
  | @error d e delayed =>
    dsimp only
    obtain same | ⟨f, g, failed, failedToo, moves, code, onward⟩ := second
    · rw [same]
      cases failed : attempt b with
      | ok result => exact .ok result
      | error f =>
        exact .error (delayed.furthest longer (.same f) (inside d rfl) (insideToo f failed)
          (.inl rfl))
    · rw [failed, failedToo]
      exact .error (delayed.furthest longer moves (inside d rfl) (insideToo f failed)
        (.inr ⟨code, onward d rfl⟩))

section

variable {size : Size} {names : List String} (abbreviated : r.dialect.IsAbbreviated size names)
  {text : String} (longer : text.utf8ByteSize < far)

include abbreviated longer

/-- A bracket may open a group or a cycle, and a name may be that of a turn or of a shorthand, which
does not depend on where the text ends. -/
theorem waits_readBeginning {nested : Nested} (inner : WaitsNested text far nested)
    (points : Points r.dialect nested) (onwards : Onwards nested) {t : Token} {ts : List Token}
    (shown : Shown text (t :: ts)) :
    Waits text.utf8ByteSize far
      (r.readBeginning nested ⟨text.utf8ByteSize, depth⟩ context t ts)
      (r.readBeginning nested ⟨far, depth⟩ context t ts) := by
  rw [readBeginning, readBeginning]
  obtain same | ⟨_, same⟩ | short := starts_eq abbreviated t
  · rw [same]
    exact .refl _
  · have inside (way : Start) : Reports (fun d => d.range.stop ≤ text.utf8ByteSize)
        (r.readStart nested ⟨text.utf8ByteSize, depth⟩ context t ts way) := fun d failed =>
      (points_readStart points rfl shown way d failed).isIn.inside
    rw [same]
    refine waits_firstSuccess longer (waits_readStart inner shown _) (inside _) (inside _) ?_
    refine (readCycle_eq_or_unclosed r text.utf8ByteSize far depth none t ts).imp_right ?_
    rintro ⟨unclosed, unclosedToo⟩
    exact ⟨_, _, unclosed, unclosedToo, delayed_unclosed _ t, rfl,
      onward_readStart onwards (ahead_of_shown shown depth) _⟩
  · cases starts : r.dialect.starts t with
    | nil => exact .refl _
    | cons way others =>
      rw [starts, List.length_cons, Nat.succ_le_succ_iff] at short
      obtain rfl := List.length_eq_zero_iff.1 (Nat.le_zero.1 short)
      exact waits_readStart inner shown way

theorem waits_readStatement (levels : Nat) : WaitsNested text far (r.readStatement levels) := by
  induction levels with
  | zero =>
    intro depth context t ts _
    exact .refl _
  | succ levels ih =>
    intro depth context t ts shown
    refine .bind (waits_readBeginning abbreviated longer ih (points_readStatement r levels)
      (onward_readStatement r levels) shown) ?_
    rintro ⟨beginning, rest⟩
    exact .bind (waits_readBehind ih beginning (shown.tail.suffix rest.2)) fun _ => .refl _

end

/-- What is wrong with a text is delayed in one with the same tokens that ends later. -/
theorem delayed_read {text other : String} (abbreviated : r.dialect.IsAbbreviated size names)
    (longer : text.utf8ByteSize < other.utf8ByteSize)
    (same : r.lexer.tokens other = r.lexer.tokens text) {d : Diagnostic}
    (failed : r.read text = .error d) :
    ∃ e, r.read other = .error e ∧ d.Delayed text.utf8ByteSize other.utf8ByteSize e := by
  have waits : Waits text.utf8ByteSize other.utf8ByteSize (r.readStatements text)
      (r.readStatements other) := by
    have shown := Shown.tokens r.lexer text
    have nested := waits_readStatement abbreviated longer r.maxNesting
    have tokens (us : List Token) (same : us = r.lexer.tokens text) :
        Waits text.utf8ByteSize other.utf8ByteSize (r.readStatements text)
          ((r.readSequence (r.readStatement r.maxNesting) ⟨other.utf8ByteSize, 0⟩ .script .empty us)
            >>= fun result => .ok result.1) := by
      subst same
      exact .bind (waits_readSequence nested .empty shown) fun _ => .refl _
    exact tokens _ same
  rw [read] at failed ⊢
  generalize r.readStatements text = first at waits failed
  generalize r.readStatements other = second at waits ⊢
  cases waits with
  | ok statements => cases failed
  | error delayed =>
    cases failed
    exact ⟨_, rfl, delayed⟩

end Reader

end CubeScript
