import CubeScript.Proofs.Reading.Drafting

/-!
# Reading two lists of tokens side by side

Two readers of one language read lists of tokens that track each other. If the readers of the
statements inside agree on all such lists, the readers of what is around them do, one function after
the other. The readers of whole statements then agree by induction on the levels of statements
(`Reader.agrees_readStatement`). What is read at a swap has to be shown to agree where swaps are
made.
-/

namespace CubeScript

namespace Reader

open Diagnostic Statement

/-- Whether a reader stops at its own limits. -/
structure StopsAtLimits (r : Reader) (stops : Diagnostic → Bool) : Prop where
  nesting : ∀ range, stops { problem := .nestedTooDeeply r.maxNesting, range }
  depth : ∀ name range, stops { problem := .shorthandTooDeep name r.maxShorthandDepth, range }

/-- Whether one number is another one, or below it if the reader stops at limits. -/
def Below (r : Reader) (stops : Diagnostic → Bool) (a b : Nat) : Prop :=
  a = b ∨ r.StopsAtLimits stops ∧ a ≤ b

/-- Whether two ways to read the statements inside others agree on tokens that track each other. The
second one may have fewer shorthands around it if the first one stops at limits. -/
def AgreesNested (stops : Diagnostic → Bool) (seen : Wrapper → Wrapper)
    (Swaps : List Token → List Token → Prop) (r : Reader) (nested wider : Nested) : Prop :=
  ∀ scope outer : Scope, r.Below stops outer.depth scope.depth →
    ∀ context other t ts u us, Tracks Swaps (t :: ts) (u :: us) →
      Agrees stops (Beside (Alike seen) Swaps) (nested scope context t ts) (wider outer other u us)

section

variable {stops : Diagnostic → Bool} {seen : Wrapper → Wrapper}
  {Swaps : List Token → List Token → Prop} {r : Reader} (swaps : r.InertSwaps Swaps)
  {nested wider : Nested} (inner : AgreesNested stops seen Swaps r nested wider)
  {scope outer : Scope} (deep : r.Below stops outer.depth scope.depth)

include swaps inner deep

theorem agrees_readSequence (context other : Context) {stop : SymbolSet} (closing : Closing stop)
    {ts us : List Token} (tracks : Tracks Swaps ts us) :
    Agrees stops (Beside (AllAlike seen) Swaps) (r.readSequence nested scope context stop ts)
      (r.readSequence wider outer other stop us) := by
  fun_induction readSequence r nested scope context stop ts generalizing us with
  | case1 =>
    obtain rfl := eq_nil_of_tracks swaps tracks
    rw [readSequence]
    exact .ok ⟨.nil, .nil⟩
  | case2 t ts ends =>
    obtain ⟨u, us, rfl, goes⟩ := exists_goes swaps tracks
    rw [goes.sameHead.intersects closing] at ends
    rw [readSequence, if_pos ends]
    exact .ok ⟨.nil, tracks⟩
  | case3 t ts more ih =>
    obtain ⟨u, us, rfl, goes⟩ := exists_goes swaps tracks
    rw [goes.sameHead.intersects closing] at more
    rw [readSequence, if_neg more]
    refine .bind (inner scope outer deep context other t ts u us tracks) ?_
    rintro ⟨statement, rest⟩ ⟨another, left⟩ ⟨alike, later⟩
    refine .bind (ih rest later) ?_
    rintro ⟨statements, rest⟩ ⟨others, left⟩ ⟨allAlike, later⟩
    exact .ok ⟨.cons alike allAlike, later⟩

theorem agrees_readOperand (operator place : Range) {ts us : List Token}
    (tracks : Tracks Swaps ts us) :
    Agrees stops (Beside (Alike seen) Swaps) (readOperand nested scope operator ts)
      (readOperand wider outer place us) := by
  cases ts with
  | nil =>
    obtain rfl := eq_nil_of_tracks swaps tracks
    exact .errors _ _
  | cons t ts =>
    obtain ⟨u, us, rfl, goes⟩ := exists_goes swaps tracks
    refine .bind (inner scope outer deep .operand .operand t ts u us tracks) ?_
    rintro ⟨statement, rest⟩ ⟨another, left⟩ given
    exact .ok given

/-! ### Brackets -/

omit swaps inner deep in
theorem agrees_oneLeft (candidates : List Construct) (context other : Context)
    (closing again : Token) (range place : Range) :
    Agrees stops Eq (oneLeft candidates context closing range)
      (oneLeft candidates other again place) := by
  match candidates with
  | [construct] => exact .ok rfl
  | [] => exact .errors _ _
  | _ :: _ :: _ => exact .errors _ _

theorem agrees_readSecond (construct : Construct) {first begun : List Statement}
    (ofFirst : AllAlike seen first begun) (closed place : Range) {ts us : List Token}
    (tracks : Tracks Swaps ts us) :
    Agrees stops (Beside (Alike seen) Swaps)
      (r.readSecond nested scope construct first closed ts)
      (r.readSecond wider outer construct begun place us) := by
  cases ts with
  | nil =>
    obtain rfl := eq_nil_of_tracks swaps tracks
    exact .errors _ _
  | cons t ts =>
    obtain ⟨u, us, rfl, goes⟩ := exists_goes swaps tracks
    have ends : (r.dialect.symbolsOf t).intersects allClosings ↔
        (r.dialect.symbolsOf u).intersects allClosings := by
      rw [goes.sameHead.intersects fun _ member => member]
    refine .ite ends (fun _ => .errors _ _) ?_
    intro _
    refine .bind (inner scope outer deep .operand .operand t ts u us tracks) ?_
    rintro ⟨second, rest⟩ ⟨another, left⟩ ⟨alike, later⟩
    exact .ok ⟨.paired _ ofFirst (.singleton alike) _ _, later⟩

/-- What stands between brackets, once or twice. -/
def SameOperands (seen : Wrapper → Wrapper) (second : Option (List Statement))
    (other : Option (List Statement)) : Prop :=
  match second, other with
  | none, none => True
  | some second, some other => AllAlike seen second other
  | _, _ => False

theorem agrees_closeCompound (candidates : List Construct) (context other : Context)
    (opening again : Token) {first begun : List Statement} (ofFirst : AllAlike seen first begun)
    (second further : Option (List Statement)) (ofSecond : SameOperands seen second further)
    {t u : Token} {ts us : List Token} (goes : r.Goes Swaps t ts u us) :
    Agrees stops (Beside (Alike seen) Swaps)
      (r.closeCompound nested scope candidates context opening first second t ts)
      (r.closeCompound wider outer candidates other again begun further u us) := by
  have sameSecond : second.isSome = further.isSome := by
    cases second <;> cases further <;> first | rfl | exact ofSecond.elim
  rw [closeCompound, closeCompound, sameSecond, ← goes.sameHead.closedBy]
  obtain ⟨_, tracks⟩ | ⟨inert, _⟩ := goes
  · refine .bind (agrees_oneLeft _ context other t u _ _) ?_
    rintro construct _ rfl
    cases second with
    | none =>
      cases further with
      | some further => exact ofSecond.elim
      | none =>
        cases construct <;> first
          | exact .ok ⟨.wrapped rfl ofFirst _ _, tracks⟩
          | exact agrees_readSecond swaps inner deep _ ofFirst _ _ tracks
    | some second =>
      cases further with
      | none => exact ofSecond.elim
      | some further =>
        cases construct <;> exact .ok ⟨.paired _ ofFirst ofSecond _ _, tracks⟩
  · rw [inert.closedBy]
    exact .errors _ _

theorem agrees_readCompound (candidates : List Construct) (opening again : Token)
    {ts us : List Token} (tracks : Tracks Swaps ts us) :
    Agrees stops (Beside (Alike seen) Swaps)
      (r.readCompound nested scope candidates opening ts)
      (r.readCompound wider outer candidates again us) := by
  rw [readCompound, readCompound]
  refine .bind (agrees_readSequence swaps inner deep _ _ (closing_firstStops _) tracks) ?_
  rintro ⟨first, rest, before⟩ ⟨begun, left, beforeToo⟩ ⟨ofFirst, later⟩
  cases rest with
  | nil =>
    obtain rfl := eq_nil_of_tracks swaps later
    exact .errors _ _
  | cons t rest =>
    obtain ⟨u, left, rfl, goes⟩ := exists_goes swaps later
    dsimp only
    rw [← goes.sameHead.delimitedBy]
    split
    · refine .bind (agrees_closeCompound swaps inner deep _ _ _ _ _ ofFirst none none
        trivial goes) ?_
      rintro ⟨statement, rest⟩ ⟨another, left⟩ given
      exact .ok given
    · rename_i delimited
      obtain ⟨_, tracks⟩ | ⟨inert, _⟩ := goes
      · refine .bind (agrees_readSequence swaps inner deep _ _ (closing_closings _) tracks) ?_
        rintro ⟨second, rest, before⟩ ⟨further, left, beforeToo⟩ ⟨ofSecond, later⟩
        cases rest with
        | nil =>
          obtain rfl := eq_nil_of_tracks swaps later
          exact .errors _ _
        | cons t rest =>
          obtain ⟨u, left, rfl, goes⟩ := exists_goes swaps later
          refine .bind (agrees_closeCompound swaps inner deep _ _ _ _ _ ofFirst
            (some second) (some further) ofSecond goes) ?_
          rintro ⟨statement, rest⟩ ⟨another, left⟩ given
          exact .ok given
      · exact absurd (inert.delimitedBy candidates) delimited

/-! ### Behind a statement -/

omit inner deep in
theorem agrees_readCountBehind (context other : Context) {ts us : List Token}
    (tracks : Tracks Swaps ts us) :
    Agrees stops (Beside (fun a b : Nat × Token => a.1 = b.1) Swaps)
      (readCountBehind scope context ts) (readCountBehind outer other us) := by
  cases ts with
  | nil =>
    obtain rfl := eq_nil_of_tracks swaps tracks
    exact .errors _ _
  | cons t ts =>
    obtain ⟨u, us, rfl, ⟨same, later⟩ | ⟨inert, inertToo⟩⟩ := exists_goes swaps tracks
    · have kind : t.kind = u.kind := congrArg Lexeme.kind same
      refine .ite (by rw [kind]) (fun _ => .errors _ _) ?_
      intro _
      refine .bind (agrees_repeatCount same) ?_
      rintro count _ rfl
      exact .ok ⟨rfl, later⟩
    · rw [readCountBehind, readCountBehind, if_pos inert.kind, if_pos inertToo.kind]
      exact .errors _ _

theorem agrees_readBracketBehind (candidates : List Construct) {first begun : Statement}
    (ofFirst : Alike seen first begun) (opening again : Token) {ts us : List Token}
    (tracks : Tracks Swaps ts us) :
    Agrees stops (Beside (Alike seen) Swaps)
      (r.readBracketBehind nested scope candidates first opening ts)
      (r.readBracketBehind wider outer candidates begun again us) := by
  refine .bind (agrees_readSequence swaps inner deep _ _ (closing_closings _) tracks) ?_
  rintro ⟨second, rest, before⟩ ⟨further, left, beforeToo⟩ ⟨ofSecond, later⟩
  cases rest with
  | nil =>
    obtain rfl := eq_nil_of_tracks swaps later
    exact .errors _ _
  | cons t rest =>
    obtain ⟨u, left, rfl, ⟨same, tracks⟩ | ⟨inert, inertToo⟩⟩ := exists_goes swaps later
    · obtain ⟨range, rfl⟩ := Token.exists_eq_of_lexeme same
      refine .bind (agrees_oneLeft _ _ _ _ _ _ _) ?_
      rintro construct _ rfl
      exact .ok ⟨.paired _ (.singleton ofFirst) ofSecond _ _, tracks⟩
    · dsimp only
      simp only [inert.has_end, inertToo.has_end, List.filter_false]
      exact .errors _ _

theorem agrees_readDelimiterBehind (candidates : List Construct) {first begun : Statement}
    (ofFirst : Alike seen first begun) (delimiter again : Token) {ts us : List Token}
    (tracks : Tracks Swaps ts us) :
    Agrees stops (Beside (Alike seen) Swaps)
      (readDelimiterBehind nested scope candidates first delimiter ts)
      (readDelimiterBehind wider outer candidates begun again us) := by
  match candidates with
  | [construct] =>
    refine .bind (agrees_readOperand swaps inner deep _ _ tracks) ?_
    rintro ⟨second, rest⟩ ⟨further, left⟩ ⟨alike, later⟩
    exact .ok ⟨.paired _ (.singleton ofFirst) (.singleton alike) _ _, later⟩
  | [] => exact .errors _ _
  | _ :: _ :: _ => exact .errors _ _

theorem agrees_extendBy (context other : Context) {statement begun : Statement}
    (alike : Alike seen statement begun) {t u : Token} (same : t.lexeme = u.lexeme)
    {ts us : List Token} (tracks : Tracks Swaps ts us) (behind : Behind) :
    Agrees stops (Beside (Alike seen) Swaps)
      (r.extendBy nested scope context statement t ts behind)
      (r.extendBy wider outer other begun u us behind) := by
  have wrapped (w : Wrapper) (range place : Range) :
      Alike seen (.wrapped w [statement] range) (.wrapped w [begun] place) :=
    .wrapped rfl (.singleton alike) range place
  cases behind with
  | wrap w => exact .ok ⟨wrapped w _ _, tracks⟩
  | count =>
    refine .bind (agrees_repeatCount same) ?_
    rintro count _ rfl
    exact .ok ⟨wrapped _ _ _, tracks⟩
  | countNext =>
    refine .bind (agrees_readCountBehind swaps context other tracks) ?_
    rintro ⟨⟨count, number⟩, rest⟩ ⟨⟨_, again⟩, left⟩ ⟨rfl, later⟩
    exact .ok ⟨wrapped _ _ _, later⟩
  | bracket candidates => exact agrees_readBracketBehind swaps inner deep _ alike _ _ tracks
  | delimiter candidates => exact agrees_readDelimiterBehind swaps inner deep _ alike _ _ tracks

theorem agrees_readBehind (context other : Context) {statement begun : Statement}
    (alike : Alike seen statement begun) {ts us : List Token} (tracks : Tracks Swaps ts us) :
    Agrees stops (Beside (Alike seen) Swaps) (r.readBehind nested scope context statement ts)
      (r.readBehind wider outer other begun us) := by
  rw [readBehind, readBehind]
  fun_induction readWhile (r.extend? nested scope context) statement ts generalizing begun us with
  | case1 =>
    obtain rfl := eq_nil_of_tracks swaps tracks
    rw [readWhile]
    exact .ok ⟨alike, .nil⟩
  | case2 statement t ts ends =>
    obtain ⟨u, us, rfl, goes⟩ := exists_goes swaps tracks
    rw [extend?, Option.map_eq_none_iff] at ends
    have endsToo : r.behind? u (outer.peek us) = none := by
      obtain ⟨same, later⟩ | ⟨_, inert⟩ := goes
      · rw [← ends]
        exact (SameHead.behind? (.inl same) (sameHead_peek swaps later scope outer)).symm
      · exact inert.behind _
    rw [readWhile, extend?, endsToo]
    exact .ok ⟨alike, tracks⟩
  | case3 statement t ts reading more ih =>
    obtain ⟨u, us, rfl, ⟨same, later⟩ | ⟨inert, _⟩⟩ := exists_goes swaps tracks
    · rw [extend?, Option.map_eq_some_iff] at more
      obtain ⟨behind, found, rfl⟩ := more
      have foundToo : r.behind? u (outer.peek us) = some behind := by
        rw [← found]
        exact (SameHead.behind? (.inl same) (sameHead_peek swaps later scope outer)).symm
      rw [readWhile, extend?, foundToo, Option.map_some]
      refine .bind (agrees_extendBy swaps inner deep _ _ alike same later behind) ?_
      rintro ⟨next, rest⟩ ⟨another, left⟩ ⟨alike, later⟩
      refine .bind (ih next rest alike later) ?_
      rintro ⟨last, rest⟩ ⟨lastToo, left⟩ given
      exact .ok given
    · rw [extend?, inert.behind] at more
      cases more

end

/-! ### At the beginning of a statement -/

section

variable {stops : Diagnostic → Bool} {seen : Wrapper → Wrapper}
  {Swaps : List Token → List Token → Prop} {r : Reader} (swaps : r.InertSwaps Swaps)
  {nested wider : Nested} (inner : AgreesNested stops seen Swaps r nested wider)
  {scope outer : Scope} (deep : r.Below stops outer.depth scope.depth)

/-- Whether a reader that stops at an error stops at it in the text of a shorthand, too. -/
def StopsInside (stops : Diagnostic → Bool) : Prop :=
  ∀ name range cause, stops cause →
    stops { problem := .shorthandBody name, range, cause := some cause }

include swaps inner deep

theorem agrees_readShorthand (inside : StopsInside stops) (context other : Context)
    {t u : Token} (same : t.lexeme = u.lexeme) {ts us : List Token}
    (tracks : Tracks Swaps ts us) :
    Agrees stops (Beside (Alike seen) Swaps) (r.readShorthand nested scope context t ts)
      (r.readShorthand wider outer other u us) := by
  obtain ⟨range, rfl⟩ := Token.exists_eq_of_lexeme same
  rw [readShorthand, readShorthand]
  dsimp only
  cases r.dialect.expansion? t.text with
  | none => exact .errors _ _
  | some text =>
    dsimp only
    by_cases tooDeep : r.maxShorthandDepth ≤ scope.depth
    · rw [if_pos tooDeep]
      obtain equal | ⟨limits, _⟩ := deep
      · rw [if_pos (equal ▸ tooDeep)]
        exact .errors _ _
      · exact .stopped (limits.depth _ _) _
    · have fits : ¬ r.maxShorthandDepth ≤ outer.depth := by
        obtain equal | ⟨_, below⟩ := deep <;> omega
      rw [if_neg tooDeep, if_neg fits]
      have deeper : r.Below stops (Scope.depth ⟨text.utf8ByteSize, outer.depth + 1⟩)
          (Scope.depth ⟨text.utf8ByteSize, scope.depth + 1⟩) :=
        deep.imp (congrArg (· + 1)) (And.imp_right Nat.succ_le_succ)
      have body := agrees_readSequence swaps inner deeper .shorthand .shorthand closing_empty
        (.refl (r.lexer.tokens text))
      generalize r.readSequence nested _ _ _ _ = first at body ⊢
      generalize r.readSequence wider _ _ _ _ = second at body ⊢
      cases body with
      | ok given => exact .ok ⟨.wrapped rfl given.1 _ _, tracks⟩
      | errors d e => exact .errors _ _
      | stopped yes outcome => exact .stopped (inside _ _ _ yes) _

theorem agrees_readWrapped (w : Wrapper) (operator place : Range) {ts us : List Token}
    (tracks : Tracks Swaps ts us) :
    Agrees stops (Beside (Alike seen) Swaps) (readWrapped nested scope w operator ts)
      (readWrapped wider outer w place us) := by
  refine .bind (agrees_readOperand swaps inner deep _ _ tracks) ?_
  rintro ⟨operand, rest⟩ ⟨another, left⟩ ⟨alike, later⟩
  exact .ok ⟨.wrapped rfl (.singleton alike) _ _, later⟩

theorem agrees_readRepeated (count : Nat) (range place : Range) {ts us : List Token}
    (tracks : Tracks Swaps ts us) :
    Agrees stops (Beside (Alike seen) Swaps) (r.readRepeated nested scope count range ts)
      (r.readRepeated wider outer count place us) := by
  cases ts with
  | nil =>
    obtain rfl := eq_nil_of_tracks swaps tracks
    refine .ite Iff.rfl (fun _ => ?_) fun _ => .errors _ _
    exact agrees_readWrapped swaps inner deep _ _ _ .nil
  | cons t ts =>
    obtain ⟨u, us, rfl, goes⟩ := exists_goes swaps tracks
    refine .ite (by rw [goes.sameHead.countsNext]) (fun counts => ?_) fun _ => ?_
    · obtain ⟨_, later⟩ | ⟨inert, _⟩ := goes
      · refine .bind (agrees_readWrapped swaps inner deep _ _ _ later) ?_
        rintro ⟨statement, rest⟩ ⟨another, left⟩ given
        exact .ok given
      · rw [inert.counts] at counts
        cases counts
    · refine .ite Iff.rfl (fun _ => ?_) fun _ => .errors _ _
      exact agrees_readWrapped swaps inner deep _ _ _ tracks

theorem agrees_readStart (inside : StopsInside stops) (context other : Context) {t u : Token}
    (same : t.lexeme = u.lexeme) {ts us : List Token} (tracks : Tracks Swaps ts us)
    {start : Start} (member : start ∈ r.dialect.starts t) :
    Agrees stops (Beside (Alike seen) Swaps) (r.readStart nested scope context t ts start)
      (r.readStart wider outer other u us start) := by
  cases start with
  | turn =>
    have text : u.text = t.text := congrArg Lexeme.text same.symm
    rw [readStart, readStart, text]
    split
    · exact .ok ⟨.atom _ _ _, tracks⟩
    · exact .errors _ _
  | nop => exact .ok ⟨.atom _ _ _, tracks⟩
  | shorthand => exact agrees_readShorthand swaps inner deep inside context other same tracks
  | compound candidates => exact agrees_readCompound swaps inner deep candidates t u tracks
  | cycle => exact agrees_readCycle swaps scope outer seen rfl t u tracks
  | signedCycle =>
    have signed : r.dialect.accepts .permutation .before := by
      simp only [Dialect.starts] at member
      split at member
      · split at member <;> simp at member
      · simp only [List.mem_append, List.mem_ite_nil_right, List.mem_singleton, reduceCtorEq,
          List.mem_ite_nil_left, and_false, or_false, false_or, and_true, Bool.and_eq_true]
          at member
        exact member.2
    exact agrees_readSignedCycle swaps scope outer seen signed same tracks
  | inversion => exact agrees_readWrapped swaps inner deep _ _ _ tracks
  | reflection => exact agrees_readWrapped swaps inner deep _ _ _ tracks
  | repetition =>
    refine .bind (agrees_repeatCount same) ?_
    rintro count _ rfl
    exact agrees_readRepeated swaps inner deep count _ _ tracks

omit swaps inner deep in
/-- The first of some attempts, of which the first reader makes only those up to a stop. -/
theorem agrees_firstSuccess {α β γ : Type} {related : α → β → Prop}
    {attempt : γ → Except Diagnostic α} {another : γ → Except Diagnostic β} {a : γ}
    {others : List γ} (each : ∀ c ∈ a :: others, Agrees stops related (attempt c) (another c)) :
    Agrees stops related (firstSuccessUnless stops attempt a others)
      (firstSuccess another a others) := by
  induction others generalizing a with
  | nil => exact each a List.mem_cons_self
  | cons b others ih =>
    have first := each a List.mem_cons_self
    have rest := ih fun c member => each c (List.mem_cons_of_mem a member)
    rw [firstSuccessUnless, firstSuccess]
    generalize attempt a = outcome at first ⊢
    generalize another a = outcomeToo at first ⊢
    cases first with
    | ok same => exact .ok same
    | stopped yes outcome =>
      dsimp only
      rw [if_pos yes]
      exact .stopped yes _
    | errors d e =>
      dsimp only
      split
      · rename_i yes
        exact .stopped yes _
      · generalize firstSuccessUnless stops attempt b others = later at rest ⊢
        generalize firstSuccess another b others = laterToo at rest ⊢
        cases rest with
        | ok same => exact .ok same
        | errors => exact .errors _ _
        | @stopped f yes =>
          refine .stopped ?_ _
          dsimp only
          rwa [if_pos yes]

theorem agrees_readBeginning (inside : StopsInside stops) (context other : Context)
    {t u : Token} (same : t.lexeme = u.lexeme) {ts us : List Token}
    (tracks : Tracks Swaps ts us) :
    Agrees stops (Beside (Alike seen) Swaps)
      (readBeginningUnless stops r nested scope context t ts)
      (r.readBeginning wider outer other u us) := by
  have starts : r.dialect.starts u = r.dialect.starts t := by
    obtain ⟨range, rfl⟩ := Token.exists_eq_of_lexeme same
    rfl
  rw [readBeginningUnless, readBeginning, starts]
  cases ways : r.dialect.starts t with
  | nil => exact .errors _ _
  | cons start others =>
    refine agrees_firstSuccess fun chosen member => ?_
    rw [← ways] at member
    exact agrees_readStart swaps inner deep inside context other same tracks member

end

section

variable {stops : Diagnostic → Bool} {seen : Wrapper → Wrapper}
  {Swaps : List Token → List Token → Prop} {r : Reader}

/-- Whether what is read at swaps agrees if what is read inside agrees anywhere. -/
def AgreesAtSwaps (stops : Diagnostic → Bool) (seen : Wrapper → Wrapper)
    (Swaps : List Token → List Token → Prop) (r : Reader) : Prop :=
  ∀ levels room : Nat, levels < r.maxNesting → r.Below stops levels room →
    AgreesNested stops seen Swaps r (readStatementUnless stops r levels) (r.readStatement room) →
    ∀ scope outer : Scope, r.Below stops outer.depth scope.depth →
      ∀ context other t ts u us, Swaps (t :: ts) (u :: us) →
        Agrees stops (Beside (Alike seen) Swaps)
          (readStatementUnless stops r (levels + 1) scope context t ts)
          (r.readStatement (room + 1) outer other u us)

variable (inside : StopsInside stops) (swaps : r.InertSwaps Swaps)
  (atSwaps : AgreesAtSwaps stops seen Swaps r)

include inside swaps atSwaps

/-- If what is read at swaps agrees, so does what is read anywhere. -/
theorem agrees_readStatement {levels room : Nat} (most : levels ≤ r.maxNesting)
    (enough : r.Below stops levels room) :
    AgreesNested stops seen Swaps r (readStatementUnless stops r levels)
      (r.readStatement room) := by
  induction levels generalizing room with
  | zero =>
    intro scope outer deep context other t ts u us tracks
    obtain rfl | ⟨limits, _⟩ := enough
    · exact .errors _ _
    · exact .stopped (limits.nesting t.range) _
  | succ levels ih =>
    intro scope outer deep context other t ts u us tracks
    obtain ⟨room, rfl⟩ : ∃ fewer, room = fewer + 1 := by
      refine Nat.exists_eq_succ_of_ne_zero ?_
      obtain equal | ⟨_, below⟩ := enough <;> omega
    have less : r.Below stops levels room :=
      enough.imp Nat.succ.inj (And.imp_right Nat.le_of_succ_le_succ)
    have inner := ih (Nat.le_of_succ_le most) less
    cases tracks with
    | swap swap =>
      exact atSwaps levels room most less inner scope outer deep context other t ts u us swap
    | cons same later =>
      rw [readStatementUnless, readStatement]
      refine .bind (agrees_readBeginning swaps inner deep inside context other same later) ?_
      rintro ⟨beginning, rest⟩ ⟨begun, left⟩ ⟨alike, later⟩
      refine .bind (agrees_readBehind swaps inner deep context other alike later) ?_
      rintro ⟨statement, rest⟩ ⟨another, left⟩ given
      exact .ok given

theorem agrees_readStatements {text other : String}
    (tracks : Tracks Swaps (r.lexer.tokens text) (r.lexer.tokens other)) :
    Agrees stops (AllAlike seen) (readStatementsUnless stops r text) (r.readStatements other) := by
  have inner := agrees_readStatement inside swaps atSwaps (Nat.le_refl r.maxNesting) (.inl rfl)
  have deep : r.Below stops (Scope.depth ⟨other.utf8ByteSize, 0⟩)
      (Scope.depth ⟨text.utf8ByteSize, 0⟩) := .inl rfl
  rw [readStatementsUnless, readStatements]
  refine .bind (agrees_readSequence swaps inner deep .script .script closing_empty tracks) ?_
  rintro ⟨statements, rest⟩ ⟨others, left⟩ ⟨alike, _⟩
  exact .ok alike

end

/-! ### Tokens that are the same up to where they stand -/

/-- No tokens are swapped. -/
def NoSwaps (_ _ : List Token) : Prop := False

theorem inertSwaps_noSwaps (r : Reader) : r.InertSwaps NoSwaps := nofun

theorem agreesAtSwaps_noSwaps (stops : Diagnostic → Bool) (seen : Wrapper → Wrapper)
    (r : Reader) : AgreesAtSwaps stops seen NoSwaps r := by
  intro levels room _ _ _ scope outer _ context other t ts u us swap
  exact swap.elim

end Reader

end CubeScript
