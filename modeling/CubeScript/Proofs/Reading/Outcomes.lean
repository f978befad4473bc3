import CubeScript.Reading.Statement

/-!
# When reading succeeds

A reading function succeeds with a value and the tokens left after it, or fails and says what is
wrong. For each of the functions one statement says what it takes to succeed, in terms of the
readings it is made of. They are equivalences, so what can be read is read off them, and so is what
reading gives. How far a diagnostic got or how it is worded is of no concern here.

The tokens that are left come with a proof that they are left of those before. `Reading.Gives` hides
the proof, so that statements are about plain lists.
-/

namespace CubeScript

theorem Except.bind_eq_ok_iff {ε α β : Type} {a : Except ε α} {f : α → Except ε β} {b : β} :
    (a >>= f) = .ok b ↔ ∃ x, a = .ok x ∧ f x = .ok b := by
  cases a with
  | error e => exact ⟨nofun, nofun⟩
  | ok x => exact ⟨fun h => ⟨x, rfl, h⟩, fun ⟨y, same, h⟩ => Except.ok.inj same ▸ h⟩

theorem Except.mapError_eq_ok_iff {ε ε' α : Type} {f : ε → ε'} {e : Except ε α} {a : α} :
    e.mapError f = .ok a ↔ e = .ok a := by
  constructor
  · intro same
    cases e <;> cases same
    rfl
  · rintro rfl
    rfl

theorem Except.isOk_iff {ε α : Type} {e : Except ε α} : e.isOk ↔ ∃ a, e = .ok a := by
  cases e with
  | error e => exact ⟨nofun, nofun⟩
  | ok a => exact ⟨fun _ => ⟨a, rfl⟩, fun _ => rfl⟩

namespace Reading

variable {α β : Type} {ts : List Token}

/-- Whether a reading gives a value and leaves some tokens. -/
def Gives (reading : Reading α ts) (a : α) (rest : List Token) : Prop :=
  ∃ h : rest <:+ ts, reading = .ok (a, ⟨rest, h⟩)

theorem Gives.suffix {reading : Reading α ts} {a : α} {rest : List Token}
    (given : Gives reading a rest) : rest <:+ ts :=
  given.1

/-- A reading gives one thing. -/
theorem Gives.unique {reading : Reading α ts} {a b : α} {rest left : List Token}
    (given : Gives reading a rest) (other : Gives reading b left) : a = b ∧ rest = left := by
  obtain ⟨_, first⟩ := given
  obtain ⟨_, second⟩ := other
  cases first.symm.trans second
  exact ⟨rfl, rfl⟩

theorem eq_ok_iff {reading : Reading α ts} {a : α} {rest : Suffix ts} :
    reading = .ok (a, rest) ↔ Gives reading a rest.1 :=
  ⟨fun h => ⟨rest.2, h⟩, fun ⟨_, h⟩ => h⟩

@[simp] theorem not_gives_error (d : Diagnostic) (a : α) (rest : List Token) :
    ¬ Gives (.error d : Reading α ts) a rest := fun ⟨_, h⟩ => nomatch h

@[simp] theorem gives_ok_iff {b : α} {left : Suffix ts} {a : α} {rest : List Token} :
    Gives (.ok (b, left)) a rest ↔ a = b ∧ rest = left.1 := by
  constructor
  · rintro ⟨_, h⟩
    cases h
    exact ⟨rfl, rfl⟩
  · rintro ⟨rfl, rfl⟩
    exact ⟨left.2, rfl⟩

@[simp] theorem gives_pure_iff {b : α} {left : Suffix ts} {a : α} {rest : List Token} :
    Gives (pure (b, left)) a rest ↔ a = b ∧ rest = left.1 :=
  gives_ok_iff

theorem gives_bind_iff {us : List Token} {first : Reading α us}
    {next : α × Suffix us → Reading β ts} {b : β} {rest : List Token} :
    Gives (first >>= next) b rest ↔
      ∃ a left, ∃ h : Gives first a left, Gives (next (a, ⟨left, h.1⟩)) b rest := by
  constructor
  · rintro ⟨h, done⟩
    obtain ⟨⟨a, left, hleft⟩, read, went⟩ := Except.bind_eq_ok_iff.1 done
    exact ⟨a, left, ⟨hleft, read⟩, h, went⟩
  · rintro ⟨a, left, ⟨hleft, read⟩, h, went⟩
    exact ⟨h, Except.bind_eq_ok_iff.2 ⟨_, read, went⟩⟩

/-- A check that comes before a reading has to succeed. -/
theorem gives_check_iff {check : Except Diagnostic α} {next : α → Reading β ts} {b : β}
    {rest : List Token} :
    Gives (check >>= next) b rest ↔ ∃ a, check = .ok a ∧ Gives (next a) b rest := by
  constructor
  · rintro ⟨h, done⟩
    obtain ⟨a, checked, went⟩ := Except.bind_eq_ok_iff.1 done
    exact ⟨a, checked, h, went⟩
  · rintro ⟨a, checked, h, went⟩
    exact ⟨h, Except.bind_eq_ok_iff.2 ⟨a, checked, went⟩⟩

end Reading

namespace Reader

open Reading

variable {r : Reader} {nested : Nested} {scope : Scope} {context : Diagnostic.Context}
  {rest : List Token}

/-! ### Sequences and operands -/

theorem gives_readSequence_nil {stop : SymbolSet} {statements : List Statement} :
    Gives (r.readSequence nested scope context stop []) statements rest ↔
      statements = [] ∧ rest = [] := by
  rw [readSequence]
  exact gives_ok_iff

theorem gives_readSequence_cons {stop : SymbolSet} {t : Token} {ts : List Token}
    {statements : List Statement} :
    Gives (r.readSequence nested scope context stop (t :: ts)) statements rest ↔
      if (r.dialect.symbolsOf t).intersects stop then statements = [] ∧ rest = t :: ts
      else ∃ statement middle later, Gives (nested scope context t ts) statement middle ∧
        Gives (r.readSequence nested scope context stop middle) later rest ∧
        statements = statement :: later := by
  rw [readSequence]
  split
  · exact gives_ok_iff
  · simp only [gives_bind_iff, gives_pure_iff]
    constructor
    · rintro ⟨statement, middle, first, later, left, second, rfl, rfl⟩
      exact ⟨statement, middle, later, first, second, rfl⟩
    · rintro ⟨statement, middle, later, first, second, rfl⟩
      exact ⟨statement, middle, first, later, rest, second, rfl, rfl⟩

theorem gives_readOperand {operator : Range} {ts : List Token} {statement : Statement} :
    Gives (readOperand nested scope operator ts) statement rest ↔
      ∃ t us, ts = t :: us ∧ Gives (nested scope .operand t us) statement rest := by
  cases ts with
  | nil => simp [readOperand]
  | cons t us =>
    simp only [readOperand, gives_bind_iff, gives_pure_iff]
    constructor
    · rintro ⟨operand, left, given, rfl, rfl⟩
      exact ⟨t, us, rfl, given⟩
    · rintro ⟨_, _, same, given⟩
      cases same
      exact ⟨statement, rest, given, rfl, rfl⟩

/-! ### Brackets -/

theorem oneLeft_eq_ok_iff {candidates : List Construct} {closing : Token} {range : Range}
    {construct : Construct} :
    oneLeft candidates context closing range = .ok construct ↔ candidates = [construct] := by
  match candidates with
  | [] => simp [oneLeft]
  | [c] => simp [oneLeft]
  | _ :: _ :: _ => simp [oneLeft]

theorem gives_readSecond {construct : Construct} {first : List Statement} {closed : Range}
    {ts : List Token} {statement : Statement} :
    Gives (r.readSecond nested scope construct first closed ts) statement rest ↔
      ∃ t us second, ts = t :: us ∧ ¬ (r.dialect.symbolsOf t).intersects allClosings ∧
        Gives (nested scope .operand t us) second rest ∧
        statement =
          .paired construct.pairing first [second] (closed.cover second.range) := by
  cases ts with
  | nil => simp [readSecond]
  | cons t us =>
    simp only [readSecond]
    split
    · rename_i closes
      simp only [not_gives_error, false_iff]
      rintro ⟨_, _, _, same, open_, _⟩
      cases same
      exact open_ closes
    · rename_i goes
      simp only [gives_bind_iff, gives_pure_iff]
      constructor
      · rintro ⟨second, left, given, rfl, rfl⟩
        exact ⟨t, us, second, rfl, goes, given, rfl⟩
      · rintro ⟨_, _, second, same, _, given, rfl⟩
        cases same
        exact ⟨second, rest, given, rfl, rfl⟩

/-- What a construct makes of what stands between its brackets. One with two operands that has only
read the first goes on behind them. -/
def Closes (r : Reader) (nested : Nested) (scope : Scope) (closed : Range)
    (first : List Statement) (second : Option (List Statement)) (ts : List Token)
    (statement : Statement) (rest : List Token) (construct : Construct) : Prop :=
  match construct, second with
  | .grouping, none => statement = .wrapped .grouping first closed ∧ rest = ts
  | .inversion, none => statement = .wrapped .inversion first closed ∧ rest = ts
  | .reflection, none => statement = .wrapped .reflection first closed ∧ rest = ts
  | construct, some second =>
    statement = .paired construct.pairing first second closed ∧ rest = ts
  | construct, none => Gives (r.readSecond nested scope construct first closed ts) statement rest

theorem gives_closeCompound {candidates : List Construct} {opening : Token}
    {first : List Statement} {second : Option (List Statement)} {closing : Token}
    {ts : List Token} {statement : Statement} :
    Gives (r.closeCompound nested scope candidates context opening first second closing ts)
        statement rest ↔
      ∃ construct, r.closedBy closing second.isSome candidates = [construct] ∧
        Closes r nested scope ⟨opening.range.start, closing.range.stop⟩ first second ts statement
          rest construct := by
  simp only [closeCompound, gives_check_iff, oneLeft_eq_ok_iff]
  refine exists_congr fun construct => and_congr_right ?_
  intro _
  unfold Closes
  cases construct <;> cases second <;> first | exact gives_pure_iff | rfl

theorem gives_readCompound {candidates : List Construct} {opening : Token} {ts : List Token}
    {statement : Statement} :
    Gives (r.readCompound nested scope candidates opening ts) statement rest ↔
      ∃ first t left, Gives (r.readSequence nested scope (.ofCandidates candidates)
          (r.firstStops candidates) ts) first (t :: left) ∧
        if r.delimitedBy t candidates = [] then
          Gives (r.closeCompound nested scope candidates (.ofCandidates candidates) opening first
            none t left) statement rest
        else
          ∃ second u right, Gives (r.readSequence nested scope
              (.ofCandidates (r.delimitedBy t candidates))
              (closings (r.delimitedBy t candidates)) left) second (u :: right) ∧
            Gives (r.closeCompound nested scope (r.delimitedBy t candidates)
              (.ofCandidates candidates) opening first (some second) u right) statement rest := by
  simp only [readCompound, gives_bind_iff]
  constructor
  · rintro ⟨first, left, given, went⟩
    match left with
    | [] => exact absurd went (not_gives_error _ _ _)
    | t :: left =>
      refine ⟨first, t, left, given, ?_⟩
      dsimp only at went
      split at went
      · rename_i single
        rw [if_pos single]
        obtain ⟨_, _, closed, same⟩ := gives_bind_iff.1 went
        obtain ⟨rfl, rfl⟩ := gives_pure_iff.1 same
        exact closed
      · rename_i delimited
        rw [if_neg delimited]
        obtain ⟨second, right, other, went⟩ := gives_bind_iff.1 went
        match right with
        | [] => exact absurd went (not_gives_error _ _ _)
        | u :: right =>
          obtain ⟨_, _, closed, same⟩ := gives_bind_iff.1 went
          obtain ⟨rfl, rfl⟩ := gives_pure_iff.1 same
          exact ⟨second, u, right, other, closed⟩
  · rintro ⟨first, t, left, given, went⟩
    refine ⟨first, t :: left, given, ?_⟩
    dsimp only
    split
    · rename_i single
      rw [if_pos single] at went
      exact gives_bind_iff.2 ⟨_, _, went, gives_pure_iff.2 ⟨rfl, rfl⟩⟩
    · rename_i delimited
      rw [if_neg delimited] at went
      obtain ⟨second, u, right, other, closed⟩ := went
      refine gives_bind_iff.2 ⟨second, u :: right, other, ?_⟩
      exact gives_bind_iff.2 ⟨_, _, closed, gives_pure_iff.2 ⟨rfl, rfl⟩⟩

/-! ### Behind a statement -/

theorem repeatCount_eq_ok_iff {t : Token} {count : Nat} :
    repeatCount t = .ok count ↔ t.number? = some count := by
  rw [repeatCount]
  cases t.number? <;> simp

theorem gives_readCountBehind {ts : List Token} {result : Nat × Token} :
    Gives (readCountBehind scope context ts) result rest ↔
      ∃ t count, ts = t :: rest ∧ t.number? = some count ∧ result = (count, t) := by
  cases ts with
  | nil => simp [readCountBehind]
  | cons t us =>
    rw [readCountBehind]
    split
    · rename_i other
      simp only [not_gives_error, false_iff]
      rintro ⟨_, _, same, number, _⟩
      cases same
      simp [Token.number?, other] at number
    · simp only [gives_check_iff, repeatCount_eq_ok_iff, gives_pure_iff]
      constructor
      · rintro ⟨count, number, rfl, rfl⟩
        exact ⟨t, count, rfl, number, rfl⟩
      · rintro ⟨_, count, same, number, rfl⟩
        cases same
        exact ⟨count, number, rfl, rfl⟩

theorem gives_readBracketBehind {candidates : List Construct} {first : Statement}
    {opening : Token} {ts : List Token} {statement : Statement} :
    Gives (r.readBracketBehind nested scope candidates first opening ts) statement rest ↔
      ∃ second t construct, Gives (r.readSequence nested scope (.ofCandidates candidates)
          (closings candidates) ts) second (t :: rest) ∧
        candidates.filter (fun c => has (r.dialect.symbolsOf t) c.end?) = [construct] ∧
        statement =
          .paired construct.pairing [first] second ⟨first.range.start, t.range.stop⟩ := by
  simp only [readBracketBehind, gives_bind_iff]
  constructor
  · rintro ⟨second, left, given, went⟩
    match left with
    | [] => exact absurd went (not_gives_error _ _ _)
    | t :: left =>
      obtain ⟨construct, one, same⟩ := gives_check_iff.1 went
      obtain ⟨rfl, rfl⟩ := gives_pure_iff.1 same
      exact ⟨second, t, construct, given, oneLeft_eq_ok_iff.1 one, rfl⟩
  · rintro ⟨second, t, construct, given, one, rfl⟩
    refine ⟨second, t :: rest, given, gives_check_iff.2 ⟨construct, ?_, ?_⟩⟩
    · exact oneLeft_eq_ok_iff.2 one
    · exact gives_pure_iff.2 ⟨rfl, rfl⟩

theorem gives_readDelimiterBehind {candidates : List Construct} {first : Statement}
    {delimiter : Token} {ts : List Token} {statement : Statement} :
    Gives (readDelimiterBehind nested scope candidates first delimiter ts) statement rest ↔
      ∃ construct t us second, candidates = [construct] ∧ ts = t :: us ∧
        Gives (nested scope .operand t us) second rest ∧
        statement = .paired construct.pairing [first] [second]
          ((⟨first.range.start, delimiter.range.stop⟩ : Range).cover second.range) := by
  match candidates with
  | [construct] =>
    simp only [readDelimiterBehind, gives_bind_iff, gives_pure_iff, gives_readOperand]
    constructor
    · rintro ⟨second, left, ⟨t, us, rfl, given⟩, rfl, rfl⟩
      exact ⟨construct, t, us, second, rfl, rfl, given, rfl⟩
    · rintro ⟨_, t, us, second, same, rfl, given, rfl⟩
      cases same
      exact ⟨second, rest, ⟨t, us, rfl, given⟩, rfl, rfl⟩
  | [] =>
    refine iff_of_false (not_gives_error _ _ _) ?_
    rintro ⟨_, _, _, _, same, _⟩
    cases same
  | _ :: _ :: _ =>
    refine iff_of_false (not_gives_error _ _ _) ?_
    rintro ⟨_, _, _, _, same, _⟩
    cases same

theorem gives_readBehind_nil {statement result : Statement} :
    Gives (r.readBehind nested scope context statement []) result rest ↔
      result = statement ∧ rest = [] := by
  rw [readBehind, readWhile]
  exact gives_ok_iff

theorem gives_readBehind_cons {statement result : Statement} {t : Token} {ts : List Token} :
    Gives (r.readBehind nested scope context statement (t :: ts)) result rest ↔
      match r.behind? t (scope.peek ts) with
      | none => result = statement ∧ rest = t :: ts
      | some behind => ∃ larger middle,
          Gives (r.extendBy nested scope context statement t ts behind) larger middle ∧
          Gives (r.readBehind nested scope context larger middle) result rest := by
  rw [readBehind, readWhile]
  unfold extend?
  cases r.behind? t (scope.peek ts) with
  | none => exact gives_ok_iff
  | some behind =>
    simp only [Option.map_some, gives_bind_iff, gives_pure_iff]
    constructor
    · rintro ⟨larger, middle, grown, _, _, went, rfl, rfl⟩
      exact ⟨larger, middle, grown, went⟩
    · rintro ⟨larger, middle, grown, went⟩
      exact ⟨larger, middle, grown, result, rest, went, rfl, rfl⟩

/-! ### Cycles -/

theorem gives_readParts_nil {size : Size} {bracket : Token} {draft : CycleDraft}
    {result : CycleDraft × Nat} :
    ¬ Gives (r.readParts scope size bracket draft []) result rest :=
  not_gives_error _ _ _

theorem gives_readParts_cons {size : Size} {bracket : Token} {draft : CycleDraft} {t : Token}
    {ts : List Token} {result : CycleDraft × Nat} :
    Gives (r.readParts scope size bracket draft (t :: ts)) result rest ↔
      ∃ next ended, r.extendCycle size draft t (scope.peek ts) = .ok (next, ended) ∧
        if ended then result = (next, t.range.stop) ∧ rest = ts
        else Gives (r.readParts scope size bracket next ts) result rest := by
  simp only [readParts, gives_check_iff, Prod.exists]
  refine exists_congr fun next => exists_congr fun ended => and_congr_right ?_
  intro _
  cases ended with
  | true => exact gives_pure_iff
  | false =>
    simp only [Bool.false_eq_true, if_false, gives_bind_iff, gives_pure_iff]
    constructor
    · rintro ⟨_, _, given, rfl, rfl⟩
      exact given
    · exact fun given => ⟨result, rest, given, rfl, rfl⟩

/-- Where a cycle starts, at its bracket or at the sign before it. -/
def cycleStart (sign : Option (Cycle.Sign × Range)) (bracket : Token) : Nat :=
  match sign with
  | some (_, range) => range.start
  | none => bracket.range.start

theorem gives_readCycle {sign : Option (Cycle.Sign × Range)} {bracket : Token} {ts : List Token}
    {statement : Statement} :
    Gives (r.readCycle scope sign bracket ts) statement rest ↔
      ∃ size draft stop middle final cycle, Size.ofNat? r.dialect.layers = .ok size ∧
        Gives (r.readParts scope size bracket { sign, stop := bracket.range.stop } ts)
          (draft, stop) middle ∧
        (r.readSignBehind draft stop middle).1 = final ∧
        (r.readSignBehind draft stop middle).2.1 = rest ∧
        makeCycle final.1 ⟨cycleStart sign bracket, final.2⟩ = .ok cycle ∧
        statement = .atom (.cycle cycle) ⟨cycleStart sign bracket, final.2⟩ := by
  simp only [readCycle]
  cases Size.ofNat? r.dialect.layers with
  | error fault => simp
  | ok size =>
    dsimp only
    rw [gives_bind_iff]
    constructor
    · rintro ⟨⟨draft, stop⟩, middle, given, went⟩
      obtain ⟨cycle, made, same⟩ := gives_check_iff.1 went
      obtain ⟨rfl, rfl⟩ := gives_pure_iff.1 same
      exact ⟨size, draft, stop, middle, _, cycle, rfl, given, rfl, rfl, made, rfl⟩
    · rintro ⟨_, draft, stop, middle, _, cycle, same, given, rfl, rfl, made, rfl⟩
      cases same
      exact ⟨(draft, stop), middle, given,
        gives_check_iff.2 ⟨cycle, made, gives_pure_iff.2 ⟨rfl, rfl⟩⟩⟩

/-- No sign is read behind a cycle where none may stand there. -/
theorem readSignBehind_of_not_accepts (unsigned : r.dialect.accepts .permutation .after = false)
    (draft : CycleDraft) (stop : Nat) (ts : List Token) :
    r.readSignBehind draft stop ts = ((draft, stop), .all ts) := by
  cases ts with
  | nil => rfl
  | cons t ts =>
    rw [readSignBehind, unsigned]
    cases (r.dialect.symbolsOf t).sign? with
    | none => rfl
    | some sign => rw [Bool.and_false]; rfl

/-! ### At the beginning of a statement -/

theorem gives_readShorthand {t : Token} {ts : List Token} {statement : Statement} :
    Gives (r.readShorthand nested scope context t ts) statement rest ↔
      ∃ text body left, r.dialect.expansion? t.text = some text ∧
        scope.depth < r.maxShorthandDepth ∧
        Gives (r.readSequence nested ⟨text.utf8ByteSize, scope.depth + 1⟩ .shorthand .empty
          (r.lexer.tokens text)) body left ∧
        statement = .wrapped (.shorthand t.text) body t.range ∧ rest = ts := by
  rw [readShorthand]
  cases r.dialect.expansion? t.text with
  | none => simp
  | some text =>
    dsimp only
    split
    · rename_i tooDeep
      refine iff_of_false (not_gives_error _ _ _) ?_
      rintro ⟨_, _, _, _, fits, _⟩
      omega
    · rename_i fits
      split
      · rename_i cause failed
        refine iff_of_false (not_gives_error _ _ _) ?_
        rintro ⟨_, _, _, same, _, ⟨_, given⟩, _⟩
        cases same
        rw [failed] at given
        cases given
      · rename_i body left read
        rw [gives_ok_iff]
        constructor
        · rintro ⟨rfl, rfl⟩
          exact ⟨text, body, left.1, rfl, by omega, ⟨left.2, read⟩, rfl, rfl⟩
        · rintro ⟨_, _, _, same, _, ⟨_, given⟩, rfl, rfl⟩
          cases same
          rw [read] at given
          cases given
          exact ⟨rfl, rfl⟩

theorem gives_readSignedCycle {t : Token} {ts : List Token} {statement : Statement} :
    Gives (r.readSignedCycle scope t ts) statement rest ↔
      ∃ bracket us, ts = bracket :: us ∧
        (r.dialect.symbolsOf bracket).contains .permutationBegin ∧
        Gives (r.readCycle scope
          (some ((r.dialect.symbolsOf t).sign?.getD .none, t.range)) bracket us)
          statement rest := by
  cases ts with
  | nil => simp [readSignedCycle]
  | cons bracket us =>
    simp only [readSignedCycle]
    split
    · rename_i opens
      simp only [gives_bind_iff, gives_pure_iff]
      constructor
      · rintro ⟨_, _, given, rfl, rfl⟩
        exact ⟨bracket, us, rfl, opens, given⟩
      · rintro ⟨_, _, same, _, given⟩
        cases same
        exact ⟨statement, rest, given, rfl, rfl⟩
    · rename_i other
      simp only [not_gives_error, false_iff]
      rintro ⟨_, _, same, opens, _⟩
      cases same
      exact other opens

theorem gives_readWrapped {w : Wrapper} {operator : Range} {ts : List Token}
    {statement : Statement} :
    Gives (readWrapped nested scope w operator ts) statement rest ↔
      ∃ t us operand, ts = t :: us ∧ Gives (nested scope .operand t us) operand rest ∧
        statement = .wrapped w [operand] (operator.cover operand.range) := by
  simp only [readWrapped, gives_bind_iff, gives_pure_iff, gives_readOperand]
  constructor
  · rintro ⟨operand, _, ⟨t, us, rfl, given⟩, rfl, rfl⟩
    exact ⟨t, us, operand, rfl, given, rfl⟩
  · rintro ⟨t, us, operand, rfl, given, rfl⟩
    exact ⟨operand, rest, ⟨t, us, rfl, given⟩, rfl, rfl⟩

/-- The tokens behind a count and the operator that may have to follow it. -/
theorem gives_readRepeated {count : Nat} {range : Range} {ts : List Token}
    {statement : Statement} :
    Gives (r.readRepeated nested scope count range ts) statement rest ↔
      ∃ us, ((∃ t, ts = t :: us ∧ r.countsNext t) ∨
          (ts = us ∧ r.dialect.accepts .repetition .before ∧ ∀ t ∈ ts.head?, ¬ r.countsNext t)) ∧
        Gives (readWrapped nested scope (.repetition count) range us) statement rest := by
  cases ts with
  | nil =>
    simp only [readRepeated]
    split
    · rename_i before
      constructor
      · exact fun given => ⟨[], .inr ⟨rfl, before, by simp⟩, given⟩
      · rintro ⟨us, ⟨_, same, _⟩ | ⟨rfl, _⟩, given⟩
        · cases same
        · exact given
    · rename_i before
      simp [before]
  | cons t us =>
    simp only [readRepeated]
    split
    · rename_i counts
      simp only [gives_bind_iff, gives_pure_iff]
      constructor
      · rintro ⟨_, _, given, rfl, rfl⟩
        exact ⟨us, .inl ⟨t, rfl, counts⟩, given⟩
      · rintro ⟨_, ⟨_, same, _⟩ | ⟨_, _, none⟩, given⟩
        · cases same
          exact ⟨statement, rest, given, rfl, rfl⟩
        · exact absurd counts (none t rfl)
    · rename_i counts
      split
      · rename_i before
        constructor
        · refine fun given => ⟨t :: us, .inr ⟨rfl, before, ?_⟩, given⟩
          rintro _ ⟨⟩
          exact counts
        · rintro ⟨_, ⟨_, same, yes⟩ | ⟨rfl, _⟩, given⟩
          · cases same
            exact absurd yes counts
          · exact given
      · rename_i before
        simp [before, counts]

theorem firstSuccess_eq_ok_iff {α β : Type} {attempt : α → Except Diagnostic β} {a : α}
    {others : List α} {b : β} :
    firstSuccess attempt a others = .ok b ↔ ∃ earlier chosen later,
      a :: others = earlier ++ chosen :: later ∧ attempt chosen = .ok b ∧
        ∀ other ∈ earlier, ∀ x, attempt other ≠ .ok x := by
  induction others generalizing a with
  | nil =>
    rw [firstSuccess]
    constructor
    · exact fun done => ⟨[], a, [], rfl, done, by simp⟩
    · rintro ⟨earlier, chosen, later, same, done, _⟩
      cases earlier with
      | nil =>
        cases same
        exact done
      | cons other earlier => cases earlier <;> cases same
  | cons c others ih =>
    rw [firstSuccess]
    cases first : attempt a with
    | ok x =>
      constructor
      · rintro ⟨⟩
        exact ⟨[], a, c :: others, rfl, first, by simp⟩
      · rintro ⟨earlier, chosen, later, same, done, failed⟩
        cases earlier with
        | nil =>
          cases same
          exact first.symm.trans done
        | cons other earlier =>
          obtain ⟨rfl, _⟩ := List.cons.inj same
          exact absurd first (failed a List.mem_cons_self x)
    | error d =>
      dsimp only
      rw [Except.mapError_eq_ok_iff, ih]
      constructor
      · rintro ⟨earlier, chosen, later, same, done, failed⟩
        refine ⟨a :: earlier, chosen, later, by rw [same]; rfl, done, ?_⟩
        rintro other member x
        obtain rfl | member := List.mem_cons.1 member
        · intro same
          rw [first] at same
          cases same
        · exact failed other member x
      · rintro ⟨earlier, chosen, later, same, done, failed⟩
        cases earlier with
        | nil =>
          cases same
          rw [first] at done
          cases done
        | cons other earlier =>
          exact ⟨earlier, chosen, later, (List.cons.inj same).2, done,
            fun other member => failed other (List.mem_cons_of_mem _ member)⟩

theorem gives_readBeginning {t : Token} {ts : List Token} {statement : Statement} :
    Gives (r.readBeginning nested scope context t ts) statement rest ↔
      ∃ earlier start later, r.dialect.starts t = earlier ++ start :: later ∧
        Gives (r.readStart nested scope context t ts start) statement rest ∧
        ∀ other ∈ earlier, ∀ s left,
          ¬ Gives (r.readStart nested scope context t ts other) s left := by
  rw [readBeginning]
  cases starts : r.dialect.starts t with
  | nil => simp
  | cons start others =>
    constructor
    · rintro ⟨h, done⟩
      obtain ⟨earlier, chosen, later, same, read, failed⟩ := firstSuccess_eq_ok_iff.1 done
      exact ⟨earlier, chosen, later, same, ⟨h, read⟩,
        fun other member s left ⟨_, given⟩ => failed other member _ given⟩
    · rintro ⟨earlier, chosen, later, same, ⟨h, read⟩, failed⟩
      refine ⟨h, firstSuccess_eq_ok_iff.2 ⟨earlier, chosen, later, same, read, ?_⟩⟩
      exact fun other member x given => failed other member _ _ (eq_ok_iff.1 given)

theorem gives_readStatement_zero {t : Token} {ts : List Token} {statement : Statement} :
    ¬ Gives (r.readStatement 0 scope context t ts) statement rest :=
  not_gives_error _ _ _

theorem gives_readStatement_succ {levels : Nat} {t : Token} {ts : List Token}
    {statement : Statement} :
    Gives (r.readStatement (levels + 1) scope context t ts) statement rest ↔
      ∃ beginning middle,
        Gives (r.readBeginning (r.readStatement levels) scope context t ts) beginning middle ∧
        Gives (r.readBehind (r.readStatement levels) scope context beginning middle) statement
          rest := by
  simp only [readStatement, gives_bind_iff, gives_pure_iff]
  constructor
  · rintro ⟨beginning, middle, begun, _, _, went, rfl, rfl⟩
    exact ⟨beginning, middle, begun, went⟩
  · rintro ⟨beginning, middle, begun, went⟩
    exact ⟨beginning, middle, begun, statement, rest, went, rfl, rfl⟩

theorem readStatements_eq_ok_iff {text : String} {statements : List Statement} :
    r.readStatements text = .ok statements ↔ ∃ left,
      Gives (r.readSequence (r.readStatement r.maxNesting) ⟨text.utf8ByteSize, 0⟩ .script .empty
        (r.lexer.tokens text)) statements left := by
  rw [readStatements]
  simp only [Except.bind_eq_ok_iff]
  constructor
  · rintro ⟨⟨_, left⟩, given, same⟩
    cases same
    exact ⟨left.1, left.2, given⟩
  · rintro ⟨left, h, given⟩
    exact ⟨_, given, rfl⟩

/-- A script is read exactly if its statements are. -/
theorem read_eq_ok_iff {text : String} {script : Script} :
    r.read text = .ok script ↔ ∃ statements, r.readStatements text = .ok statements ∧
      script = .ofStatements statements text.utf8ByteSize r.dialect.layers := by
  rw [read, Except.bind_eq_ok_iff]
  exact exists_congr fun statements => and_congr_right fun _ =>
    ⟨fun h => (Except.ok.inj h).symm, fun h => h ▸ rfl⟩

end Reader

end CubeScript
