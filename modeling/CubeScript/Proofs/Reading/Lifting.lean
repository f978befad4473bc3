import CubeScript.Reading.Statement

/-!
# Readers that agree on what they read

A reading function only passes on what the reader inside it gives. If that reader is replaced by
one that reads the same wherever the first one reads something, so is the outer reading. The same
holds if shorthands may be nested deeper. This is shown once for each function, and says nothing
about errors, which may well become readings.

Choosing among several ways to begin is the one place where errors matter: an attempt that fails
lets a later one succeed. `Reader.readStart` is a single attempt, and the lemmas stop there.
-/

namespace CubeScript

/-- Whether one outcome is that of another where that one is no error. -/
structure Lifts {α : Type} (a b : Except Diagnostic α) : Prop where
  ok : ∀ x, a = .ok x → b = .ok x

namespace Lifts

variable {α β : Type}

theorem refl (a : Except Diagnostic α) : Lifts a a := ⟨fun _ h => h⟩

theorem error (d : Diagnostic) (b : Except Diagnostic α) : Lifts (.error d) b := ⟨nofun⟩

theorem bind {a b : Except Diagnostic α} {f g : α → Except Diagnostic β} (first : Lifts a b)
    (second : ∀ x, Lifts (f x) (g x)) : Lifts (a >>= f) (b >>= g) := by
  refine ⟨fun y h => ?_⟩
  cases done : a with
  | error d =>
    rw [done] at h
    cases h
  | ok x =>
    rw [done] at h
    rw [first.ok x done]
    exact (second x).ok y h

/-- A decision that both make in the same way. -/
theorem ite {a b c d : Except Diagnostic α} {p q : Prop} [Decidable p] [Decidable q]
    (same : p ↔ q) (yes : p → Lifts a c) (no : ¬ p → Lifts b d) :
    Lifts (if p then a else b) (if q then c else d) := by
  by_cases h : p
  · rw [if_pos h, if_pos (same.1 h)]
    exact yes h
  · rw [if_neg h, if_neg fun hq => h (same.2 hq)]
    exact no h

end Lifts

namespace Reader

/-- The reader of the same language with other limits. -/
def withLimits (r : Reader) (depth nesting : Nat) : Reader :=
  { r with maxShorthandDepth := depth, maxNesting := nesting }

section

variable (r : Reader) (depth nesting : Nat)

@[simp] theorem dialect_withLimits : (r.withLimits depth nesting).dialect = r.dialect := rfl

@[simp] theorem lexer_withLimits : (r.withLimits depth nesting).lexer = r.lexer := rfl

@[simp] theorem delimitedBy_withLimits :
    (r.withLimits depth nesting).delimitedBy = r.delimitedBy := rfl

@[simp] theorem behind?_withLimits : (r.withLimits depth nesting).behind? = r.behind? := rfl

@[simp] theorem countsNext_withLimits :
    (r.withLimits depth nesting).countsNext = r.countsNext := rfl

end

/-- Whether one way to read the statements inside others is that of another wherever the other one
reads something. -/
def LiftsNested (nested wider : Nested) : Prop :=
  ∀ scope context t ts, Lifts (nested scope context t ts) (wider scope context t ts)

section

variable {nested wider : Nested} (inner : LiftsNested nested wider) (r : Reader)
  (depth nesting : Nat)

include inner

theorem lifts_readSequence (scope : Scope) (context : Diagnostic.Context) (stop : SymbolSet)
    (ts : List Token) : Lifts (r.readSequence nested scope context stop ts)
      ((r.withLimits depth nesting).readSequence wider scope context stop ts) := by
  fun_induction readSequence r nested scope context stop ts with
  | case1 =>
    rw [readSequence]
    exact .refl _
  | case2 t ts stops =>
    rw [readSequence, withLimits, if_pos stops]
    exact .refl _
  | case3 t ts goes ih =>
    rw [readSequence, withLimits, if_neg goes]
    refine .bind (inner scope context t ts) ?_
    rintro ⟨statement, rest⟩
    exact .bind (ih rest) fun _ => .refl _

theorem lifts_readOperand (scope : Scope) (operator : Range) (ts : List Token) :
    Lifts (readOperand nested scope operator ts) (readOperand wider scope operator ts) := by
  cases ts with
  | nil => exact .error _ _
  | cons t ts => exact .bind (inner scope .operand t ts) fun _ => .refl _

theorem lifts_readSecond (scope : Scope) (construct : Construct) (first : List Statement)
    (closed : Range) (ts : List Token) :
    Lifts (r.readSecond nested scope construct first closed ts)
      ((r.withLimits depth nesting).readSecond wider scope construct first closed ts) := by
  cases ts with
  | nil => exact .error _ _
  | cons t ts =>
    refine .ite Iff.rfl (fun _ => .error _ _) ?_
    intro _
    exact .bind (inner scope .operand t ts) fun _ => .refl _

theorem lifts_closeCompound (scope : Scope) (candidates : List Construct)
    (context : Diagnostic.Context) (opening : Token) (first : List Statement)
    (second : Option (List Statement)) (closing : Token) (ts : List Token) :
    Lifts (r.closeCompound nested scope candidates context opening first second closing ts)
      ((r.withLimits depth nesting).closeCompound wider scope candidates context opening first
        second closing ts) := by
  rw [closeCompound, closeCompound]
  refine .bind (.refl _) ?_
  intro construct
  split
  · exact .refl _
  · exact .refl _
  · exact .refl _
  · exact .refl _
  · exact lifts_readSecond inner r depth nesting ..

theorem lifts_readCompound (scope : Scope) (candidates : List Construct) (opening : Token)
    (ts : List Token) : Lifts (r.readCompound nested scope candidates opening ts)
      ((r.withLimits depth nesting).readCompound wider scope candidates opening ts) := by
  rw [readCompound, readCompound]
  refine .bind (lifts_readSequence inner r depth nesting ..) ?_
  rintro ⟨first, rest⟩
  obtain ⟨rest, before⟩ := rest
  cases rest with
  | nil => exact .error _ _
  | cons t left =>
    simp only [delimitedBy_withLimits]
    split
    · exact .bind (lifts_closeCompound inner r depth nesting ..) fun _ => .refl _
    · refine .bind (lifts_readSequence inner r depth nesting ..) ?_
      rintro ⟨second, rest⟩
      obtain ⟨rest, before⟩ := rest
      cases rest with
      | nil => exact .error _ _
      | cons t left => exact .bind (lifts_closeCompound inner r depth nesting ..) fun _ => .refl _

/-! ### Behind a statement -/

theorem lifts_readBracketBehind (scope : Scope) (candidates : List Construct) (first : Statement)
    (opening : Token) (ts : List Token) :
    Lifts (r.readBracketBehind nested scope candidates first opening ts)
      ((r.withLimits depth nesting).readBracketBehind wider scope candidates first opening ts) := by
  refine .bind (lifts_readSequence inner r depth nesting ..) ?_
  rintro ⟨second, rest⟩
  obtain ⟨rest, before⟩ := rest
  cases rest with
  | nil => exact .error _ _
  | cons t left =>
    exact .refl _

theorem lifts_readDelimiterBehind (scope : Scope) (candidates : List Construct)
    (first : Statement) (delimiter : Token) (ts : List Token) :
    Lifts (readDelimiterBehind nested scope candidates first delimiter ts)
      (readDelimiterBehind wider scope candidates first delimiter ts) := by
  cases candidates with
  | nil => exact .error _ _
  | cons construct others =>
    cases others with
    | nil => exact .bind (lifts_readOperand inner ..) fun _ => .refl _
    | cons other others => exact .error _ _

theorem lifts_extendBy (scope : Scope) (context : Diagnostic.Context) (statement : Statement)
    (t : Token) (ts : List Token) (behind : Behind) :
    Lifts (r.extendBy nested scope context statement t ts behind)
      ((r.withLimits depth nesting).extendBy wider scope context statement t ts behind) := by
  cases behind with
  | wrap w => exact .refl _
  | count => exact .refl _
  | countNext => exact .refl _
  | bracket candidates => exact lifts_readBracketBehind inner r depth nesting ..
  | delimiter candidates => exact lifts_readDelimiterBehind inner ..

theorem lifts_readBehind (scope : Scope) (context : Diagnostic.Context) (statement : Statement)
    (ts : List Token) : Lifts (r.readBehind nested scope context statement ts)
      ((r.withLimits depth nesting).readBehind wider scope context statement ts) := by
  rw [readBehind, readBehind]
  fun_induction readWhile (r.extend? nested scope context) statement ts with
  | case1 =>
    rw [readWhile]
    exact .refl _
  | case2 statement t ts ends =>
    rw [extend?, Option.map_eq_none_iff] at ends
    rw [readWhile, extend?, behind?_withLimits, ends]
    exact .refl _
  | case3 statement t ts reading goes ih =>
    rw [extend?, Option.map_eq_some_iff] at goes
    obtain ⟨behind, found, rfl⟩ := goes
    rw [readWhile, extend?, behind?_withLimits, found, Option.map_some]
    refine .bind (lifts_extendBy inner r depth nesting ..) ?_
    rintro ⟨next, rest⟩
    exact .bind (ih next rest) fun _ => .refl _

/-! ### At the beginning of a statement -/

theorem lifts_readShorthand (deeper : r.maxShorthandDepth ≤ depth) (scope : Scope)
    (context : Diagnostic.Context) (t : Token) (ts : List Token) :
    Lifts (r.readShorthand nested scope context t ts)
      ((r.withLimits depth nesting).readShorthand wider scope context t ts) := by
  simp only [readShorthand, dialect_withLimits, lexer_withLimits]
  split
  · exact .error _ _
  · rename_i text _
    by_cases tooDeep : r.maxShorthandDepth ≤ scope.depth
    · rw [if_pos tooDeep]
      exact .error _ _
    · have fits : ¬ (r.withLimits depth nesting).maxShorthandDepth ≤ scope.depth := by
        change ¬ depth ≤ scope.depth
        omega
      rw [if_neg tooDeep, if_neg fits]
      have body := lifts_readSequence inner r depth nesting ⟨text.utf8ByteSize, scope.depth + 1⟩
        .shorthand .empty (r.lexer.tokens text)
      split
      · exact .error _ _
      · rename_i result done
        rw [body.ok _ done]
        exact .refl _

theorem lifts_readWrapped (scope : Scope) (w : Wrapper) (operator : Range) (ts : List Token) :
    Lifts (readWrapped nested scope w operator ts) (readWrapped wider scope w operator ts) :=
  .bind (lifts_readOperand inner ..) fun _ => .refl _

theorem lifts_readRepeated (scope : Scope) (count : Nat) (range : Range) (ts : List Token) :
    Lifts (r.readRepeated nested scope count range ts)
      ((r.withLimits depth nesting).readRepeated wider scope count range ts) := by
  cases ts with
  | nil => exact .ite Iff.rfl (fun _ => lifts_readWrapped inner ..) fun _ => .error _ _
  | cons t ts =>
    refine .ite Iff.rfl (fun _ => ?_) fun _ => ?_
    · exact .bind (lifts_readWrapped inner ..) fun _ => .refl _
    · exact .ite Iff.rfl (fun _ => lifts_readWrapped inner ..) fun _ => .error _ _

end

/-! ### Cycles -/

/-- Reading a cycle has nothing to do with limits. -/
theorem readParts_withLimits (r : Reader) (depth nesting : Nat) (scope : Scope) (size : Size)
    (bracket : Token) (draft : CycleDraft) (ts : List Token) :
    (r.withLimits depth nesting).readParts scope size bracket draft ts =
      r.readParts scope size bracket draft ts := by
  induction ts generalizing draft with
  | nil => rfl
  | cons t ts ih =>
    have step : (r.withLimits depth nesting).extendCycle = r.extendCycle := rfl
    simp only [readParts, step, ih]

theorem readCycle_withLimits (r : Reader) (depth nesting : Nat) (scope : Scope)
    (sign : Option (Cycle.Sign × Range)) (bracket : Token) (ts : List Token) :
    (r.withLimits depth nesting).readCycle scope sign bracket ts =
      r.readCycle scope sign bracket ts := by
  have behind : (r.withLimits depth nesting).readSignBehind = r.readSignBehind := by
    funext draft stop ts
    cases ts <;> rfl
  simp only [readCycle, readParts_withLimits, behind, dialect_withLimits]

/-- One attempt at the beginning of a statement passes on what is read inside. -/
theorem lifts_readStart {r : Reader} {nested wider : Nested} {depth nesting : Nat}
    (inner : LiftsNested nested wider) (deeper : r.maxShorthandDepth ≤ depth) (scope : Scope)
    (context : Diagnostic.Context) (t : Token) (ts : List Token) (start : Start) :
    Lifts (r.readStart nested scope context t ts start)
      ((r.withLimits depth nesting).readStart wider scope context t ts start) := by
  cases start with
  | turn => exact .refl _
  | nop => exact .refl _
  | shorthand => exact lifts_readShorthand inner r depth nesting deeper ..
  | compound candidates => exact lifts_readCompound inner r depth nesting ..
  | cycle =>
    rw [readStart, readStart, readCycle_withLimits]
    exact .refl _
  | signedCycle =>
    simp only [readStart, readSignedCycle, readCycle_withLimits, dialect_withLimits]
    exact .refl _
  | inversion => exact lifts_readWrapped inner ..
  | reflection => exact lifts_readWrapped inner ..
  | repetition => exact .bind (.refl _) fun _ => lifts_readRepeated inner r depth nesting ..

end Reader

end CubeScript
