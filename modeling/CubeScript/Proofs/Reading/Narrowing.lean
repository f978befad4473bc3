import CubeScript.Proofs.Reading.Outcomes

/-!
# Brackets are not guessed

Brackets may belong to several constructs, and so may delimiters. A construct fits an opening
bracket, a delimiter or none, and a closing bracket if it has them all and may be written in this
way (`Dialect.Fits`). Readers take the candidates in at the opening bracket and narrow them down
at the delimiter and at the closing bracket. What is left are the constructs that fit the three
(`Reader.mem_closedBy_separated_iff`), so that a statement is only read where one construct fits.
This holds for all dialects, whatever their tokens mean, and for all ways to read the statements
inside.
-/

namespace CubeScript

/-- Whether a construct fits brackets with a delimiter between its operands, or with none. Without
one, it encloses its only operand or the first of two. -/
def Dialect.Fits (d : Dialect) (opening : Token) (delimiter : Option Token) (closing : Token)
    (c : Construct) : Prop :=
  c ∈ Construct.compounds ∧ Reader.has (d.symbolsOf opening) c.begin? ∧
    Reader.has (d.symbolsOf closing) c.end? ∧
    match delimiter with
    | some t => c.isBinary ∧ d.accepts c .around ∧ Reader.has (d.symbolsOf t) c.delimiter?
    | none => ¬ c.isBinary ∧ d.accepts c .around ∨ c.isBinary ∧ d.accepts c .aroundFirst

instance (d : Dialect) (opening closing : Token) (c : Construct) :
    (delimiter : Option Token) → Decidable (d.Fits opening delimiter closing c)
  | none => inferInstanceAs (Decidable (_ ∧ _ ∧ _ ∧ (¬ _ ∧ _ ∨ _ ∧ _)))
  | some _ => inferInstanceAs (Decidable (_ ∧ _ ∧ _ ∧ _ ∧ _ ∧ _))

/-- The construct that a statement is. -/
def Statement.construct? : Statement → Option Construct
  | .wrapped .grouping _ _ => some .grouping
  | .wrapped .inversion _ _ => some .inversion
  | .wrapped .reflection _ _ => some .reflection
  | .wrapped (.repetition _) _ _ => some .repetition
  | .paired .commutation _ _ _ => some .commutation
  | .paired .conjugation _ _ _ => some .conjugation
  | .paired .rotation _ _ _ => some .rotation
  | .atom (.cycle _) _ => some .permutation
  | _ => none

theorem Construct.nodup_compounds : compounds.Nodup := by decide

namespace Reader

open Reading Diagnostic

/-- The candidates of an opening bracket that are left at a delimiter, if there is one. -/
def separated (r : Reader) (opening : Token) : Option Token → List Construct
  | none => r.dialect.opened opening
  | some t => r.delimitedBy t (r.dialect.opened opening)

/-- Whether some tokens behind an opening bracket go on to a closing bracket and to the tokens
behind it, across a delimiter or not. Both operands are lists of statements, the first of which
ends at the first token that may close or separate what the bracket opens. -/
inductive Reaches (r : Reader) (nested : Nested) (scope : Scope) (opening : Token)
    (ts : List Token) : Option Token → Token → List Token → Prop where
  | one {first : List Statement} {closing : Token} {left : List Token}
    (read : Gives (r.readSequence nested scope (.ofCandidates (r.dialect.opened opening))
      (r.firstStops (r.dialect.opened opening)) ts) first (closing :: left))
    (unseparated : r.separated opening (some closing) = []) :
    Reaches r nested scope opening ts none closing left
  | two {first second : List Statement} {delimiter closing : Token} {middle left : List Token}
    (read : Gives (r.readSequence nested scope (.ofCandidates (r.dialect.opened opening))
      (r.firstStops (r.dialect.opened opening)) ts) first (delimiter :: middle))
    (separated : r.separated opening (some delimiter) ≠ [])
    (readNext : Gives (r.readSequence nested scope
      (.ofCandidates (r.separated opening (some delimiter)))
      (closings (r.separated opening (some delimiter))) middle) second (closing :: left)) :
    Reaches r nested scope opening ts (some delimiter) closing left

variable {r : Reader} {nested : Nested} {scope : Scope} {context : Context}
  {opening closing : Token} {delimiter : Option Token} {ts left rest : List Token}
  {statement : Statement} {construct : Construct}

/-! ### What is left of the candidates -/

theorem mem_opened_iff : construct ∈ r.dialect.opened opening ↔
    construct ∈ Construct.compounds ∧ has (r.dialect.symbolsOf opening) construct.begin? ∧
      (r.dialect.accepts construct .around ∨
        construct.isBinary ∧ r.dialect.accepts construct .aroundFirst) := by
  rw [Dialect.opened, List.mem_filter, Bool.and_eq_true, Bool.or_eq_true, Bool.and_eq_true]

theorem mem_delimitedBy_iff {t : Token} {candidates : List Construct} :
    construct ∈ r.delimitedBy t candidates ↔ construct ∈ candidates ∧
      construct.isBinary ∧ r.dialect.accepts construct .around ∧
        has (r.dialect.symbolsOf t) construct.delimiter? := by
  rw [delimitedBy, List.mem_filter, Bool.and_eq_true, Bool.and_eq_true, and_assoc]

theorem mem_closedBy_iff {hasSecond : Bool} {candidates : List Construct} :
    construct ∈ r.closedBy closing hasSecond candidates ↔ construct ∈ candidates ∧
      has (r.dialect.symbolsOf closing) construct.end? ∧
        (hasSecond ∨
          r.dialect.accepts construct (if construct.isBinary then .aroundFirst else .around)) := by
  rw [closedBy, List.mem_filter, Bool.and_eq_true, Bool.or_eq_true]

/-- The candidates that are left at a closing bracket are the constructs that fit. -/
theorem mem_closedBy_separated_iff :
    construct ∈ r.closedBy closing delimiter.isSome (r.separated opening delimiter) ↔
      r.dialect.Fits opening delimiter closing construct := by
  cases delimiter with
  | none =>
    rw [mem_closedBy_iff, separated, mem_opened_iff, Dialect.Fits, Option.isSome_none]
    cases construct.isBinary <;> grind
  | some t =>
    rw [mem_closedBy_iff, separated, mem_delimitedBy_iff, mem_opened_iff, Dialect.Fits,
      Option.isSome_some]
    grind

theorem nodup_closedBy_separated :
    (r.closedBy closing delimiter.isSome (r.separated opening delimiter)).Nodup := by
  have opened : (r.dialect.opened opening).Nodup := Construct.nodup_compounds.filter _
  cases delimiter with
  | none => exact opened.filter _
  | some t => exact (opened.filter _).filter _

/-- One candidate is left exactly if one construct fits. -/
theorem closedBy_separated_eq_singleton_iff :
    r.closedBy closing delimiter.isSome (r.separated opening delimiter) = [construct] ↔
      ∀ other, r.dialect.Fits opening delimiter closing other ↔ other = construct := by
  simp only [← mem_closedBy_separated_iff]
  refine ⟨fun one other => by rw [one, List.mem_singleton], fun only => ?_⟩
  have alone : [construct].Nodup := List.pairwise_singleton _ construct
  refine List.perm_singleton.1 ((List.perm_ext_iff_of_nodup nodup_closedBy_separated alone).2 ?_)
  exact fun other => (only other).trans List.mem_singleton.symm

/-! ### What comes of them -/

theorem oneLeft_of_two {candidates : List Construct} {range : Range} {c d : Construct}
    (first : c ∈ candidates) (second : d ∈ candidates) (apart : c ≠ d) :
    oneLeft candidates context closing range = .error (ambiguous candidates range) := by
  match candidates with
  | [] => cases first
  | [_] =>
    have same := (List.mem_singleton.1 first).trans (List.mem_singleton.1 second).symm
    exact absurd same apart
  | _ :: _ :: _ => rfl

/-- What stands between brackets becomes a statement of the construct that is left. -/
theorem Closes.construct? {closed : Range} {first : List Statement}
    {second : Option (List Statement)}
    (closes : Closes r nested scope closed first second ts statement rest construct)
    (compound : construct ∈ Construct.compounds) (binary : second.isSome → construct.isBinary) :
    statement.construct? = some construct := by
  cases second with
  | none =>
    cases construct with
    | grouping | inversion | reflection =>
      obtain ⟨rfl, -⟩ := closes
      rfl
    | commutation | conjugation | rotation =>
      obtain ⟨_, _, _, _, _, _, rfl⟩ := gives_readSecond.1 closes
      rfl
    | repetition | permutation => exact absurd compound (by decide)
  | some second =>
    cases construct with
    | commutation | conjugation | rotation =>
      obtain ⟨rfl, -⟩ := closes
      rfl
    | _ => exact absurd (binary rfl) (by decide)

/-- Where a closing bracket is reached, all that is left to do is to close it. -/
theorem Reaches.readCompound_eq
    (reached : r.Reaches nested scope opening ts delimiter closing left) :
    ∃ first second, ∃ behind : left <:+ ts, second.isSome = delimiter.isSome ∧
      r.readCompound nested scope (r.dialect.opened opening) opening ts = (do
        let closed ← r.closeCompound nested scope (r.separated opening delimiter)
          (.ofCandidates (r.dialect.opened opening)) opening first second closing left
        return (closed.1, Suffix.trans ⟨left, behind⟩ closed.2)) := by
  cases reached with
  | @one first _ _ read unseparated =>
    obtain ⟨h, read⟩ := read
    refine ⟨first, none, (List.suffix_cons _ _).trans h, rfl, ?_⟩
    rw [separated] at unseparated
    rw [readCompound, read]
    dsimp only [bind, Except.bind]
    rw [unseparated]
    rfl
  | @two first second delimiter _ middle _ read separated readNext =>
    obtain ⟨h, read⟩ := read
    obtain ⟨hnext, readNext⟩ := readNext
    refine ⟨first, some second,
      (List.suffix_cons _ _).trans (hnext.trans ((List.suffix_cons _ _).trans h)), rfl, ?_⟩
    obtain ⟨c, cs, filled⟩ := List.exists_cons_of_ne_nil separated
    rw [filled] at readNext
    rw [Reader.separated] at filled
    rw [readCompound, read, Reader.separated]
    dsimp only [bind, Except.bind]
    rw [filled]
    dsimp only
    rw [readNext]
    rfl

theorem exists_reaches
    (given : Gives (r.readCompound nested scope (r.dialect.opened opening) opening ts) statement
      rest) :
    ∃ delimiter closing left, r.Reaches nested scope opening ts delimiter closing left := by
  obtain ⟨first, t, left, read, went⟩ := gives_readCompound.1 given
  split at went
  · rename_i unseparated
    exact ⟨none, t, left, .one read unseparated⟩
  · rename_i separated
    obtain ⟨second, u, right, readNext, _⟩ := went
    exact ⟨some t, u, right, .two read separated readNext⟩

/-- What is read has the one construct that fits its brackets. -/
theorem Reaches.fits (reached : r.Reaches nested scope opening ts delimiter closing left)
    (given : Gives (r.readCompound nested scope (r.dialect.opened opening) opening ts) statement
      rest) :
    ∃ construct, statement.construct? = some construct ∧
      ∀ other, r.dialect.Fits opening delimiter closing other ↔ other = construct := by
  obtain ⟨first, second, _, separates, same⟩ := reached.readCompound_eq
  rw [same] at given
  obtain ⟨_, _, closed, done⟩ := gives_bind_iff.1 given
  obtain ⟨rfl, rfl⟩ := gives_pure_iff.1 done
  obtain ⟨construct, one, closes⟩ := gives_closeCompound.1 closed
  rw [separates] at one
  have only := closedBy_separated_eq_singleton_iff.1 one
  obtain ⟨compound, _, _, written⟩ := (only construct).2 rfl
  refine ⟨construct, closes.construct? compound fun some => ?_, only⟩
  cases delimiter with
  | none =>
    rw [separates] at some
    cases some
  | some t => exact written.1

theorem Reaches.readCompound_of_two
    (reached : r.Reaches nested scope opening ts delimiter closing left) {c d : Construct}
    (fits : r.dialect.Fits opening delimiter closing c)
    (alsoFits : r.dialect.Fits opening delimiter closing d) (apart : c ≠ d) :
    r.readCompound nested scope (r.dialect.opened opening) opening ts =
      .error (ambiguous (r.closedBy closing delimiter.isSome (r.separated opening delimiter))
        ⟨opening.range.start, closing.range.stop⟩) := by
  obtain ⟨_, second, _, separates, same⟩ := reached.readCompound_eq
  rw [same, closeCompound, separates, oneLeft_of_two (mem_closedBy_separated_iff.2 fits)
    (mem_closedBy_separated_iff.2 alsoFits) apart]
  rfl

theorem Reaches.readCompound_of_none
    (reached : r.Reaches nested scope opening ts delimiter closing left)
    (none : ∀ c, ¬ r.dialect.Fits opening delimiter closing c) :
    r.readCompound nested scope (r.dialect.opened opening) opening ts =
      .error (unexpected closing (.ofCandidates (r.dialect.opened opening))) := by
  have nothing : r.closedBy closing delimiter.isSome (r.separated opening delimiter) = [] :=
    List.eq_nil_iff_forall_not_mem.2 fun c left => none c (mem_closedBy_separated_iff.1 left)
  obtain ⟨_, second, _, separates, same⟩ := reached.readCompound_eq
  rw [same, closeCompound, separates, nothing]
  rfl

/-- A dialect in which commutations and conjugations look alike. -/
def alike : Dialect where
  layers := 2
  symbols t :=
    if t = "[" then .ofList [.commutationBegin, .conjugationBegin]
    else if t = ":" then .ofList [.commutationDelimiter, .conjugationDelimiter]
    else if t = "]" then .ofList [.commutationEnd, .conjugationEnd]
    else .ofList [.nop]
  allows _ placement := placement = .around
  supports _ := true
  expansion? _ := none
  turn? _ := none
  keywords := ["[", ":", "]", "~"]

end Reader

end CubeScript
