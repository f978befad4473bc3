import CubeScript.Proofs.Reading.Merging
import CubeScript.Dialect.Standard

/-!
# What the limits of a reader change

A limit on nesting is an error like any other. The attempt that runs into it fails, and a later way
to begin the statement may succeed. With room for one level, `(RFU)` is no group, since the turns
would be a second level, and so it is read as a cycle of one corner. With room for two it is a
group: the same text has another meaning (`Reader.exists_read_withLimits_ne`).

What is true is said with a reader that works under two limits at once. It reads as the tighter
limits do, and gives up where an attempt fails under the tighter limits and succeeds under the wider
ones. It reads exactly what is read in the same way under either of them
(`Reader.readStatementsSettled_eq_ok_iff`). Where no token may begin a statement in two ways, the
limits do what they are for and only reject (`Reader.lifts_read`).
-/

namespace CubeScript

namespace Reader

open Diagnostic

/-- The first of some attempts that succeeds under tight limits, if those before it fail under wide
ones as well. The attempt itself is made under both. -/
def firstSettled {α β : Type} (tight wide both : α → Except Diagnostic β) (a : α) :
    List α → Except Diagnostic β
  | [] => both a
  | b :: rest =>
    match tight a, wide a with
    | .ok _, _ => both a
    | .error d, .ok _ => .error d
    | .error _, .error _ => firstSettled tight wide both b rest

/-- Read the beginning of a statement with readers for the statements inside it that work under
tight limits, under wide ones, and under both. -/
def readBeginningSettled (r wider : Reader) (tight wide both : Nested) (scope : Scope)
    (context : Context) (t : Token) (ts : List Token) : Reading Statement ts :=
  match r.dialect.starts t with
  | [] => .error (noStart t context)
  | start :: starts =>
    firstSettled (r.readStart tight scope context t ts) (wider.readStart wide scope context t ts)
      (r.readStart both scope context t ts) start starts

/-- Read a statement in which statements may be nested up to a number of levels, and give up where
that depends on there being no more of them. -/
def readSettled (r wider : Reader) : (levels room : Nat) → Nested
  | levels + 1, room + 1, scope, context, t, ts => do
    let both := readSettled r wider levels room
    let (beginning, rest) ← readBeginningSettled r wider (r.readStatement levels)
      (wider.readStatement room) both scope context t ts
    let (statement, later) ← r.readBehind both scope context beginning rest.1
    return (statement, rest.trans later)
  | _, _, _, _, t, _ => .error { problem := .nestedTooDeeply r.maxNesting, range := t.range }

/-- Read the statements of a text, and give up where what is read depends on the limits being no
wider. -/
def readStatementsSettled (r wider : Reader) (text : String) :
    Except Diagnostic (List Statement) := do
  let scope : Scope := ⟨text.utf8ByteSize, 0⟩
  let (statements, _) ← r.readSequence (readSettled r wider r.maxNesting wider.maxNesting) scope
    .script .empty (r.lexer.tokens text)
  return statements

section

variable {α β : Type} {tight wide both : α → Except Diagnostic β}

theorem lifts_firstSettled_tight (attempts : ∀ a, Lifts (both a) (tight a)) (a : α)
    (rest : List α) :
    Lifts (firstSettled tight wide both a rest) (firstSuccess tight a rest) := by
  induction rest generalizing a with
  | nil => exact attempts a
  | cons b rest ih =>
    rw [firstSettled, firstSuccess]
    cases first : tight a with
    | ok x =>
      refine ⟨fun y done => ?_⟩
      rw [← (attempts a).ok y done, first]
    | error d =>
      cases wide a with
      | ok x => exact .error _ _
      | error e =>
        refine ⟨fun y done => ?_⟩
        rw [(ih b).ok y done]
        rfl

theorem lifts_firstSettled_wide (attempts : ∀ a, Lifts (both a) (wide a)) (a : α)
    (rest : List α) :
    Lifts (firstSettled tight wide both a rest) (firstSuccess wide a rest) := by
  induction rest generalizing a with
  | nil => exact attempts a
  | cons b rest ih =>
    rw [firstSettled, firstSuccess]
    refine ⟨fun y done => ?_⟩
    cases first : tight a with
    | ok x =>
      rw [first] at done
      rw [(attempts a).ok y done]
    | error d =>
      rw [first] at done
      cases second : wide a with
      | ok x =>
        rw [second] at done
        cases done
      | error e =>
        rw [second] at done
        dsimp only at done ⊢
        rw [(ih b).ok y done]
        rfl

end

section

variable (r : Reader) (depth nesting : Nat) (deeper : r.maxShorthandDepth ≤ depth)

theorem lifts_readSettled_tight (wider : Reader) (levels room : Nat) :
    LiftsNested (readSettled r wider levels room) (r.readStatement levels) := by
  induction levels generalizing room with
  | zero =>
    intro scope context t ts
    rw [readSettled]
    · exact .error _ _
    · simp
  | succ levels ih =>
    intro scope context t ts
    cases room with
    | zero =>
      rw [readSettled]
      · exact .error _ _
      · simp
    | succ room =>
      rw [readSettled, readStatement]
      refine .bind ?_ ?_
      · rw [readBeginningSettled, readBeginning]
        cases r.dialect.starts t with
        | nil => exact .error _ _
        | cons start starts =>
          refine lifts_firstSettled_tight (fun start => ?_) start starts
          exact lifts_readStart (ih room) (Nat.le_refl r.maxShorthandDepth) scope context t ts start
      · rintro ⟨beginning, rest⟩
        refine .bind ?_ fun _ => .refl _
        exact lifts_readBehind (ih room) r r.maxShorthandDepth r.maxNesting ..

include deeper in
theorem lifts_readSettled_wide (levels room : Nat) : LiftsNested
    (readSettled r (r.withLimits depth nesting) levels room)
    ((r.withLimits depth nesting).readStatement room) := by
  induction levels generalizing room with
  | zero =>
    intro scope context t ts
    rw [readSettled]
    · exact .error _ _
    · simp
  | succ levels ih =>
    intro scope context t ts
    cases room with
    | zero =>
      rw [readSettled]
      · exact .error _ _
      · simp
    | succ room =>
      rw [readSettled, readStatement]
      refine .bind ?_ ?_
      · rw [readBeginningSettled, readBeginning, dialect_withLimits]
        cases r.dialect.starts t with
        | nil => exact .error _ _
        | cons start starts =>
          refine lifts_firstSettled_wide (fun start => ?_) start starts
          exact lifts_readStart (ih room) deeper scope context t ts start
      · rintro ⟨beginning, rest⟩
        exact .bind (lifts_readBehind (ih room) r depth nesting ..) fun _ => .refl _

/-- What is read under two limits at once is read under either of them. -/
theorem readStatements_of_settled {r : Reader} {depth nesting : Nat}
    (deeper : r.maxShorthandDepth ≤ depth) {text : String} {statements : List Statement}
    (settled : r.readStatementsSettled (r.withLimits depth nesting) text = .ok statements) :
    r.readStatements text = .ok statements ∧
      (r.withLimits depth nesting).readStatements text = .ok statements := by
  rw [readStatementsSettled] at settled
  constructor
  · refine Lifts.ok (.bind ?_ fun _ => .refl _) statements settled
    exact lifts_readSequence (lifts_readSettled_tight r _ _ _) r r.maxShorthandDepth r.maxNesting ..
  · refine Lifts.ok (.bind ?_ fun _ => .refl _) statements settled
    exact lifts_readSequence (lifts_readSettled_wide r depth nesting deeper _ _) r depth nesting ..

end

/-! ### Readings that are the same without being settled -/

/-- The attempt that succeeds is settled on, if those before it fail under either limits. -/
theorem firstSettled_eq_ok {α β : Type} {tight wide both : α → Except Diagnostic β} {a : α}
    {others earlier later : List α} {chosen : α} {b c : β}
    (split : a :: others = earlier ++ chosen :: later)
    (failed : ∀ other ∈ earlier, ∀ x, tight other ≠ .ok x)
    (failedToo : ∀ other ∈ earlier, ∀ x, wide other ≠ .ok x)
    (found : tight chosen = .ok c) (settled : both chosen = .ok b) :
    firstSettled tight wide both a others = .ok b := by
  induction earlier generalizing a others with
  | nil =>
    cases split
    cases later with
    | nil => exact settled
    | cons next later =>
      rw [firstSettled, found]
      exact settled
  | cons other earlier ih =>
    obtain ⟨rfl, rest⟩ := List.cons.inj split
    have more : ∃ next more, others = next :: more := by
      cases others with
      | nil => cases earlier <;> cases rest
      | cons next more => exact ⟨next, more, rfl⟩
    obtain ⟨next, more, rfl⟩ := more
    rw [firstSettled]
    cases first : tight a with
    | ok x => exact absurd first (failed a List.mem_cons_self x)
    | error d =>
      cases second : wide a with
      | ok x => exact absurd second (failedToo a List.mem_cons_self x)
      | error e =>
        exact ih rest (fun other member => failed other (List.mem_cons_of_mem a member))
          (fun other member => failedToo other (List.mem_cons_of_mem a member))

theorem eq_opened_of_mem_starts {d : Dialect} {t : Token} {candidates : List Construct}
    (member : .compound candidates ∈ d.starts t) : candidates = d.opened t := by
  rw [Dialect.starts] at member
  split at member
  · split at member <;> simp at member
  · simp only [List.mem_append, List.mem_ite_nil_right, List.mem_singleton, reduceCtorEq,
      List.mem_ite_nil_left, and_false, false_or, or_false] at member
    exact Start.compound.inj member.2

/-- A statement tells how it began, unless it is a cycle. -/
theorem eq_or_of_made {d : Dialect} {t : Token} {a b : Start} {s : Statement}
    (member : a ∈ d.starts t) (memberToo : b ∈ d.starts t) (made : a.Made s)
    (madeToo : b.Made s) : a = b ∨ ∃ cycle range, s = .atom (.cycle cycle) range := by
  have compounds {first second : List Construct} (isFirst : .compound first ∈ d.starts t)
      (isSecond : .compound second ∈ d.starts t) :
      Start.compound first = .compound second := by
    rw [eq_opened_of_mem_starts isFirst, eq_opened_of_mem_starts isSecond]
  match s with
  | .atom (.cycle cycle) range => exact .inr ⟨cycle, range, rfl⟩
  | .atom (.turn _) _ | .atom .nop _ | .wrapped (.shorthand _) _ _
  | .wrapped (.repetition _) _ _ =>
    cases a <;> cases b <;> first | exact .inl rfl | exact made.elim | exact madeToo.elim
  | .wrapped .grouping _ _ | .paired _ _ _ _ =>
    left
    cases a <;> cases b <;>
      first | exact compounds member memberToo | exact made.elim | exact madeToo.elim
  | .wrapped .inversion [operand] _ | .wrapped .reflection [operand] _ =>
    left
    cases a <;> cases b <;> first
      | rfl
      | exact compounds member memberToo
      | exact made.elim
      | exact madeToo.elim
      | exact absurd made (Nat.ne_of_lt (madeToo operand List.mem_cons_self))
      | exact absurd madeToo (Nat.ne_of_lt (made operand List.mem_cons_self))
  | .wrapped .inversion [] _ | .wrapped .inversion (_ :: _ :: _) _
  | .wrapped .reflection [] _ | .wrapped .reflection (_ :: _ :: _) _ =>
    left
    cases a <;> cases b <;>
      first | exact compounds member memberToo | exact made.elim | exact madeToo.elim

/-- How a cycle is read has nothing to do with what is read inside statements. -/
theorem readStart_eq_of_cycle {r : Reader} {nested wider : Nested} {depth nesting : Nat}
    {scope : Scope} {context : Diagnostic.Context} {t : Token} {ts : List Token} {start : Start}
    {cycle : Cycle} {range : Range} (made : start.Made (.atom (.cycle cycle) range)) :
    (r.withLimits depth nesting).readStart wider scope context t ts start =
      r.readStart nested scope context t ts start := by
  cases start with
  | cycle => rw [readStart, readStart, readCycle_withLimits]
  | signedCycle =>
    simp only [readStart, readSignedCycle, readCycle_withLimits, dialect_withLimits]
  | turn => exact made.elim
  | nop => exact made.elim
  | shorthand => exact made.elim
  | compound candidates => exact made.elim
  | inversion => exact made.elim
  | reflection => exact made.elim
  | repetition => exact made.elim

open Reading

section

variable {r : Reader} {tight wide both : Nested} {depth nesting : Nat}
  (inner : MergesNested tight wide both) (extends_ : Extends tight) (extendsToo : Extends wide)

include inner extends_ extendsToo

/-- If both readers come to the same beginning, they come to it in the same way, and the attempts
before it fail under the limits of either. -/
theorem merges_readBeginning {scope : Scope} {context : Diagnostic.Context} {t : Token}
    {ts : List Token} (placed : Placed (t :: ts)) :
    Merges (r.readBeginning tight scope context t ts)
      ((r.withLimits depth nesting).readBeginning wide scope context t ts)
      (r.readBeginningSettled (r.withLimits depth nesting) tight wide both scope context t ts) := by
  intro statement rest left given other
  obtain ⟨earlier, start, later, split, read, failed⟩ := gives_readBeginning.1 given
  obtain ⟨earlierToo, startToo, laterToo, splitToo, readToo, failedToo⟩ :=
    gives_readBeginning.1 other
  rw [dialect_withLimits] at splitToo
  have made := (extends_readStart extends_ placed read).made
  have madeToo := (extends_readStart extendsToo placed readToo).made
  have starts : start ∈ r.dialect.starts t := by simp [split]
  have startsToo : startToo ∈ r.dialect.starts t := by simp [splitToo]
  have apart : start ∉ earlierToo ∧ startToo ∉ earlier := by
    obtain rfl | ⟨cycle, range, rfl⟩ := eq_or_of_made starts startsToo made madeToo
    · exact ⟨fun member => failedToo start member _ _ readToo,
        fun member => failed start member _ _ read⟩
    · have crossed {a : Start} (made : a.Made (.atom (.cycle cycle) range)) :
          (r.withLimits depth nesting).readStart wide scope context t ts a =
            r.readStart tight scope context t ts a := readStart_eq_of_cycle made
      rw [crossed madeToo] at readToo
      rw [← crossed made] at read
      exact ⟨fun member => failedToo start member _ _ read,
        fun member => failed startToo member _ _ readToo⟩
  have same : earlier = earlierToo ∧ start = startToo := by
    rcases List.append_eq_append_iff.1 (split.symm.trans splitToo) with
      ⟨between, rfl, tails⟩ | ⟨between, rfl, tails⟩
    · cases between with
      | nil => exact ⟨by simp, (List.cons.inj tails).1⟩
      | cons first between =>
        cases (List.cons.inj tails).1
        exact absurd (by simp) apart.1
    · cases between with
      | nil => exact ⟨by simp, (List.cons.inj tails).1.symm⟩
      | cons first between =>
        cases (List.cons.inj tails).1
        exact absurd (by simp) apart.2
  obtain ⟨rfl, rfl⟩ := same
  obtain ⟨rfl, suffix, merged⟩ := merges_readStart inner placed.tail _ _ _ read readToo
  refine ⟨rfl, suffix, ?_⟩
  rw [readBeginningSettled]
  cases known : r.dialect.starts t with
  | nil => simp [known] at starts
  | cons first others =>
    obtain ⟨_, found⟩ := read
    refine firstSettled_eq_ok (known.symm.trans split) ?_ ?_ found merged
    · exact fun other member x done => failed other member _ _ (eq_ok_iff.1 done)
    · exact fun other member x done => failedToo other member _ _ (eq_ok_iff.1 done)

end

/-- What is read under either of two limits is read under both at once. -/
theorem merges_readStatement (r : Reader) (depth nesting levels room : Nat) :
    MergesNested (r.readStatement levels) ((r.withLimits depth nesting).readStatement room)
      (readSettled r (r.withLimits depth nesting) levels room) := by
  induction levels generalizing room with
  | zero => exact fun _ _ _ _ _ _ _ _ given => absurd given gives_readStatement_zero
  | succ levels ih =>
    cases room with
    | zero => exact fun _ _ _ _ _ _ _ _ _ other => absurd other gives_readStatement_zero
    | succ room =>
      intro scope context t ts placed statement rest left given other
      obtain ⟨beginning, middle, begun, went⟩ := gives_readStatement_succ.1 given
      obtain ⟨beginningToo, _, begunToo, wentToo⟩ := gives_readStatement_succ.1 other
      have extends_ := extends_readStatement r levels
      have extendsToo := extends_readStatement (r.withLimits depth nesting) room
      obtain ⟨_, _, _, _, read, _⟩ := gives_readBeginning.1 begun
      obtain ⟨_, _, _, _, readToo, _⟩ := gives_readBeginning.1 begunToo
      obtain ⟨spans, outer, _⟩ := extends_readStart extends_ placed read
      obtain ⟨spansToo, outerToo, _⟩ := extends_readStart extendsToo placed readToo
      have after := placed.tail.suffix begun.suffix
      have afterToo := placed.tail.suffix begunToo.suffix
      have grown := (extends_readBehind extends_ after spans placed.pos went).2
      have grownToo := (extends_readBehind extendsToo afterToo spansToo placed.pos wentToo).2
      obtain rfl := grown.eq_of_inner?_eq_none grownToo outer outerToo
      obtain ⟨rfl, begunBoth⟩ :=
        merges_readBeginning (ih room) extends_ extendsToo placed _ _ _ begun begunToo
      obtain ⟨rfl, wentBoth⟩ := merges_readBehind (ih room) extends_ extendsToo after spans
        placed.pos _ _ _ went wentToo
      refine ⟨rfl, ?_⟩
      rw [readSettled]
      exact gives_bind_iff.2 ⟨_, _, begunBoth,
        gives_bind_iff.2 ⟨_, _, wentBoth, gives_pure_iff.2 ⟨rfl, rfl⟩⟩⟩

/-- What is read under either of two limits, and no other text, is read under both at once. -/
theorem readStatementsSettled_eq_ok_iff {r : Reader} {depth nesting : Nat}
    (deeper : r.maxShorthandDepth ≤ depth) {text : String} {statements : List Statement} :
    r.readStatementsSettled (r.withLimits depth nesting) text = .ok statements ↔
      r.readStatements text = .ok statements ∧
        (r.withLimits depth nesting).readStatements text = .ok statements := by
  refine ⟨readStatements_of_settled deeper, fun ⟨read, readToo⟩ => ?_⟩
  obtain ⟨left, given⟩ := readStatements_eq_ok_iff.1 read
  obtain ⟨leftToo, givenToo⟩ := readStatements_eq_ok_iff.1 readToo
  obtain ⟨_, _, merged⟩ := merges_readSequence (merges_readStatement r depth nesting
    r.maxNesting nesting) _ _ _ (r.lexer.placed_tokens text) _ _ _ given givenToo
  rw [readStatementsSettled]
  exact Except.bind_eq_ok_iff.2 ⟨_, merged, rfl⟩

/-- A text that is read under some limits is read in the same way under wider ones exactly if it is
read under both at once, and is then the same script. -/
theorem read_withLimits {r : Reader} {depth : Nat} (deeper : r.maxShorthandDepth ≤ depth)
    (nesting : Nat) {text : String} {statements : List Statement}
    (given : r.readStatements text = .ok statements) :
    ((r.withLimits depth nesting).readStatements text = .ok statements ↔
      r.readStatementsSettled (r.withLimits depth nesting) text = .ok statements) ∧
    (r.readStatementsSettled (r.withLimits depth nesting) text = .ok statements →
      (r.withLimits depth nesting).read text = r.read text) := by
  constructor
  · constructor
    · exact fun wide => (readStatementsSettled_eq_ok_iff deeper).2 ⟨given, wide⟩
    · exact fun both => (readStatements_of_settled deeper both).2
  · intro both
    rw [read, read, given, (readStatements_of_settled deeper both).2]
    rfl

/-- A reader for the cube of two layers that allows no statement inside another. -/
def shallow : Reader where
  dialect := (Lexicon.standard ⟨2, by decide, by decide⟩).dialect
  maxNesting := 1

/-- The kinds of the nodes of a script, if it has been read. -/
def nodeLabels (outcome : Except Diagnostic Script) : Option (List String) :=
  outcome.toOption.map fun script => script.nodes.toList.map (·.content.label)

/-- Three turns between brackets are a cycle of one corner if turns must not stand inside. -/
theorem nodeLabels_shallow :
    nodeLabels (shallow.read "(RFU)") = some ["permutation", "sequence"] := by
  decide +kernel

/-- They are a group if turns may stand inside. -/
theorem nodeLabels_shallow_withLimits : nodeLabels ((shallow.withLimits 32 2).read "(RFU)") =
    some ["move", "move", "move", "grouping", "sequence"] := by
  decide +kernel

theorem exists_of_nodeLabels {outcome : Except Diagnostic Script} {labels : List String}
    (known : nodeLabels outcome = some labels) : ∃ script, outcome = .ok script := by
  cases outcome with
  | error d => cases known
  | ok script => exact ⟨script, rfl⟩

theorem shallow_ne_withLimits : (shallow.withLimits 32 2).read "(RFU)" ≠ shallow.read "(RFU)" := by
  intro same
  have known := nodeLabels_shallow_withLimits
  rw [same, nodeLabels_shallow] at known
  exact absurd known (by decide)

/-- The condition is not always met. -/
theorem read_withLimits_notSettled : shallow.maxShorthandDepth ≤ 32 ∧
    ∃ statements, shallow.readStatements "(RFU)" = .ok statements ∧
      shallow.readStatementsSettled (shallow.withLimits 32 2) "(RFU)" ≠ .ok statements ∧
      (shallow.withLimits 32 2).readStatements "(RFU)" ≠ .ok statements := by
  obtain ⟨script, done⟩ := exists_of_nodeLabels nodeLabels_shallow
  obtain ⟨statements, given, rfl⟩ := read_eq_ok_iff.1 done
  have deeper : shallow.maxShorthandDepth ≤ 32 := Nat.le_refl _
  obtain ⟨kept, same⟩ := read_withLimits deeper 2 given
  have apart := fun both => shallow_ne_withLimits (same both)
  exact ⟨deeper, statements, given, apart, fun wide => apart (kept.1 wide)⟩

/-- Wider limits can make another script of a text that is read without them. -/
theorem exists_read_withLimits_ne : ∃ text script other, shallow.read text = .ok script ∧
    (shallow.withLimits 32 2).read text = .ok other ∧ script ≠ other := by
  obtain ⟨script, done⟩ := exists_of_nodeLabels nodeLabels_shallow
  obtain ⟨other, doneToo⟩ := exists_of_nodeLabels nodeLabels_shallow_withLimits
  refine ⟨"(RFU)", script, other, done, doneToo, ?_⟩
  rintro rfl
  exact shallow_ne_withLimits (doneToo.trans done.symm)

/-! ### Dialects without a choice -/

/-- Where no token may begin a statement in two ways there is no attempt to fall back on. -/
theorem lifts_readStatement {r : Reader} {depth nesting levels room : Nat}
    (deeper : r.maxShorthandDepth ≤ depth) (more : levels ≤ room)
    (single : ∀ t, (r.dialect.starts t).length ≤ 1) :
    LiftsNested (r.readStatement levels) ((r.withLimits depth nesting).readStatement room) := by
  induction levels generalizing room with
  | zero => exact fun _ _ _ _ => .error _ _
  | succ levels ih =>
    intro scope context t ts
    obtain ⟨room, rfl⟩ : ∃ less, room = less + 1 := ⟨room - 1, by omega⟩
    have inner := ih (Nat.le_of_succ_le_succ more)
    rw [readStatement, readStatement]
    refine .bind ?_ ?_
    · rw [readBeginning, readBeginning, dialect_withLimits]
      rcases found : r.dialect.starts t with _ | ⟨start, _ | ⟨_, _⟩⟩
      · exact .error _ _
      · exact lifts_readStart inner deeper scope context t ts start
      · exact absurd (single t) (by simp [found])
    · rintro ⟨beginning, rest⟩
      exact .bind (lifts_readBehind inner r depth nesting ..) fun _ => .refl _

/-- In a dialect in which no token may begin a statement in two ways, limits only reject. -/
theorem lifts_read {r : Reader} {depth nesting : Nat} (deeper : r.maxShorthandDepth ≤ depth)
    (more : r.maxNesting ≤ nesting) (single : ∀ t, (r.dialect.starts t).length ≤ 1)
    (text : String) : Lifts (r.read text) ((r.withLimits depth nesting).read text) := by
  refine .bind (.bind ?_ fun _ => .refl _) fun _ => .refl _
  exact lifts_readSequence (lifts_readStatement deeper more single) r depth nesting ..

end Reader

end CubeScript
