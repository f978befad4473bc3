import CubeScript.Proofs.Reading.Cycles
import CubeScript.Proofs.Reading.Limits
import CubeScript.Proofs.Script.Trees

/-!
# What statements are made of

Whatever way a statement is read in, it is made of turns that the dialect has and of cycles through
places of its cube (`Dialect.Offers`), and what repeats something repeats one statement. A statement
in which all this holds is `Statement.Composed`. Every reading function gives such statements if the
one that reads the statements inside does (`Reader.Composes`), for all dialects and all texts, those
of shorthands included.

An attempt that fails gives no statement at all, so nothing of it is left in the script. What has
been read is laid out in the end, and the script is one tree.
-/

namespace CubeScript

/-- Whether a dialect has an atom: a turn that one of its words means, a cycle through places of its
cube, or nothing. -/
inductive Dialect.Offers (d : Dialect) : Atom → Prop where
  | turn {word : String} {t : Turn} (listed : (d.symbols word).contains .move)
      (meant : d.turn? word = some t) : Offers d (.turn t)
  | cycle {size : Size} {c : Cycle} (cube : Size.ofNat? d.layers = .ok size)
      (named : ∀ item ∈ c.items, ∃ faces number,
        Cycle.Item.ofFaces size faces number = .ok item) : Offers d (.cycle c)
  | nop : Offers d .nop

/-- Only a token that is listed as a turn can begin one. -/
theorem Dialect.contains_of_turn_mem_starts {d : Dialect} {t : Token}
    (usual : .turn ∈ d.starts t) : (d.symbols t.text).contains .move := by
  rw [starts] at usual
  split at usual
  · split at usual <;> simp at usual
  · simp only [List.mem_append, List.mem_ite_nil_right, List.mem_singleton, reduceCtorEq,
      List.mem_ite_nil_left, and_false, or_false, and_true, Bool.and_eq_true] at usual
    have means := usual.1
    rw [symbolsOf] at means
    split at means
    · exact means
    · exact absurd means (by decide)

/-- Whether all items of a draft have been made of faces. -/
def CycleDraft.Named (size : Size) (draft : CycleDraft) : Prop :=
  ∀ item ∈ draft.items, ∃ faces number, Cycle.Item.ofFaces size faces number = .ok item

namespace Reader

open Reading

/-- Whether statements are read that are made of what a dialect has. -/
def Composes (d : Dialect) (nested : Nested) : Prop := ∀ scope context t ts statement rest,
  Gives (nested scope context t ts) statement rest → statement.Composed d.Offers

variable {r : Reader} {nested : Nested} {scope : Scope} {context : Diagnostic.Context}
  {rest : List Token}

/-! ### Cycles -/

section

variable {size : Size} {draft result : CycleDraft} {t next : Token}

theorem named_completePart (named : draft.Named size)
    (completed : r.completePart size draft t = .ok result) : result.Named size := by
  rw [completePart] at completed
  split at completed
  · cases completed
  · split at completed
    · cases completed
    · obtain ⟨item, written, same⟩ := Except.bind_eq_ok_iff.1 completed
      cases same
      intro other member
      obtain before | last := List.mem_append.1 member
      · exact named other before
      · obtain rfl := List.mem_singleton.1 last
        exact ⟨_, _, (CycleDraft.item_eq_ok_iff.1 written).1⟩

/-- A token adds at most one item to a draft, and that has been made of faces. -/
theorem named_extendCycle (named : draft.Named size) {ended : Bool}
    (extended : r.extendCycle size draft t next = .ok (result, ended)) : result.Named size := by
  rw [extendCycle] at extended
  split at extended
  · obtain ⟨_, added, same⟩ := Except.bind_eq_ok_iff.1 extended
    cases same
    rw [addSign] at added
    split at added
    · cases added
    · split at added
      · cases added
      · cases added
        exact named
  · split at extended
    · obtain ⟨_, added, same⟩ := Except.bind_eq_ok_iff.1 extended
      cases same
      obtain ⟨_, _, _, _, _, rfl⟩ := addNumber_eq_ok_iff.1 added
      exact named
    · split at extended
      · obtain ⟨_, added, same⟩ := Except.bind_eq_ok_iff.1 extended
        cases same
        obtain ⟨_, _, rfl⟩ := addFace_eq_ok_iff.1 added
        exact named
      · obtain ⟨_, completed, same⟩ := Except.bind_eq_ok_iff.1 extended
        cases same
        exact named_completePart named completed

theorem named_readParts {bracket : Token} {ts : List Token} {stop : Nat}
    (named : draft.Named size)
    (given : Gives (r.readParts scope size bracket draft ts) (result, stop) rest) :
    result.Named size := by
  induction ts generalizing draft with
  | nil => exact absurd given gives_readParts_nil
  | cons t ts ih =>
    obtain ⟨next, ended, extended, went⟩ := gives_readParts_cons.1 given
    have kept := named_extendCycle named extended
    split at went
    · obtain ⟨same, _⟩ := went
      cases same
      exact kept
    · exact ih kept went

theorem items_readSignBehind (draft : CycleDraft) (stop : Nat) (ts : List Token) :
    (r.readSignBehind draft stop ts).1.1.items = draft.items := by
  cases ts with
  | nil => rfl
  | cons t ts =>
    rw [readSignBehind]
    split
    · split <;> rfl
    · rfl

theorem composed_readCycle {sign : Option (Cycle.Sign × Range)} {bracket : Token}
    {ts : List Token} {statement : Statement}
    (given : Gives (r.readCycle scope sign bracket ts) statement rest) :
    statement.Composed r.dialect.Offers := by
  obtain ⟨size, draft, stop, middle, final, cycle, cube, parts, rfl, _, made, rfl⟩ :=
    gives_readCycle.1 given
  have named : draft.Named size :=
    named_readParts (fun _ member => absurd member List.not_mem_nil) parts
  have items := (Cycle.items_of_make (makeCycle_eq_ok_iff.1 made)).1
  rw [items_readSignBehind] at items
  refine .atom (.cycle cube ?_)
  rw [items]
  exact named

end

/-! ### Statements inside statements -/

section

variable (inner : Composes r.dialect nested)

include inner

theorem composed_readSequence {stop : SymbolSet} {ts : List Token} {statements : List Statement}
    (given : Gives (r.readSequence nested scope context stop ts) statements rest) :
    ∀ s ∈ statements, s.Composed r.dialect.Offers := by
  match ts with
  | [] =>
    obtain ⟨rfl, _⟩ := gives_readSequence_nil.1 given
    nofun
  | t :: ts =>
    rw [gives_readSequence_cons] at given
    split at given
    · obtain ⟨rfl, _⟩ := given
      nofun
    · obtain ⟨statement, middle, later, first, more, rfl⟩ := given
      have shorter : middle.length < (t :: ts).length :=
        Nat.lt_succ_of_le first.suffix.length_le
      intro s member
      obtain rfl | member := List.mem_cons.1 member
      · exact inner scope context t ts _ middle first
      · exact composed_readSequence more s member
termination_by ts.length
decreasing_by exact shorter

theorem composed_closes {closed : Range} {first : List Statement}
    {second : Option (List Statement)} {ts : List Token} {statement : Statement}
    {construct : Construct} (left : ∀ s ∈ first, s.Composed r.dialect.Offers)
    (right : ∀ operands, second = some operands → ∀ s ∈ operands, s.Composed r.dialect.Offers)
    (closes : Closes r nested scope closed first second ts statement rest construct) :
    statement.Composed r.dialect.Offers := by
  have goes : Gives (r.readSecond nested scope construct first closed ts) statement rest →
      statement.Composed r.dialect.Offers := by
    intro given
    obtain ⟨t, us, operand, _, _, read, rfl⟩ := gives_readSecond.1 given
    have composed := inner _ _ _ _ _ _ read
    refine .paired left fun s member => ?_
    obtain rfl := List.mem_singleton.1 member
    exact composed
  cases second with
  | some second =>
    have pairs : statement = .paired construct.pairing first second closed ∧ rest = ts := by
      cases construct <;> exact closes
    obtain ⟨rfl, _⟩ := pairs
    exact .paired left (right second rfl)
  | none =>
    cases construct with
    | grouping | inversion | reflection =>
      obtain ⟨rfl, _⟩ := closes
      exact .wrapped left nofun
    | repetition | commutation | conjugation | rotation | permutation => exact goes closes

theorem composed_readCompound {candidates : List Construct} {opening : Token} {ts : List Token}
    {statement : Statement}
    (given : Gives (r.readCompound nested scope candidates opening ts) statement rest) :
    statement.Composed r.dialect.Offers := by
  obtain ⟨first, t, left, read, went⟩ := gives_readCompound.1 given
  have composed := composed_readSequence inner read
  split at went
  · obtain ⟨construct, _, closes⟩ := gives_closeCompound.1 went
    refine composed_closes inner composed ?_ closes
    rintro _ ⟨⟩
  · obtain ⟨second, u, right, other, went⟩ := went
    obtain ⟨construct, _, closes⟩ := gives_closeCompound.1 went
    refine composed_closes inner composed ?_ closes
    rintro _ ⟨⟩
    exact composed_readSequence inner other

theorem composed_readWrapped {w : Wrapper} {operator : Range} {ts : List Token}
    {statement : Statement}
    (given : Gives (readWrapped nested scope w operator ts) statement rest) :
    statement.Composed r.dialect.Offers := by
  obtain ⟨t, us, operand, _, read, rfl⟩ := gives_readWrapped.1 given
  have composed := inner _ _ _ _ _ _ read
  refine .wrapped (fun s member => ?_) fun _ _ => ⟨operand, rfl⟩
  obtain rfl := List.mem_singleton.1 member
  exact composed

theorem composed_readShorthand {t : Token} {ts : List Token} {statement : Statement}
    (given : Gives (r.readShorthand nested scope context t ts) statement rest) :
    statement.Composed r.dialect.Offers := by
  obtain ⟨text, body, left, _, _, read, rfl, _⟩ := gives_readShorthand.1 given
  exact .wrapped (composed_readSequence inner read) nofun

theorem composed_readStart {t : Token} {ts : List Token} {start : Start} {statement : Statement}
    (usual : start ∈ r.dialect.starts t)
    (given : Gives (r.readStart nested scope context t ts start) statement rest) :
    statement.Composed r.dialect.Offers := by
  cases start with
  | turn =>
    rw [readStart] at given
    split at given
    · rename_i turn meant
      obtain ⟨rfl, _⟩ := gives_ok_iff.1 given
      exact .atom (.turn (Dialect.contains_of_turn_mem_starts usual) meant)
    · exact absurd given (not_gives_error _ _ _)
  | nop =>
    obtain ⟨rfl, _⟩ := gives_ok_iff.1 given
    exact .atom .nop
  | shorthand => exact composed_readShorthand inner given
  | compound candidates => exact composed_readCompound inner given
  | cycle => exact composed_readCycle given
  | signedCycle =>
    obtain ⟨bracket, us, _, _, read⟩ := gives_readSignedCycle.1 given
    exact composed_readCycle read
  | inversion => exact composed_readWrapped inner given
  | reflection => exact composed_readWrapped inner given
  | repetition =>
    obtain ⟨count, _, repeated⟩ := gives_check_iff.1 given
    obtain ⟨us, _, wrapped⟩ := gives_readRepeated.1 repeated
    exact composed_readWrapped inner wrapped

theorem composed_extendBy {statement larger : Statement} {t : Token} {ts : List Token}
    {behind : Behind} (composed : statement.Composed r.dialect.Offers)
    (given : Gives (r.extendBy nested scope context statement t ts behind) larger rest) :
    larger.Composed r.dialect.Offers := by
  have alone : ∀ s ∈ [statement], s.Composed r.dialect.Offers := by
    intro s member
    obtain rfl := List.mem_singleton.1 member
    exact composed
  cases behind with
  | wrap w =>
    obtain ⟨rfl, _⟩ := gives_ok_iff.1 given
    exact .wrapped alone fun _ _ => ⟨statement, rfl⟩
  | count =>
    obtain ⟨count, _, same⟩ := gives_check_iff.1 given
    obtain ⟨rfl, _⟩ := gives_pure_iff.1 same
    exact .wrapped alone fun _ _ => ⟨statement, rfl⟩
  | countNext =>
    obtain ⟨_, _, _, same⟩ := gives_bind_iff.1 given
    obtain ⟨rfl, _⟩ := gives_pure_iff.1 same
    exact .wrapped alone fun _ _ => ⟨statement, rfl⟩
  | bracket candidates =>
    obtain ⟨second, u, construct, read, _, rfl⟩ := gives_readBracketBehind.1 given
    exact .paired alone (composed_readSequence inner read)
  | delimiter candidates =>
    obtain ⟨construct, u, us, second, _, _, read, rfl⟩ := gives_readDelimiterBehind.1 given
    have other := inner _ _ _ _ _ _ read
    refine .paired alone fun s member => ?_
    obtain rfl := List.mem_singleton.1 member
    exact other

theorem composed_readBehind {statement result : Statement} {ts : List Token}
    (composed : statement.Composed r.dialect.Offers)
    (given : Gives (r.readBehind nested scope context statement ts) result rest) :
    result.Composed r.dialect.Offers := by
  match ts with
  | [] =>
    obtain ⟨rfl, _⟩ := gives_readBehind_nil.1 given
    exact composed
  | t :: ts =>
    have went := gives_readBehind_cons.1 given
    split at went
    · obtain ⟨rfl, _⟩ := went
      exact composed
    · obtain ⟨larger, middle, extended, more⟩ := went
      have shorter : middle.length < (t :: ts).length :=
        Nat.lt_succ_of_le extended.suffix.length_le
      exact composed_readBehind (composed_extendBy inner composed extended) more
termination_by ts.length
decreasing_by exact shorter

end

/-- Statements nested up to any number of levels are made of what the dialect has. -/
theorem composes_readStatement (r : Reader) (levels : Nat) :
    Composes r.dialect (r.readStatement levels) := by
  induction levels with
  | zero =>
    intro scope context t ts statement rest given
    exact absurd given gives_readStatement_zero
  | succ levels ih =>
    intro scope context t ts statement rest given
    obtain ⟨beginning, middle, begun, went⟩ := gives_readStatement_succ.1 given
    obtain ⟨_, start, _, starts, read, _⟩ := gives_readBeginning.1 begun
    have usual : start ∈ r.dialect.starts t := by simp [starts]
    exact composed_readBehind ih (composed_readStart ih usual read) went

theorem composed_readStatements {text : String} {statements : List Statement}
    (read : r.readStatements text = .ok statements) :
    ∀ s ∈ statements, s.Composed r.dialect.Offers := by
  obtain ⟨left, given⟩ := readStatements_eq_ok_iff.1 read
  exact composed_readSequence (composes_readStatement r r.maxNesting) given

/-- Three letters are read as turns of a group before the comma shows that they name a corner. The
turns do not stay. -/
theorem nodeLabels_corners :
    nodeLabels (Reader.read { dialect := (Lexicon.standard ⟨2, by decide, by decide⟩).dialect }
      "[(RFU,LDB):D2]3") = some ["permutation", "move", "sequence", "sequence", "conjugation",
        "repetition", "sequence"] := by
  decide +kernel

end Reader

end CubeScript
