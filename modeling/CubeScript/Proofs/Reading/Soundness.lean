import CubeScript.Proofs.Reading.Cycles

/-!
# What is read has a derivation

A reader takes tokens off the front of what is left. Whatever is read as a script or a statement of
the standard dialect, the tokens that were taken are one of the grammar (`Takes`). A bracketed
statement has the operands and the marks that the grammar asks for, since a construct is only made
when it is the last candidate left. What stands behind a statement can be added to its derivation,
even if the statement is a rotation or begins with a count.
-/

namespace CubeScript

open Lexeme (mark)
open Reading

/-- Whether what is taken off the front of some tokens has a derivation. -/
def Takes (size : Size) (c : Category) (ts rest : List Token) : Prop :=
  ∃ us, ts = us ++ rest ∧ Derives size c (us.map Token.lexeme)

/-- Whether a way to read statements only reads those of the grammar. -/
def Sound (size : Size) (nested : Nested) : Prop :=
  ∀ scope context t ts statement rest, Gives (nested scope context t ts) statement rest →
    Takes size .statement (t :: ts) rest

namespace Reader

variable {r : Reader} {nested : Nested} {scope : Scope} {context : Diagnostic.Context}
  {ts rest : List Token}

/-- Statements are read up to a mark that ends them, or to the end of the text. -/
theorem ends_of_readSequence {stop : SymbolSet} {marks : List String}
    (ends : r.dialect.EndsAt stop marks) {ts : List Token} {statements : List Statement}
    (given : Gives (r.readSequence nested scope context stop ts) statements rest) :
    ∀ t ∈ rest.head?, ∃ w ∈ marks, t.lexeme = mark w := by
  match ts with
  | [] =>
    obtain ⟨_, rfl⟩ := gives_readSequence_nil.1 given
    nofun
  | t :: ts =>
    rw [gives_readSequence_cons] at given
    split at given
    · rename_i stops
      obtain ⟨_, rfl⟩ := given
      rintro _ ⟨⟩
      exact (ends t).1 stops
    · obtain ⟨_, middle, _, first, second, _⟩ := given
      have shorter : middle.length < (t :: ts).length :=
        Nat.lt_succ_of_le first.suffix.length_le
      exact ends_of_readSequence ends second
termination_by ts.length
decreasing_by exact shorter

/-- A turn is one token. -/
theorem rest_of_readStart_turn {t : Token} {statement : Statement}
    (given : Gives (r.readStart nested scope context t ts .turn) statement rest) : rest = ts := by
  rw [readStart] at given
  split at given
  · exact (gives_ok_iff.1 given).2
  · exact absurd given (not_gives_error _ _ _)

variable {size : Size} (sound : Sound size nested)

section

include sound

theorem takes_of_readSequence {stop : SymbolSet} {ts : List Token} {statements : List Statement}
    (given : Gives (r.readSequence nested scope context stop ts) statements rest) :
    Takes size .script ts rest := by
  match ts with
  | [] =>
    obtain ⟨_, rfl⟩ := gives_readSequence_nil.1 given
    exact ⟨[], rfl, .nil⟩
  | t :: ts =>
    rw [gives_readSequence_cons] at given
    split at given
    · obtain ⟨_, rfl⟩ := given
      exact ⟨[], rfl, .nil⟩
    · obtain ⟨statement, middle, _, first, second, _⟩ := given
      have shorter : middle.length < (t :: ts).length :=
        Nat.lt_succ_of_le first.suffix.length_le
      obtain ⟨us, same, derived⟩ := sound scope context t ts statement middle first
      obtain ⟨vs, rfl, others⟩ := takes_of_readSequence second
      refine ⟨us ++ vs, by rw [same, List.append_assoc], ?_⟩
      rw [List.map_append]
      exact .cons derived others
termination_by ts.length
decreasing_by exact shorter

/-- Behind a group's opening parenthesis stand a script and a closing one. -/
theorem script_of_readCompound_grouping (standard : r.dialect.IsStandard size) {opening : Token}
    {statement : Statement}
    (given : Gives (r.readCompound nested scope [.grouping] opening ts) statement rest) :
    ∃ us closing, ts = us ++ closing :: rest ∧ closing.lexeme = mark ")" ∧
      Derives size .script (us.map Token.lexeme) := by
  obtain ⟨first, t, left, read, went⟩ := gives_readCompound.1 given
  rw [if_pos (Dialect.IsStandard.delimitedBy_grouping t)] at went
  obtain ⟨construct, closed, done⟩ := gives_closeCompound.1 went
  rw [Option.isSome_none, standard.closedBy_grouping] at closed
  split at closed
  · rename_i closes
    cases closed
    obtain ⟨_, rfl⟩ := done
    obtain ⟨us, rfl, derived⟩ := takes_of_readSequence sound read
    exact ⟨us, t, rfl, closes, derived⟩
  · cases closed

/-- Behind an opening square bracket stand two scripts with a delimiter between them, and a closing
bracket. -/
theorem scripts_of_readCompound_square (standard : r.dialect.IsStandard size) {opening : Token}
    {statement : Statement} (given :
      Gives (r.readCompound nested scope [.commutation, .conjugation] opening ts) statement rest) :
    ∃ (p : Pairing) (delimiter : String), p.delimiter? = some delimiter ∧
      ∃ us comma vs closing, ts = us ++ comma :: (vs ++ closing :: rest) ∧
        comma.lexeme = mark delimiter ∧ closing.lexeme = mark "]" ∧
        Derives size .script (us.map Token.lexeme) ∧
        Derives size .script (vs.map Token.lexeme) := by
  obtain ⟨first, t, left, read, went⟩ := gives_readCompound.1 given
  obtain ⟨us, rfl, firstDerived⟩ := takes_of_readSequence sound read
  have delimited := standard.delimitedBy t
  have second {construct : Construct} (square : construct = .commutation ∨ construct = .conjugation)
      (one : r.delimitedBy t [.commutation, .conjugation] = [construct]) :
      ∃ vs closing, left = vs ++ closing :: rest ∧ closing.lexeme = mark "]" ∧
        Derives size .script (vs.map Token.lexeme) := by
    rw [one, if_neg (List.cons_ne_nil _ _)] at went
    obtain ⟨second, u, right, read, went⟩ := went
    obtain ⟨chosen, closed, done⟩ := gives_closeCompound.1 went
    rw [Option.isSome_some, standard.closedBy_second square] at closed
    split at closed
    · rename_i closes
      cases closed
      have left : rest = right := by
        obtain rfl | rfl := square <;> exact done.2
      obtain ⟨vs, rfl, derived⟩ := takes_of_readSequence sound read
      exact ⟨vs, u, by rw [left], closes, derived⟩
    · cases closed
  split at delimited
  · rename_i comma
    obtain ⟨vs, closing, rfl, closes, derived⟩ := second (.inl rfl) delimited
    exact ⟨.commutation, ",", rfl, us, t, vs, closing, rfl, comma, closes, firstDerived, derived⟩
  · split at delimited
    · rename_i colon
      obtain ⟨vs, closing, rfl, closes, derived⟩ := second (.inr rfl) delimited
      exact ⟨.conjugation, ":", rfl, us, t, vs, closing, rfl, colon, closes, firstDerived, derived⟩
    · rw [if_pos delimited] at went
      obtain ⟨construct, closed, _⟩ := gives_closeCompound.1 went
      rw [Option.isSome_none, standard.closedBy_first] at closed
      cases closed

/-- Behind an opening angle bracket stand a script, a closing bracket and a statement. -/
theorem operands_of_readCompound_rotation (standard : r.dialect.IsStandard size) {opening : Token}
    {statement : Statement}
    (given : Gives (r.readCompound nested scope [.rotation] opening ts) statement rest) :
    ∃ us closing vs, ts = us ++ closing :: (vs ++ rest) ∧ closing.lexeme = mark ">" ∧
      Derives size .script (us.map Token.lexeme) ∧
      Derives size .statement (vs.map Token.lexeme) := by
  obtain ⟨first, t, left, read, went⟩ := gives_readCompound.1 given
  rw [if_pos (standard.delimitedBy_rotation t)] at went
  obtain ⟨construct, closed, done⟩ := gives_closeCompound.1 went
  rw [Option.isSome_none, standard.closedBy_rotation] at closed
  split at closed
  · rename_i closes
    cases closed
    obtain ⟨u, ts, second, rfl, _, operand, _⟩ := gives_readSecond.1 done
    obtain ⟨us, rfl, firstDerived⟩ := takes_of_readSequence sound read
    obtain ⟨vs, same, derived⟩ := sound _ _ _ _ _ _ operand
    exact ⟨us, t, vs, by rw [same], closes, firstDerived, derived⟩
  · cases closed

/-- Behind a count stand an asterisk and a statement. -/
theorem operand_of_readRepeated (standard : r.dialect.IsStandard size) {count : Nat}
    {range : Range} {statement : Statement}
    (given : Gives (r.readRepeated nested scope count range ts) statement rest) :
    ∃ asterisk us, ts = asterisk :: (us ++ rest) ∧ asterisk.lexeme = mark "*" ∧
      Derives size .statement (us.map Token.lexeme) := by
  obtain ⟨left, operator | ⟨_, before, _⟩, read⟩ := gives_readRepeated.1 given
  · obtain ⟨asterisk, rfl, counts⟩ := operator
    rw [standard.countsNext, decide_eq_true_iff] at counts
    obtain ⟨t, vs, operand, rfl, done, _⟩ := gives_readWrapped.1 read
    obtain ⟨us, same, derived⟩ := sound _ _ _ _ _ _ done
    exact ⟨asterisk, us, by rw [same], counts, derived⟩
  · rw [standard.accepts] at before
    exact absurd before (by decide)

/-- However a statement begins, the beginning is a statement of the grammar. -/
theorem takes_of_readBeginning (standard : r.dialect.IsStandard size) {t : Token}
    {statement : Statement}
    (given : Gives (r.readBeginning nested scope context t ts) statement rest) :
    Takes size .statement (t :: ts) rest := by
  obtain ⟨earlier, start, later, starts, read, _⟩ := gives_readBeginning.1 given
  have member : start ∈ t.lexeme.starts size := by
    rw [← standard.starts, starts]
    simp
  have whole (us : List Token) (same : t :: ts = us ++ rest)
      (derived : Derives size .primary (us.map Token.lexeme)) :
      Takes size .statement (t :: ts) rest := by
    have bare := Derives.suffixed derived .nil
    rw [List.append_nil] at bare
    exact ⟨us, same, bare⟩
  cases Lexeme.begins_of_mem_starts member with
  | count _ =>
    obtain ⟨count, counted, done⟩ := gives_check_iff.1 read
    rw [repeatCount_eq_ok_iff, ← Token.number?_lexeme] at counted
    obtain ⟨asterisk, us, rfl, operator, derived⟩ := operand_of_readRepeated sound standard done
    refine ⟨t :: asterisk :: us, rfl, ?_⟩
    rw [List.map_cons, List.map_cons, operator]
    exact .counted counted derived
  | nop dot =>
    obtain ⟨_, rfl⟩ := gives_ok_iff.1 read
    refine whole [t] rfl ?_
    rw [List.map_singleton, dot]
    exact .nop
  | group opens =>
    obtain ⟨us, closing, rfl, closes, derived⟩ :=
      script_of_readCompound_grouping sound standard read
    refine whole (t :: (us ++ [closing])) (by simp) ?_
    rw [List.map_cons, List.map_append, List.map_singleton, opens, closes]
    exact .group derived
  | cycle opens =>
    obtain ⟨us, closing, signs, w, sign, items, rfl, closes, same, signed, parts, fits⟩ :=
      cycle_of_readCycle standard read
    refine whole (t :: (us ++ [closing])) (by simp) ?_
    rw [List.map_cons, List.map_append, List.map_singleton, opens, closes, same]
    exact .cycle signed parts fits
  | square opens =>
    obtain ⟨p, delimiter, delimits, us, comma, vs, closing, rfl, between, closes, first, second⟩ :=
      scripts_of_readCompound_square sound standard read
    refine whole (t :: (us ++ comma :: (vs ++ [closing]))) (by simp) ?_
    simp only [List.map_cons, List.map_append, List.map_nil, opens, between, closes]
    exact .paired delimits first second
  | angle opens =>
    obtain ⟨us, closing, vs, rfl, closes, first, second⟩ :=
      operands_of_readCompound_rotation sound standard read
    refine whole (t :: (us ++ closing :: vs)) (by simp) ?_
    simp only [List.map_cons, List.map_append, opens, closes]
    exact .rotation first second
  | turn keyword known =>
    have same : t.lexeme = mark t.text := Token.lexeme_eq_mark_iff.2 ⟨keyword, rfl⟩
    have left := rest_of_readStart_turn read
    refine whole [t] (by rw [left]; rfl) ?_
    rw [List.map_singleton, same]
    exact .turn known

end

/-! ### Behind a statement -/

/-- What a token makes of the statement before it, if reading goes on. -/
theorem suffix_of_extendBy (standard : r.dialect.IsStandard size) {t next : Token}
    {behind : Behind} {statement larger : Statement} (found : r.behind? t next = some behind)
    (given : Gives (r.extendBy nested scope context statement t ts behind) larger rest) :
    ∃ w, t.lexeme.suffix? = some w ∧ rest = ts ∧
      larger = .wrapped w [statement] ⟨statement.range.start, t.range.stop⟩ := by
  rw [standard.behind?, Lexeme.behind?] at found
  rw [Lexeme.suffix?]
  split at found
  · rename_i quote
    cases found
    obtain ⟨rfl, rfl⟩ := gives_ok_iff.1 given
    exact ⟨.inversion, if_pos quote, rfl, rfl⟩
  · rename_i noQuote
    split at found
    · rename_i tilde
      cases found
      obtain ⟨rfl, rfl⟩ := gives_ok_iff.1 given
      rw [if_neg noQuote]
      exact ⟨.reflection, if_pos tilde, rfl, rfl⟩
    · rename_i noTilde
      split at found
      · split at found
        · cases found
        · cases found
          obtain ⟨count, counted, done⟩ := gives_check_iff.1 given
          obtain ⟨rfl, rfl⟩ := gives_pure_iff.1 done
          rw [repeatCount_eq_ok_iff, ← Token.number?_lexeme] at counted
          rw [if_neg noQuote, if_neg noTilde, counted]
          exact ⟨.repetition count, rfl, rfl, rfl⟩
      · cases found

/-- What is read behind a statement are suffixes. -/
theorem suffixes_of_readBehind (standard : r.dialect.IsStandard size)
    {statement result : Statement}
    (given : Gives (r.readBehind nested scope context statement ts) result rest) :
    ∃ us wrappers, ts = us ++ rest ∧ Suffixes (us.map Token.lexeme) wrappers := by
  induction ts generalizing statement with
  | nil =>
    obtain ⟨_, rfl⟩ := gives_readBehind_nil.1 given
    exact ⟨[], [], rfl, .nil⟩
  | cons t ts ih =>
    have went := gives_readBehind_cons.1 given
    split at went
    · obtain ⟨_, rfl⟩ := went
      exact ⟨[], [], rfl, .nil⟩
    · rename_i behind found
      obtain ⟨larger, middle, extended, more⟩ := went
      obtain ⟨w, suffix, rfl, _⟩ := suffix_of_extendBy standard found extended
      obtain ⟨us, wrappers, rfl, suffixes⟩ := ih more
      exact ⟨t :: us, w :: wrappers, rfl, .cons suffix suffixes⟩

/-- Whatever is read as a statement is a statement of the grammar. -/
theorem sound_readStatement (standard : r.dialect.IsStandard size) (levels : Nat) :
    Sound size (r.readStatement levels) := by
  induction levels with
  | zero =>
    intro scope context t ts statement rest given
    exact absurd given gives_readStatement_zero
  | succ levels ih =>
    intro scope context t ts statement rest given
    obtain ⟨beginning, middle, begun, went⟩ := gives_readStatement_succ.1 given
    obtain ⟨us, same, derived⟩ := takes_of_readBeginning ih standard begun
    obtain ⟨vs, wrappers, rfl, suffixes⟩ := suffixes_of_readBehind standard went
    refine ⟨us ++ vs, by rw [same, List.append_assoc], ?_⟩
    rw [List.map_append]
    exact derived.append_suffixes rfl suffixes

/-- A text whose statements can be read is a script of the grammar. -/
theorem derives_of_readStatements (standard : r.dialect.IsStandard size) {text : String}
    {statements : List Statement} (read : r.readStatements text = .ok statements) :
    Derives size .script ((r.lexer.tokens text).map Token.lexeme) := by
  obtain ⟨left, given⟩ := readStatements_eq_ok_iff.1 read
  have ends := ends_of_readSequence standard.endsAt_empty given
  obtain ⟨us, same, derived⟩ := takes_of_readSequence (sound_readStatement standard _) given
  cases left with
  | nil =>
    rw [same, List.append_nil]
    exact derived
  | cons t left =>
    obtain ⟨w, member, _⟩ := ends t rfl
    cases member

end Reader

end CubeScript
