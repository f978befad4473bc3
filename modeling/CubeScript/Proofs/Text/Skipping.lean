import CubeScript.Text.Lexer
import Mathlib.Data.List.TakeWhile

/-!
# What lies between tokens

Skipping goes in rounds: past the blanks, and past a comment behind them if there is one. It comes
to an end if every comment has a character. A comment only has none if it goes to the end of the
line and the line ends right where it begins, so no delimiter of such comments may begin with a line
break (`Lexer.Advances`). Then the rounds end (`Lexer.skips_skip`). They end where no blank and no
comment begins.

What has been skipped is blanks and comments put together (`Lexer.Gap`). Whether some characters
are a comment depends on what comes behind them, as a comment goes as far as it can.
-/

namespace CubeScript

namespace Cursor

/-- Whether a cursor has gone past some characters to get where another one is. -/
structure Passes (p : Cursor) (passed : List Char) (q : Cursor) : Prop where
  rest : p.rest = passed ++ q.rest
  offset : q.offset = p.offset + byteLength passed

namespace Passes

variable {p q r : Cursor} {cs ds : List Char}

theorem nil (p : Cursor) : p.Passes [] p := ⟨rfl, rfl⟩

theorem append (first : p.Passes cs q) (second : q.Passes ds r) : p.Passes (cs ++ ds) r where
  rest := by rw [first.rest, second.rest, List.append_assoc]
  offset := by rw [second.offset, first.offset, byteLength_append, Nat.add_assoc]

theorem textEnd_eq (passes : p.Passes cs q) : q.textEnd = p.textEnd := by
  rw [textEnd, textEnd, passes.rest, passes.offset, byteLength_append, Nat.add_assoc]

theorem advance (p : Cursor) (count : Nat) : p.Passes (p.rest.take count) (p.advance count) :=
  ⟨(List.take_append_drop count p.rest).symm, rfl⟩

/-- Going past as many characters as some text has goes past that text. -/
theorem advance_length {p : Cursor} {cs ds : List Char} (same : p.rest = cs ++ ds) :
    p.Passes cs (p.advance cs.length) ∧ (p.advance cs.length).rest = ds := by
  have taken : p.rest.take cs.length = cs := by rw [same, List.take_left]
  refine ⟨?_, ?_⟩
  · have passes := advance p cs.length
    rwa [taken] at passes
  · rw [Cursor.advance, same]
    exact List.drop_left

end Passes

end Cursor

namespace Lexer

/-! ### Finding a delimiter -/

/-- A pattern is found where it occurs first. -/
theorem find?_eq_some {pattern cs : List Char} {n : Nat} (found : find? pattern cs = some n) :
    pattern <+: cs.drop n ∧ ∀ m < n, ¬ pattern <+: cs.drop m := by
  induction cs generalizing n with
  | nil =>
    rw [find?] at found
    split at found
    · rename_i empty
      cases found
      exact ⟨empty ▸ List.nil_prefix, nofun⟩
    · cases found
  | cons c cs ih =>
    rw [find?] at found
    split at found
    · rename_i here
      cases found
      exact ⟨List.isPrefixOf_iff_prefix.1 here, nofun⟩
    · rename_i other
      obtain ⟨m, later, rfl⟩ := Option.map_eq_some_iff.1 found
      obtain ⟨begins, first⟩ := ih later
      refine ⟨begins, fun k before => ?_⟩
      cases k with
      | zero => exact fun here => other (List.isPrefixOf_iff_prefix.2 here)
      | succ k => exact first k (Nat.lt_of_succ_lt_succ before)

/-- A pattern that is not found does not occur. -/
theorem not_prefix_of_find? {pattern cs : List Char} (missing : find? pattern cs = none) (m : Nat) :
    ¬ pattern <+: cs.drop m := by
  induction cs generalizing m with
  | nil =>
    rw [find?] at missing
    split at missing
    · cases missing
    · rename_i filled
      rw [List.drop_nil]
      exact fun begins => filled (List.prefix_nil.1 begins)
  | cons c cs ih =>
    rw [find?] at missing
    split at missing
    · cases missing
    · rename_i other
      cases m with
      | zero => exact fun here => other (List.isPrefixOf_iff_prefix.2 here)
      | succ m => exact ih (Option.map_eq_none_iff.1 missing) m

theorem prefix_of_opens {delimiter cs : List Char} (opened : opens delimiter cs) :
    delimiter ≠ [] ∧ delimiter <+: cs := by
  rw [opens, Bool.and_eq_true, decide_eq_true_iff] at opened
  exact ⟨opened.1, List.isPrefixOf_iff_prefix.1 opened.2⟩

/-! ### Comments -/

/-- Whether some characters are a comment that goes to the end of the line, with given characters
behind them. -/
def LineComment (lexer : Lexer) (comment behind : List Char) : Prop :=
  ∃ start, lexer.lineComment = some start ∧ start ≠ [] ∧ start <+: comment ++ behind ∧
    '\n' ∉ comment ∧ (behind = [] ∨ ∃ cs, behind = '\n' :: cs)

/-- Whether some characters are a comment between delimiters, with given characters behind them. Its
closing delimiter is the first one behind the opening one. If there is none, it is all that is left
of the text. -/
def BlockComment (lexer : Lexer) (comment behind : List Char) : Prop :=
  ∃ start stop body, lexer.blockComment = some (start, stop) ∧ start ≠ [] ∧
    (comment = start ++ body ++ stop ∧
        (∀ m < body.length, ¬ stop <+: (body ++ stop ++ behind).drop m) ∨
      comment = start ++ body ∧ behind = [] ∧ ∀ m, ¬ stop <+: body.drop m)

/-- Whether no comment that goes to the end of the line begins with the end of a line. -/
def Advances (lexer : Lexer) : Prop :=
  ∀ start, lexer.lineComment = some start → start.head? ≠ some '\n'

variable {lexer : Lexer} {cs : List Char} {n : Nat}

theorem lineComment_of_length? (found : lexer.lineCommentLength? cs = some n) :
    ∃ comment behind, cs = comment ++ behind ∧ n = comment.length ∧
      lexer.LineComment comment behind := by
  rw [lineCommentLength?] at found
  cases known : lexer.lineComment with
  | none => simp [known] at found
  | some start =>
    simp only [known] at found
    split at found
    · rename_i opened
      obtain ⟨filled, begins⟩ := prefix_of_opens opened
      have split :=
        List.takeWhile_append_dropWhile (p := fun c : Char => decide (c ≠ '\n')) (l := cs)
      refine ⟨cs.takeWhile (· ≠ '\n'), cs.dropWhile (· ≠ '\n'), split.symm,
        (Option.some.inj found).symm, start, known, filled, ?_, ?_, ?_⟩
      · rwa [split]
      · intro member
        have other := List.mem_takeWhile_imp member
        exact of_decide_eq_true other rfl
      · cases left : cs.dropWhile (· ≠ '\n') with
        | nil => exact .inl rfl
        | cons c ds =>
          have stops := List.head?_dropWhile_not (fun c : Char => decide (c ≠ '\n')) cs
          rw [left] at stops
          simp only [List.head?_cons, decide_not, Bool.not_eq_false', decide_eq_true_eq] at stops
          exact .inr ⟨ds, by rw [stops]⟩
    · cases found

theorem blockComment_of_length? (found : lexer.blockCommentLength? cs = some n) :
    ∃ comment behind, cs = comment ++ behind ∧ n = comment.length ∧
      lexer.BlockComment comment behind := by
  rw [blockCommentLength?] at found
  cases known : lexer.blockComment with
  | none => simp [known] at found
  | some delimiters =>
    obtain ⟨start, stop⟩ := delimiters
    simp only [known] at found
    split at found
    · rename_i opened
      obtain ⟨filled, body, rfl⟩ := prefix_of_opens opened
      rw [List.drop_left] at found
      cases closed : find? stop body with
      | some m =>
        simp only [closed, Option.some.injEq] at found
        obtain ⟨⟨behind, closes⟩, first⟩ := find?_eq_some closed
        have inside : m ≤ body.length := by
          by_contra outside
          rw [List.drop_eq_nil_of_le (by omega), List.append_eq_nil_iff] at closes
          refine first body.length (by omega) ?_
          rw [closes.1]
          exact List.nil_prefix
        have whole : body.take m ++ stop ++ behind = body := by
          rw [List.append_assoc, closes, List.take_append_drop]
        have long : (body.take m).length = m := List.length_take_of_le inside
        refine ⟨start ++ body.take m ++ stop, behind, ?_, ?_, start, stop, body.take m, known,
          filled, .inl ⟨rfl, ?_⟩⟩
        · rw [List.append_assoc, List.append_assoc, ← List.append_assoc (body.take m), whole]
        · simp only [List.length_append, long]
          exact found.symm
        · rw [long, whole]
          exact first
      | none =>
        simp only [closed, Option.some.injEq] at found
        exact ⟨start ++ body, [], (List.append_nil _).symm, found.symm, start, stop, body, known,
          filled, .inr ⟨rfl, rfl, not_prefix_of_find? closed⟩⟩
    · cases found

/-- What is skipped as a comment is one. -/
theorem comment_of_length? (found : lexer.commentLength? cs = some n) :
    ∃ comment behind, cs = comment ++ behind ∧ n = comment.length ∧
      (lexer.LineComment comment behind ∨ lexer.BlockComment comment behind) := by
  rw [commentLength?, Option.or_eq_some_iff] at found
  obtain line | ⟨_, block⟩ := found
  · obtain ⟨comment, behind, split, length, is⟩ := lineComment_of_length? line
    exact ⟨comment, behind, split, length, .inl is⟩
  · obtain ⟨comment, behind, split, length, is⟩ := blockComment_of_length? block
    exact ⟨comment, behind, split, length, .inr is⟩

theorem Advances.comment_ne_nil (advances : lexer.Advances) {comment behind : List Char}
    (is : lexer.LineComment comment behind ∨ lexer.BlockComment comment behind) :
    comment ≠ [] := by
  rintro rfl
  obtain ⟨start, known, filled, begins, _, line⟩ | ⟨start, stop, body, _, filled, closed⟩ := is
  · obtain rfl | ⟨cs, rfl⟩ := line
    · exact filled (List.prefix_nil.1 begins)
    · cases start with
      | nil => exact filled rfl
      | cons c start =>
        obtain ⟨rfl, _⟩ := List.cons_prefix_cons.1 begins
        exact advances _ known rfl
  · obtain ⟨same, _⟩ | ⟨same, _⟩ := closed
    all_goals
      have empty := congrArg List.length same
      have positive := List.length_pos_iff.2 filled
      simp only [List.length_append, List.length_nil] at empty
      omega

/-- A comment has at least one character and ends in the text. -/
theorem commentLength?_bounds (advances : lexer.Advances)
    (found : lexer.commentLength? cs = some n) : 0 < n ∧ n ≤ cs.length := by
  obtain ⟨comment, behind, rfl, rfl, is⟩ := comment_of_length? found
  refine ⟨List.length_pos_iff.2 (advances.comment_ne_nil is), ?_⟩
  rw [List.length_append]
  exact Nat.le_add_right ..

/-! ### Skipping -/

/-- How skipping goes from one cursor to another, round by round. It only relates cursors between
which there are finitely many rounds. -/
inductive Skips (lexer : Lexer) : Cursor → Cursor → Prop where
  | last {p : Cursor} (none : lexer.commentLength? (lexer.skipBlanks p).rest = none) :
    Skips lexer p (lexer.skipBlanks p)
  | round {p q : Cursor} {length : Nat}
    (comment : lexer.commentLength? (lexer.skipBlanks p).rest = some length)
    (later : Skips lexer ((lexer.skipBlanks p).advance length) q) : Skips lexer p q

/-- Comments are skipped, as they have at least one character. -/
theorem skip_eq (advances : lexer.Advances) (p : Cursor) :
    lexer.skip p = match lexer.commentLength? (lexer.skipBlanks p).rest with
      | none => lexer.skipBlanks p
      | some length => lexer.skip ((lexer.skipBlanks p).advance length) := by
  rw [skip]
  cases comment : lexer.commentLength? (lexer.skipBlanks p).rest with
  | none => rfl
  | some length =>
    obtain ⟨positive, inside⟩ := commentLength?_bounds advances comment
    have short := lexer.length_skipBlanks_le p
    have shorter := Cursor.length_rest_advance (lexer.skipBlanks p) length
    dsimp only
    rw [if_pos (by omega)]

/-- Skipping comes to an end. -/
theorem skips_skip (advances : lexer.Advances) (p : Cursor) : lexer.Skips p (lexer.skip p) := by
  rw [skip_eq advances]
  cases comment : lexer.commentLength? (lexer.skipBlanks p).rest with
  | none => exact .last comment
  | some length =>
    obtain ⟨positive, inside⟩ := commentLength?_bounds advances comment
    have shorter : ((lexer.skipBlanks p).advance length).rest.length < p.rest.length := by
      have short := lexer.length_skipBlanks_le p
      rw [Cursor.length_rest_advance]
      omega
    exact .round comment (skips_skip advances _)
termination_by p.rest.length

/-- Where a comment begins that goes to the end of the line and begins with it, no round is the last
one. -/
theorem not_skips {start : List Char} (known : lexer.lineComment = some ('\n' :: start))
    (filled : '\n' ∉ lexer.blanks) {p : Cursor} (begins : '\n' :: start <+: p.rest)
    (q : Cursor) : ¬ lexer.Skips p q := by
  have stays {p : Cursor} (begins : '\n' :: start <+: p.rest) :
      lexer.skipBlanks p = p ∧ lexer.commentLength? p.rest = some 0 ∧ p.advance 0 = p := by
    obtain ⟨offset, cs⟩ := p
    obtain ⟨behind, rfl⟩ := begins
    refine ⟨?_, ?_, rfl⟩
    · simp [skipBlanks, Cursor.advance, filled]
    · simp [commentLength?, lineCommentLength?, known, opens]
  intro skips
  induction skips with
  | last none =>
    obtain ⟨same, comment, _⟩ := stays begins
    rw [same, comment] at none
    cases none
  | round comment _ ih =>
    obtain ⟨same, found, back⟩ := stays begins
    rw [same, found] at comment
    cases comment
    rw [same, back] at ih
    exact ih begins

/-- Some characters made of blanks and comments, with given characters behind them. -/
inductive Gap (lexer : Lexer) (behind : List Char) : List Char → Prop where
  | nil : Gap lexer behind []
  | blank {c : Char} {cs : List Char} (blank : c ∈ lexer.blanks) (more : Gap lexer behind cs) :
    Gap lexer behind (c :: cs)
  | line {comment cs : List Char} (line : lexer.LineComment comment (cs ++ behind))
    (more : Gap lexer behind cs) : Gap lexer behind (comment ++ cs)
  | block {comment cs : List Char} (block : lexer.BlockComment comment (cs ++ behind))
    (more : Gap lexer behind cs) : Gap lexer behind (comment ++ cs)

theorem Gap.blanks {behind cs ds : List Char} (blank : ∀ c ∈ cs, c ∈ lexer.blanks)
    (gap : lexer.Gap behind ds) : lexer.Gap behind (cs ++ ds) := by
  induction cs with
  | nil => exact gap
  | cons c cs ih =>
    refine .blank (blank c List.mem_cons_self) (ih fun d member => ?_)
    exact blank d (List.mem_cons_of_mem c member)

theorem passes_skipBlanks (lexer : Lexer) (p : Cursor) :
    ∃ cs, p.Passes cs (lexer.skipBlanks p) ∧ ∀ c ∈ cs, c ∈ lexer.blanks := by
  have split := List.takeWhile_append_dropWhile (p := lexer.blanks.contains) (l := p.rest)
  refine ⟨_, (Cursor.Passes.advance_length split.symm).1, fun c member => ?_⟩
  exact List.contains_iff_mem.1 (List.mem_takeWhile_imp member)

/-- What has been skipped is blanks and comments. -/
theorem exists_gap_skip (lexer : Lexer) (p : Cursor) :
    ∃ gap, p.Passes gap (lexer.skip p) ∧ lexer.Gap (lexer.skip p).rest gap := by
  fun_induction lexer.skip p with
  | case1 p q =>
    obtain ⟨cs, passes, blank⟩ := lexer.passes_skipBlanks p
    refine ⟨cs, passes, ?_⟩
    rw [← List.append_nil cs]
    exact .blanks blank .nil
  | case2 p q length found _ ih =>
    obtain ⟨cs, passes, blank⟩ := lexer.passes_skipBlanks p
    obtain ⟨gap, later, between⟩ := ih
    obtain ⟨comment, behind, split, rfl, is⟩ := comment_of_length? found
    obtain ⟨past, left⟩ := Cursor.Passes.advance_length split
    rw [← left, later.rest] at is
    refine ⟨cs ++ (comment ++ gap), passes.append (past.append later), .blanks blank ?_⟩
    obtain line | block := is
    · exact .line line between
    · exact .block block between
  | case3 p q =>
    obtain ⟨cs, passes, blank⟩ := lexer.passes_skipBlanks p
    refine ⟨cs, passes, ?_⟩
    rw [← List.append_nil cs]
    exact .blanks blank .nil

/-- Whether neither a blank nor a comment begins at the front of some characters. -/
def Clear (lexer : Lexer) (cs : List Char) : Prop :=
  (∀ c ∈ cs.head?, c ∉ lexer.blanks) ∧ lexer.commentLength? cs = none

/-- Skipping ends where there is nothing to skip. -/
theorem Skips.clear {p q : Cursor} (skips : lexer.Skips p q) : lexer.Clear q.rest := by
  induction skips with
  | @last p none =>
    refine ⟨fun c first blank => ?_, none⟩
    have stops := List.head?_dropWhile_not lexer.blanks.contains p.rest
    have left : (lexer.skipBlanks p).rest = p.rest.dropWhile lexer.blanks.contains :=
      (Cursor.Passes.advance_length
        (List.takeWhile_append_dropWhile (p := lexer.blanks.contains)).symm).2
    rw [← left, Option.mem_def.1 first] at stops
    simp only [List.contains_eq_mem, blank, decide_true, Bool.true_eq_false] at stops
  | round _ _ ih => exact ih

end Lexer

end CubeScript
