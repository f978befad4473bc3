import CubeScript.Proofs.Text.Scanning
import CubeScript.Proofs.Text.Splitting

/-!
# Blanks behind a text

Blanks behind a text change none of its tokens, and not even where they stand
(`Lexer.tokens_append_blanks`). A token that goes up to the end of the text ends there all the same,
as no keyword, number or word goes on with a blank. A comment that goes up to the end of the text
may take in blanks behind it, all of them or those up to a line break. Either way nothing but blanks
is left.

What is asked of the blanks is that they are part of nothing else that is looked for
(`Lexer.PlainBlank`).
-/

namespace CubeScript

namespace Lexer

/-- Whether a character is skipped, and is part of nothing that is looked for in a text. -/
structure PlainBlank (lexer : Lexer) (d : Char) : Prop where
  blank : lexer.blanks.contains d
  keywords : ∀ w, lexer.keywords.contains w → d ∉ w
  line : ∀ start, lexer.lineComment = some start → d ∉ start
  block : ∀ start stop, lexer.blockComment = some (start, stop) → d ∉ start ∧ d ∉ stop
  digit : d.isDigit = false
  word : isWordPart d = false

variable {lexer : Lexer} {ws : List Char}

/-! ### What is looked for -/

theorem opens_append_blanks {delimiter : List Char} (apart : ∀ d ∈ ws, d ∉ delimiter)
    (cs : List Char) : opens delimiter (cs ++ ws) = opens delimiter cs := by
  cases ws with
  | nil => rw [List.append_nil]
  | cons d ds => exact opens_append (apart d List.mem_cons_self) cs ds

/-- A pattern that is not found is not found either when blanks are put behind. -/
theorem find?_append_blanks {pattern : List Char} (apart : ∀ d ∈ ws, d ∉ pattern) {cs : List Char}
    (missing : find? pattern cs = none) : find? pattern (cs ++ ws) = none := by
  induction cs with
  | nil =>
    have filled : pattern ≠ [] := by
      rintro rfl
      cases missing
    clear missing
    rw [List.nil_append]
    induction ws with
    | nil => rw [find?, if_neg filled]
    | cons d ds ih =>
      have none : pattern.isPrefixOf (d :: ds) = false := by
        have same := isPrefixOf_append (apart d List.mem_cons_self) [] ds
        rw [List.nil_append] at same
        rw [same]
        cases pattern with
        | nil => exact absurd rfl filled
        | cons => rfl
      rw [find?, none, ih fun c member => apart c (List.mem_cons_of_mem d member)]
      rfl
  | cons c cs ih =>
    rw [find?] at missing
    split at missing
    · cases missing
    · rename_i other
      have same : pattern.isPrefixOf (c :: (cs ++ ws)) = pattern.isPrefixOf (c :: cs) := by
        cases ws with
        | nil => rw [List.append_nil]
        | cons d ds => exact isPrefixOf_append (apart d List.mem_cons_self) (c :: cs) ds
      rw [List.cons_append, find?, same, if_neg other, ih (Option.map_eq_none_iff.1 missing)]
      rfl

theorem find?_append_blanks_of_some {pattern : List Char} (apart : ∀ d ∈ ws, d ∉ pattern)
    {cs : List Char} {n : Nat} (found : find? pattern cs = some n) :
    find? pattern (cs ++ ws) = some n := by
  cases ws with
  | nil => rwa [List.append_nil]
  | cons d ds => exact find?_append (apart d List.mem_cons_self) found ds

theorem advance_append {n : Nat} {cs : List Char} (short : n ≤ cs.length) (offset : Nat)
    (ds : List Char) : (⟨offset, cs ++ ds⟩ : Cursor).advance n =
      ⟨((⟨offset, cs⟩ : Cursor).advance n).offset, cs.drop n ++ ds⟩ := by
  rw [Cursor.advance, List.take_append_of_le_length short, List.drop_append_of_le_length short]
  rfl

theorem tokenAt_append {cs ds : List Char} (kinds : lexer.classify (cs ++ ds) = lexer.classify cs)
    (short : (lexer.classify cs).2 ≤ cs.length) (filled : cs ≠ []) (offset : Nat) :
    lexer.tokenAt ⟨offset, cs ++ ds⟩ = lexer.tokenAt ⟨offset, cs⟩ := by
  rw [tokenAt, tokenAt, if_neg filled, if_neg (List.append_ne_nil_of_left_ne_nil filled ds), kinds]
  dsimp only
  rw [advance_append short, List.take_append_of_le_length short]

section

variable (plain : ∀ d ∈ ws, lexer.PlainBlank d)

include plain

/-- Blanks behind do not change how long a comment is, if it does not go up to the end. -/
theorem lineCommentLength?_append_blanks (cs : List Char) :
    lexer.lineCommentLength? (cs ++ ws) = lexer.lineCommentLength? cs ∨
      lexer.lineCommentLength? cs = some cs.length ∧
        ∃ m, lexer.lineCommentLength? (cs ++ ws) = some m ∧ cs.length ≤ m := by
  rw [lineCommentLength?, lineCommentLength?]
  cases known : lexer.lineComment with
  | none => exact .inl rfl
  | some start =>
    dsimp only
    rw [opens_append_blanks fun d member => (plain d member).line start known]
    split
    · rw [List.takeWhile_append]
      split
      · rename_i whole
        refine .inr ⟨congrArg some whole, _, rfl, ?_⟩
        rw [List.length_append]
        exact Nat.le_add_right ..
      · exact .inl rfl
    · exact .inl rfl

theorem blockCommentLength?_append_blanks (cs : List Char) :
    lexer.blockCommentLength? (cs ++ ws) = lexer.blockCommentLength? cs ∨
      lexer.blockCommentLength? cs = some cs.length ∧
        ∃ m, lexer.blockCommentLength? (cs ++ ws) = some m ∧ cs.length ≤ m := by
  rw [blockCommentLength?, blockCommentLength?]
  cases known : lexer.blockComment with
  | none => exact .inl rfl
  | some delimiters =>
    obtain ⟨start, stop⟩ := delimiters
    have apart (d : Char) (member : d ∈ ws) := (plain d member).block start stop known
    dsimp only
    rw [opens_append_blanks fun d member => (apart d member).1]
    split
    · rename_i opened
      have short := (prefix_of_opens opened).2.length_le
      rw [List.drop_append_of_le_length short]
      cases found : find? stop (cs.drop start.length) with
      | some n =>
        rw [find?_append_blanks_of_some (fun d member => (apart d member).2) found]
        exact .inl rfl
      | none =>
        rw [find?_append_blanks (fun d member => (apart d member).2) found]
        refine .inr ⟨rfl, _, rfl, ?_⟩
        rw [List.length_append]
        exact Nat.le_add_right ..
    · exact .inl rfl

theorem commentLength?_append_blanks (cs : List Char) :
    lexer.commentLength? (cs ++ ws) = lexer.commentLength? cs ∨
      lexer.commentLength? cs = some cs.length ∧
        ∃ m, lexer.commentLength? (cs ++ ws) = some m ∧ cs.length ≤ m := by
  rw [commentLength?, commentLength?]
  obtain line | ⟨whole, m, longer, le⟩ := lineCommentLength?_append_blanks plain cs
  · rw [line]
    cases lexer.lineCommentLength? cs with
    | some n => exact .inl rfl
    | none =>
      rw [Option.none_or, Option.none_or]
      exact blockCommentLength?_append_blanks plain cs
  · rw [whole, longer]
    exact .inr ⟨rfl, m, rfl, le⟩

theorem classify_append_blanks {cs : List Char} (filled : cs ≠ []) :
    lexer.classify (cs ++ ws) = lexer.classify cs := by
  cases ws with
  | nil => rw [List.append_nil]
  | cons d ds =>
    have last := plain d List.mem_cons_self
    exact classify_append last.keywords last.digit last.word filled ds

/-! ### The tokens -/

/-- There is no token in blanks. -/
theorem tokensFrom_of_blanks (breaks : lexer.Breaks) (offset : Nat) :
    lexer.tokensFrom ⟨offset, ws⟩ = [] := by
  induction ws generalizing offset with
  | nil => exact tokensFrom_of_nil lexer rfl
  | cons d ds ih =>
    rw [tokensFrom_of_blank breaks (plain d List.mem_cons_self).blank]
    exact ih (fun c member => plain c (List.mem_cons_of_mem d member)) _

/-- Blanks behind a text neither change its tokens nor move them. -/
theorem tokensFrom_append_blanks (breaks : lexer.Breaks) (offset : Nat) (cs : List Char) :
    lexer.tokensFrom ⟨offset, cs ++ ws⟩ = lexer.tokensFrom ⟨offset, cs⟩ := by
  match cs with
  | [] => rw [List.nil_append, tokensFrom_of_blanks plain breaks, tokensFrom_of_nil lexer rfl]
  | c :: cs =>
    by_cases blank : lexer.blanks.contains c
    · rw [List.cons_append, tokensFrom_of_blank breaks blank, tokensFrom_of_blank breaks blank]
      exact tokensFrom_append_blanks breaks _ cs
    · have same := commentLength?_append_blanks plain (c :: cs)
      rw [List.cons_append] at same
      cases comment : lexer.commentLength? (c :: cs) with
      | none =>
        rw [comment] at same
        obtain same | ⟨⟨⟩, _⟩ := same
        have kinds := classify_append_blanks plain (List.cons_ne_nil c cs)
        have short : (lexer.classify (c :: cs)).2 ≤ (c :: cs).length := classify_le
        have shorter := lexer.length_pastToken_lt (p := ⟨offset, c :: cs⟩) (List.cons_ne_nil c cs)
        rw [tokensFrom_of_token breaks blank comment, List.cons_append,
          tokensFrom_of_token breaks blank same, ← List.cons_append,
          tokenAt_append kinds short (List.cons_ne_nil c cs), pastToken, kinds,
          advance_append short, tokensFrom_append_blanks breaks _ ((c :: cs).drop _)]
        rfl
      | some n =>
        rw [tokensFrom_of_comment breaks blank comment, List.cons_append]
        obtain same | ⟨whole, m, longer, le⟩ := same
        · obtain ⟨positive, short⟩ := commentLength?_bounds breaks.advances comment
          rw [comment] at same
          have shorter : ((c :: cs).drop n).length < (c :: cs).length := by
            rw [List.length_drop, List.length_cons]
            omega
          rw [tokensFrom_of_comment breaks blank same, ← List.cons_append,
            advance_append short, tokensFrom_append_blanks breaks _ ((c :: cs).drop n)]
          rfl
        · -- The comment goes up to the end, and what it leaves of the blanks has no token.
          rw [comment] at whole
          cases whole
          have left : (c :: (cs ++ ws)).drop m = ws.drop (m - (c :: cs).length) := by
            rw [← List.cons_append, List.drop_append, List.drop_of_length_le le, List.nil_append]
          rw [tokensFrom_of_comment breaks blank longer, Cursor.advance, left,
            tokensFrom_of_blanks (fun d member => plain d (List.mem_of_mem_drop member)) breaks,
            tokensFrom_of_nil lexer List.drop_length]
termination_by cs.length
decreasing_by
  · exact Nat.lt_succ_self _
  · exact shorter
  · exact shorter

theorem tokens_append_blanks (breaks : lexer.Breaks) (text : String) :
    lexer.tokens (text ++ String.ofList ws) = lexer.tokens text := by
  rw [tokens, Cursor.start, String.toList_append, String.toList_ofList]
  exact tokensFrom_append_blanks plain breaks 0 text.toList

end

end Lexer

end CubeScript
