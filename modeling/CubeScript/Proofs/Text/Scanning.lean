import CubeScript.Proofs.Text.Keywords
import CubeScript.Proofs.Text.Skipping

/-!
# How a text is scanned

A token without its range is a lexeme. `Lexer.Scans` says which lexemes are at the front of some
characters and what comes behind them, one blank, comment or token at a time, with all that follows
in view, as the longest keyword may depend on it. Scanning up to the end gives the tokens of a text.

If no keyword has a line break in it, and neither has anything that opens or closes a comment, a
line break ends whatever comes before. Then a text goes on to be scanned as it is alone if a line
break is put behind it, unless it stops inside a block comment.
-/

namespace CubeScript

/-- A token without its range. -/
structure Lexeme where
  kind : Token.Kind
  text : String
  deriving DecidableEq, Repr

/-- What is left of a token without its range. -/
def Token.lexeme (t : Token) : Lexeme := ⟨t.kind, t.text⟩

namespace Lexeme

/-- A keyword. -/
def mark (text : String) : Lexeme := ⟨.keyword, text⟩

/-- The value of a number, if it has at most 32 binary digits. -/
def number? (l : Lexeme) : Option Nat := Token.number? ⟨l.kind, l.text, .zero⟩

theorem mark_inj {v w : String} : mark v = mark w ↔ v = w :=
  ⟨fun same => congrArg Lexeme.text same, fun same => congrArg mark same⟩

end Lexeme

namespace Token

@[simp] theorem number?_lexeme (t : Token) : t.lexeme.number? = t.number? := rfl

theorem lexeme_eq_mark_iff {t : Token} {w : String} :
    t.lexeme = .mark w ↔ t.kind = .keyword ∧ t.text = w := by
  simp [lexeme, Lexeme.mark]

end Token

namespace Lexer

/-! ### What a line break ends -/

/-- Whether a line break is skipped, and nothing that is looked for in a text has one. -/
structure Breaks (lexer : Lexer) : Prop where
  blank : lexer.blanks.contains '\n'
  keywords : ∀ w, lexer.keywords.contains w → '\n' ∉ w
  line : ∀ start, lexer.lineComment = some start → '\n' ∉ start
  block : ∀ start stop, lexer.blockComment = some (start, stop) → '\n' ∉ start ∧ '\n' ∉ stop

/-- Whether a block comment begins at the front of some characters and does not end in them. -/
def Unclosed (lexer : Lexer) (cs : List Char) : Prop :=
  lexer.lineCommentLength? cs = none ∧ ∃ start stop, lexer.blockComment = some (start, stop) ∧
    opens start cs ∧ find? stop (cs.drop start.length) = none

theorem isPrefixOf_append {pattern : List Char} {d : Char} (apart : d ∉ pattern)
    (cs ds : List Char) : pattern.isPrefixOf (cs ++ d :: ds) = pattern.isPrefixOf cs := by
  rw [Bool.eq_iff_iff, List.isPrefixOf_iff_prefix, List.isPrefixOf_iff_prefix,
    prefix_append_iff apart]

theorem opens_append {delimiter : List Char} {d : Char} (apart : d ∉ delimiter)
    (cs ds : List Char) : opens delimiter (cs ++ d :: ds) = opens delimiter cs := by
  rw [opens, opens, isPrefixOf_append apart]

theorem takeWhile_append {p : Char → Bool} {d : Char} (stops : p d = false) (cs ds : List Char) :
    (cs ++ d :: ds).takeWhile p = cs.takeWhile p := by
  induction cs with
  | nil => simp [stops]
  | cons c cs ih => simp only [List.cons_append, List.takeWhile_cons, ih]

theorem find?_append {pattern : List Char} {d : Char} (apart : d ∉ pattern) {cs : List Char}
    {n : Nat} (found : find? pattern cs = some n) (ds : List Char) :
    find? pattern (cs ++ d :: ds) = some n := by
  induction cs generalizing n with
  | nil =>
    rw [find?] at found
    split at found
    · rename_i empty
      cases found
      rw [empty]
      rfl
    · cases found
  | cons c cs ih =>
    have same := isPrefixOf_append apart (c :: cs) ds
    rw [List.cons_append] at same
    rw [find?] at found
    rw [List.cons_append, find?, same]
    split at found
    · rename_i here
      rw [if_pos here, found]
    · rename_i other
      obtain ⟨m, later, rfl⟩ := Option.map_eq_some_iff.1 found
      rw [if_neg other, ih later]
      rfl

variable {lexer : Lexer}

theorem lineCommentLength?_append (breaks : lexer.Breaks) (cs ds : List Char) :
    lexer.lineCommentLength? (cs ++ '\n' :: ds) = lexer.lineCommentLength? cs := by
  rw [lineCommentLength?, lineCommentLength?]
  cases known : lexer.lineComment with
  | none => rfl
  | some start =>
    dsimp only
    rw [opens_append (breaks.line start known), takeWhile_append (by decide)]

/-- A comment goes on as before if a line break is put behind the text. -/
theorem commentLength?_append (breaks : lexer.Breaks) {cs : List Char}
    (closed : ¬ lexer.Unclosed cs) (ds : List Char) :
    lexer.commentLength? (cs ++ '\n' :: ds) = lexer.commentLength? cs := by
  rw [commentLength?, commentLength?, lineCommentLength?_append breaks]
  cases line : lexer.lineCommentLength? cs with
  | some n => rfl
  | none =>
    rw [Option.none_or, Option.none_or, blockCommentLength?, blockCommentLength?]
    cases known : lexer.blockComment with
    | none => rfl
    | some delimiters =>
      obtain ⟨start, stop⟩ := delimiters
      obtain ⟨startApart, stopApart⟩ := breaks.block start stop known
      dsimp only
      rw [opens_append startApart]
      split
      · rename_i opened
        have short := (prefix_of_opens opened).2.length_le
        rw [List.drop_append_of_le_length short]
        cases found : find? stop (cs.drop start.length) with
        | some n => rw [find?_append stopApart found]
        | none => exact absurd ⟨line, start, stop, known, opened, found⟩ closed
      · rfl

/-- No comment begins with a line break. -/
theorem Breaks.advances (breaks : lexer.Breaks) : lexer.Advances := by
  intro start known first
  exact breaks.line start known (List.mem_of_mem_head? first)

/-- A character that no keyword, number or word has in it ends the token before it. -/
theorem classify_append {d : Char} (apart : ∀ w, lexer.keywords.contains w → d ∉ w)
    (digit : d.isDigit = false) (word : isWordPart d = false) {cs : List Char} (filled : cs ≠ [])
    (ds : List Char) : lexer.classify (cs ++ d :: ds) = lexer.classify cs := by
  have keyword : lexer.keywords.longest? (cs ++ d :: ds) = lexer.keywords.longest? cs :=
    Trie.longest?_append apart cs ds
  rw [classify.eq_def, classify.eq_def, keyword]
  cases cs with
  | nil => exact absurd rfl filled
  | cons c cs =>
    have digits : (cs ++ d :: ds).takeWhile Char.isDigit = cs.takeWhile Char.isDigit :=
      takeWhile_append digit cs ds
    have words : (cs ++ d :: ds).takeWhile isWordPart = cs.takeWhile isWordPart :=
      takeWhile_append word cs ds
    simp only [List.cons_append, digits, words]

theorem classify_le {cs : List Char} : (lexer.classify cs).2 ≤ cs.length := by
  rw [classify.eq_def]
  split
  · rename_i n found
    obtain ⟨w, longest, rfl⟩ := Trie.longest?_eq_some_iff.1 found
    exact longest.begins.length_le
  · cases cs with
    | nil => exact Nat.le_refl 0
    | cons c cs =>
      have digits := (List.takeWhile_sublist (l := cs) Char.isDigit).length_le
      have word := (List.takeWhile_sublist (l := cs) isWordPart).length_le
      dsimp only
      split
      · rw [List.length_cons]
        omega
      · split
        · rw [List.length_cons]
          omega
        · rw [List.length_cons]
          omega

/-! ### Going on step by step -/

theorem skipBlanks_of_blank {c : Char} (blank : lexer.blanks.contains c) (offset : Nat)
    (cs : List Char) :
    lexer.skipBlanks ⟨offset, c :: cs⟩ = lexer.skipBlanks ⟨offset + c.utf8Size, cs⟩ := by
  rw [skipBlanks, skipBlanks, List.takeWhile_cons_of_pos blank, List.length_cons]
  simp only [Cursor.advance, List.take_succ_cons, List.drop_succ_cons, byteLength_cons,
    Nat.add_assoc]

theorem skipBlanks_of_not {c : Char} (filled : ¬ lexer.blanks.contains c) (offset : Nat)
    (cs : List Char) : lexer.skipBlanks ⟨offset, c :: cs⟩ = ⟨offset, c :: cs⟩ := by
  rw [skipBlanks, List.takeWhile_cons_of_neg filled]
  simp [Cursor.advance]

theorem skip_of_blank (breaks : lexer.Breaks) {c : Char} (blank : lexer.blanks.contains c)
    (offset : Nat) (cs : List Char) :
    lexer.skip ⟨offset, c :: cs⟩ = lexer.skip ⟨offset + c.utf8Size, cs⟩ := by
  rw [skip_eq breaks.advances, skip_eq breaks.advances, skipBlanks_of_blank blank]

theorem skip_of_comment (breaks : lexer.Breaks) {c : Char} {cs : List Char}
    (filled : ¬ lexer.blanks.contains c) {n : Nat}
    (comment : lexer.commentLength? (c :: cs) = some n) (offset : Nat) :
    lexer.skip ⟨offset, c :: cs⟩ = lexer.skip ((⟨offset, c :: cs⟩ : Cursor).advance n) := by
  rw [skip_eq breaks.advances, skipBlanks_of_not filled, comment]

theorem skip_of_token (breaks : lexer.Breaks) {c : Char} {cs : List Char}
    (filled : ¬ lexer.blanks.contains c) (token : lexer.commentLength? (c :: cs) = none)
    (offset : Nat) : lexer.skip ⟨offset, c :: cs⟩ = ⟨offset, c :: cs⟩ := by
  rw [skip_eq breaks.advances, skipBlanks_of_not filled, token]

theorem tokensFrom_of_blank (breaks : lexer.Breaks) {c : Char} (blank : lexer.blanks.contains c)
    (offset : Nat) (cs : List Char) :
    lexer.tokensFrom ⟨offset, c :: cs⟩ = lexer.tokensFrom ⟨offset + c.utf8Size, cs⟩ := by
  rw [tokensFrom, skip_of_blank breaks blank, ← tokensFrom]

theorem tokensFrom_of_comment (breaks : lexer.Breaks) {c : Char} {cs : List Char}
    (filled : ¬ lexer.blanks.contains c) {n : Nat}
    (comment : lexer.commentLength? (c :: cs) = some n) (offset : Nat) :
    lexer.tokensFrom ⟨offset, c :: cs⟩ =
      lexer.tokensFrom ((⟨offset, c :: cs⟩ : Cursor).advance n) := by
  rw [tokensFrom, skip_of_comment breaks filled comment, ← tokensFrom]

theorem tokensFrom_of_token (breaks : lexer.Breaks) {c : Char} {cs : List Char}
    (filled : ¬ lexer.blanks.contains c) (token : lexer.commentLength? (c :: cs) = none)
    (offset : Nat) : lexer.tokensFrom ⟨offset, c :: cs⟩ = lexer.tokenAt ⟨offset, c :: cs⟩ ::
      lexer.tokensFrom (lexer.pastToken ⟨offset, c :: cs⟩) := by
  rw [tokensFrom, skip_of_token breaks filled token, dif_neg (List.cons_ne_nil c cs)]

/-- Scanning takes some lexemes off the front of some characters and leaves others. -/
inductive Scans (lexer : Lexer) : List Char → List Lexeme → List Char → Prop where
  | done {cs : List Char} : Scans lexer cs [] cs
  | blank {c : Char} {cs rest : List Char} {ls : List Lexeme} (blank : lexer.blanks.contains c)
    (later : Scans lexer cs ls rest) : Scans lexer (c :: cs) ls rest
  | comment {c : Char} {cs rest : List Char} {n : Nat} {ls : List Lexeme}
    (filled : ¬ lexer.blanks.contains c) (comment : lexer.commentLength? (c :: cs) = some n)
    (later : Scans lexer ((c :: cs).drop n) ls rest) : Scans lexer (c :: cs) ls rest
  | token {c : Char} {cs rest : List Char} {kind : Token.Kind} {n : Nat} {ls : List Lexeme}
    (filled : ¬ lexer.blanks.contains c) (token : lexer.commentLength? (c :: cs) = none)
    (classified : lexer.classify (c :: cs) = (kind, n))
    (later : Scans lexer ((c :: cs).drop n) ls rest) :
    Scans lexer (c :: cs) (⟨kind, String.ofList ((c :: cs).take n)⟩ :: ls) rest

/-- Whether a text ends inside a block comment that is not closed. -/
def EndsInComment (lexer : Lexer) (text : String) : Prop :=
  ∃ ls c rest, Scans lexer text.toList ls (c :: rest) ∧ ¬ lexer.blanks.contains c ∧
    lexer.Unclosed (c :: rest)

namespace Scans

variable {as bs cs : List Char} {ls ms : List Lexeme}

theorem append (first : Scans lexer as ls bs) (second : Scans lexer bs ms cs) :
    Scans lexer as (ls ++ ms) cs := by
  induction first with
  | done => exact second
  | blank blank _ ih => exact .blank blank (ih second)
  | comment filled comment _ ih => exact .comment filled comment (ih second)
  | token filled token classified _ ih => exact .token filled token classified (ih second)

/-- What is left is the end of what there was. -/
theorem suffix (scans : Scans lexer cs ls bs) : bs <:+ cs := by
  induction scans with
  | done => exact List.suffix_rfl
  | @blank c _ _ _ _ _ ih => exact ih.trans (List.suffix_cons c _)
  | comment _ _ _ ih => exact ih.trans (List.drop_suffix _ _)
  | token _ _ _ _ ih => exact ih.trans (List.drop_suffix _ _)

/-- There are no more lexemes than characters. -/
theorem length_le (scans : Scans lexer cs ls bs) : ls.length + bs.length ≤ cs.length := by
  induction scans with
  | done => simp
  | blank _ _ ih =>
    rw [List.length_cons]
    omega
  | comment _ _ _ ih =>
    rw [List.length_drop] at ih
    omega
  | @token c cs _ _ _ _ _ _ classified _ ih =>
    have positive := lexer.classify_pos (List.cons_ne_nil c cs)
    rw [classified] at positive
    rw [List.length_drop, List.length_cons] at ih
    rw [List.length_cons, List.length_cons]
    omega

/-- Every text can be scanned up to its end. -/
theorem exists_of_breaks (breaks : lexer.Breaks) (cs : List Char) :
    ∃ ls, Scans lexer cs ls [] := by
  match cs with
  | [] => exact ⟨[], .done⟩
  | c :: cs =>
    by_cases blank : lexer.blanks.contains c
    · obtain ⟨ls, later⟩ := exists_of_breaks breaks cs
      exact ⟨ls, .blank blank later⟩
    · cases comment : lexer.commentLength? (c :: cs) with
      | some n =>
        obtain ⟨positive, _⟩ := commentLength?_bounds breaks.advances comment
        have shorter : ((c :: cs).drop n).length < (c :: cs).length := by
          rw [List.length_drop, List.length_cons]
          omega
        obtain ⟨ls, later⟩ := exists_of_breaks breaks ((c :: cs).drop n)
        exact ⟨ls, .comment blank comment later⟩
      | none =>
        have positive := lexer.classify_pos (List.cons_ne_nil c cs)
        have shorter : ((c :: cs).drop (lexer.classify (c :: cs)).2).length <
            (c :: cs).length := by
          rw [List.length_drop, List.length_cons]
          omega
        obtain ⟨ls, later⟩ := exists_of_breaks breaks ((c :: cs).drop (lexer.classify (c :: cs)).2)
        exact ⟨_, .token blank comment rfl later⟩
termination_by cs.length
decreasing_by
  · exact Nat.lt_succ_self _
  · exact shorter
  · exact shorter

/-- What is scanned up to the end are the tokens. -/
theorem map_tokensFrom (breaks : lexer.Breaks) (scans : Scans lexer cs ls []) (offset : Nat) :
    (lexer.tokensFrom ⟨offset, cs⟩).map Token.lexeme = ls := by
  generalize none : [] = rest at scans
  induction scans generalizing offset with
  | done =>
    subst none
    have skipped : (lexer.skip ⟨offset, []⟩).rest = [] :=
      List.length_eq_zero_iff.1 (Nat.le_zero.1 (lexer.length_skip_le ⟨offset, []⟩))
    rw [tokensFrom, dif_pos skipped]
    rfl
  | @blank c cs rest ls blank _ ih =>
    rw [tokensFrom_of_blank breaks blank]
    exact ih _ none
  | @comment c cs rest n ls filled comment _ ih =>
    rw [tokensFrom_of_comment breaks filled comment]
    exact ih _ none
  | @token c cs rest kind n ls filled token classified _ ih =>
    rw [tokensFrom_of_token breaks filled token, List.map_cons, pastToken, tokenAt,
      if_neg (List.cons_ne_nil c cs), classified]
    exact congrArg _ (ih _ none)

theorem lexemes_of_tokens (breaks : lexer.Breaks) {text : String}
    (scans : Scans lexer text.toList ls []) : (lexer.tokens text).map Token.lexeme = ls :=
  scans.map_tokensFrom breaks 0

theorem of_tokens (breaks : lexer.Breaks) (text : String) :
    Scans lexer text.toList ((lexer.tokens text).map Token.lexeme) [] := by
  obtain ⟨ls, scans⟩ := exists_of_breaks breaks text.toList
  rwa [scans.lexemes_of_tokens breaks]

/-- A text is scanned as it is alone if a line break is put behind it. -/
theorem line_break (breaks : lexer.Breaks) (scans : Scans lexer cs ls [])
    (closed : ∀ ms c rest, Scans lexer cs ms (c :: rest) → ¬ lexer.blanks.contains c →
      ¬ lexer.Unclosed (c :: rest)) (ds : List Char) : Scans lexer (cs ++ '\n' :: ds) ls ds := by
  generalize none : [] = rest at scans
  induction scans with
  | done =>
    subst none
    exact .blank breaks.blank .done
  | blank blank _ ih =>
    refine .blank blank (ih (fun ms c rest later => closed ms c rest (.blank blank later)) none)
  | @comment c cs rest n ls filled comment _ ih =>
    have inside := (commentLength?_bounds breaks.advances comment).2
    have same := commentLength?_append breaks (closed [] c cs .done filled) ds
    have later := ih (fun ms c rest later => closed ms c rest (.comment filled comment later)) none
    rw [← List.drop_append_of_le_length inside] at later
    exact .comment filled (same.trans comment) later
  | @token c cs rest kind n ls filled token classified _ ih =>
    have inside : n ≤ (c :: cs).length := by
      have short : (lexer.classify (c :: cs)).2 ≤ (c :: cs).length := classify_le
      rwa [classified] at short
    have same := commentLength?_append breaks (closed [] c cs .done filled) ds
    have kinds := classify_append breaks.keywords (by decide) (by decide) (List.cons_ne_nil c cs) ds
    have later := ih (fun ms c rest later =>
      closed _ c rest (.token filled token classified later)) none
    rw [← List.drop_append_of_le_length inside] at later
    have taken : (c :: cs).take n = (c :: cs ++ '\n' :: ds).take n :=
      (List.take_append_of_le_length inside).symm
    rw [taken]
    exact .token filled (same.trans token) (kinds.trans classified) later

/-- A text that does not end inside a comment may be put before anything else if a line break is put
behind it. -/
theorem of_closed (breaks : lexer.Breaks) {text : String} (closed : ¬ lexer.EndsInComment text)
    (ds : List Char) :
    Scans lexer (text.toList ++ '\n' :: ds) ((lexer.tokens text).map Token.lexeme) ds := by
  refine (Scans.of_tokens breaks text).line_break breaks ?_ ds
  intro ms c rest scans filled unclosed
  exact closed ⟨ms, c, rest, scans, filled, unclosed⟩

end Scans

/-- A text does not end inside a comment if it has not all the characters that one begins with. -/
theorem not_endsInComment_of_lacks {text : String} (lacks : ∀ start stop,
    lexer.blockComment = some (start, stop) → ∃ c ∈ start, c ∉ text.toList) :
    ¬ lexer.EndsInComment text := by
  rintro ⟨ls, c, rest, scans, _, _, start, stop, known, opened, _⟩
  obtain ⟨d, inside, apart⟩ := lacks start stop known
  exact apart (scans.suffix.subset ((prefix_of_opens opened).2.subset inside))

end Lexer

end CubeScript
