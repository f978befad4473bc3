import CubeScript.Proofs.Text.Scanning
import CubeScript.Proofs.Text.Splitting

/-!
# Putting something else in the place of a token

What comes before a token in a text ends where the token begins. If another text is put there, this
is still so, provided that its first character cannot go on with what comes before it either: it is
in no keyword but itself, it is no word character, and no comment is opened with it
(`Lexer.Separates`). Then the text before it is scanned as it was (`Lexer.Scans.replace`).

All of this is about the first character `c` of the token and the first character `d` of what is put
in its place.
-/

namespace CubeScript

namespace Lexer

/-- Whether a text that ends before one character ends in the same way before another one. -/
structure Separates (lexer : Lexer) (c d : Char) : Prop where
  line : ∀ start, lexer.lineComment = some start → c ∉ start ∧ d ∉ start
  block : ∀ start stop, lexer.blockComment = some (start, stop) → c ∉ start ∧ d ∉ start
  alone : ∀ w, lexer.keywords.contains w → d ∈ w → w = [d]
  unbroken : c ≠ '\n'
  digit : d.isDigit = false
  word : isWordPart d = false

/-! ### What ends before the place -/

theorem takeWhile_replace {p : Char → Bool} {d : Char} (stops : p d = false) {as cs : List Char}
    (short : ((as ++ cs).takeWhile p).length ≤ as.length) (ds : List Char) :
    (as ++ d :: ds).takeWhile p = (as ++ cs).takeWhile p := by
  rw [takeWhile_append stops]
  induction as with
  | nil => exact (List.eq_nil_of_length_eq_zero (Nat.le_zero.1 short)).symm
  | cons a as ih =>
    rw [List.cons_append, List.takeWhile_cons] at short ⊢
    rw [List.takeWhile_cons]
    split at short
    · rename_i more
      rw [if_pos more, if_pos more, ih (Nat.le_of_succ_le_succ short)]
    · rename_i stopped
      rw [if_neg stopped, if_neg stopped]

/-- What would go on at the place has ended before it. -/
theorem takeWhile_replace_of_pos {p : Char → Bool} {c : Char} (goes : p c) {as cs : List Char}
    (short : ((as ++ c :: cs).takeWhile p).length ≤ as.length) (ds : List Char) :
    (as ++ ds).takeWhile p = (as ++ c :: cs).takeWhile p := by
  induction as with
  | nil =>
    rw [List.nil_append, List.takeWhile_cons_of_pos goes] at short
    cases short
  | cons a as ih =>
    rw [List.cons_append, List.takeWhile_cons] at short ⊢
    rw [List.cons_append, List.takeWhile_cons]
    split at short
    · rename_i more
      rw [if_pos more, if_pos more, ih (Nat.le_of_succ_le_succ short)]
    · rename_i stopped
      rw [if_neg stopped, if_neg stopped]

theorem find?_replace {pattern as cs : List Char} {n : Nat}
    (found : find? pattern (as ++ cs) = some n) (short : n + pattern.length ≤ as.length)
    (ds : List Char) : find? pattern (as ++ ds) = some n := by
  induction as generalizing n with
  | nil =>
    obtain ⟨rfl, empty⟩ := Nat.add_eq_zero_iff.1 (Nat.le_zero.1 short)
    rw [List.eq_nil_of_length_eq_zero empty]
    cases ds <;> rfl
  | cons a as ih =>
    have inside : pattern.length ≤ (a :: as).length := by omega
    have local_ (es : List Char) : pattern.isPrefixOf (a :: (as ++ es)) =
        pattern.isPrefixOf (a :: as) := by
      rw [Bool.eq_iff_iff, List.isPrefixOf_iff_prefix, List.isPrefixOf_iff_prefix,
        ← List.cons_append]
      exact ⟨fun begins => List.prefix_of_prefix_length_le begins (List.prefix_append ..) inside,
        fun begins => begins.trans (List.prefix_append ..)⟩
    rw [List.cons_append, find?, local_] at found ⊢
    split at found
    · rename_i here
      rw [if_pos here, found]
    · rename_i other
      obtain ⟨m, later, rfl⟩ := Option.map_eq_some_iff.1 found
      rw [List.length_cons] at short
      rw [if_neg other, ih later (by omega)]
      rfl

section

variable {lexer : Lexer} {c d : Char} (separates : lexer.Separates c d) {as cs : List Char}

include separates

theorem longest?_replace (filled : as ≠ [])
    (short : ∀ n, lexer.keywords.longest? (as ++ cs) = some n → n ≤ as.length) (ds : List Char) :
    lexer.keywords.longest? (as ++ d :: ds) = lexer.keywords.longest? (as ++ cs) := by
  have before {w : List Char} (keyword : lexer.keywords.IsKeyword w)
      (begins : w <+: as ++ d :: ds) : w <+: as := by
    by_cases inside : d ∈ w
    · obtain ⟨a, rest, rfl⟩ := List.exists_cons_of_ne_nil filled
      rw [separates.alone w keyword.2 inside] at begins ⊢
      obtain ⟨rfl, _⟩ := List.cons_prefix_cons.1 begins
      exact List.cons_prefix_cons.2 ⟨rfl, List.nil_prefix⟩
    · exact (prefix_append_iff inside as ds).1 begins
  cases found : lexer.keywords.longest? (as ++ cs) with
  | none =>
    rw [Trie.longest?_eq_none_iff] at found ⊢
    intro w keyword begins
    exact found w keyword ((before keyword begins).trans (List.prefix_append ..))
  | some n =>
    have fits := short n found
    rw [Trie.longest?_eq_some_iff] at found ⊢
    obtain ⟨w, longest, rfl⟩ := found
    have inside := List.prefix_of_prefix_length_le longest.begins (List.prefix_append ..) fits
    refine ⟨w, ⟨longest.has, inside.trans (List.prefix_append ..), ?_⟩, rfl⟩
    intro v keyword begins
    exact longest.most v keyword ((before keyword begins).trans (List.prefix_append ..))

theorem classify_replace (filled : as ≠ []) (short : (lexer.classify (as ++ cs)).2 ≤ as.length)
    (ds : List Char) : lexer.classify (as ++ d :: ds) = lexer.classify (as ++ cs) := by
  have keyword : lexer.keywords.longest? (as ++ d :: ds) = lexer.keywords.longest? (as ++ cs) := by
    refine longest?_replace separates filled (fun n found => ?_) ds
    rwa [classify.eq_def, found] at short
  rw [classify.eq_def, classify.eq_def, keyword]
  rw [classify.eq_def] at short
  cases known : lexer.keywords.longest? (as ++ cs) with
  | some n => rfl
  | none =>
    rw [known] at short
    obtain ⟨a, as, rfl⟩ := List.exists_cons_of_ne_nil filled
    simp only [List.cons_append] at short ⊢
    have run {p : Char → Bool} (stops : p d = false)
        (short : 1 + ((as ++ cs).takeWhile p).length ≤ (a :: as).length) :
        (as ++ d :: ds).takeWhile p = (as ++ cs).takeWhile p := by
      rw [List.length_cons] at short
      exact takeWhile_replace stops (by omega) ds
    split
    · rename_i digit
      rw [if_pos digit] at short
      rw [run separates.digit short]
    · rename_i noDigit
      rw [if_neg noDigit] at short
      split
      · rename_i word
        rw [if_pos word] at short
        rw [run separates.word short]
      · rfl

theorem lineCommentLength?_replace
    (short : ∀ n, lexer.lineCommentLength? (as ++ c :: cs) = some n → n ≤ as.length)
    (ds : List Char) :
    lexer.lineCommentLength? (as ++ d :: ds) = lexer.lineCommentLength? (as ++ c :: cs) := by
  rw [lineCommentLength?, lineCommentLength?]
  rw [lineCommentLength?] at short
  cases known : lexer.lineComment with
  | none => rfl
  | some start =>
    obtain ⟨apart, apartToo⟩ := separates.line start known
    simp only [known, opens_append apart] at short ⊢
    rw [opens_append apartToo]
    split
    · rename_i opened
      rw [takeWhile_replace_of_pos (decide_eq_true separates.unbroken) (short _ (if_pos opened))]
    · rfl

theorem commentLength?_replace
    (short : ∀ n, lexer.commentLength? (as ++ c :: cs) = some n → n ≤ as.length)
    (ds : List Char) :
    lexer.commentLength? (as ++ d :: ds) = lexer.commentLength? (as ++ c :: cs) := by
  have line : lexer.lineCommentLength? (as ++ d :: ds) = lexer.lineCommentLength? (as ++ c :: cs) :=
    lineCommentLength?_replace separates (fun n found => short n <| by
      rw [commentLength?, found, Option.some_or]) ds
  rw [commentLength?, commentLength?, line]
  rw [commentLength?] at short
  cases found : lexer.lineCommentLength? (as ++ c :: cs) with
  | some n => rfl
  | none =>
    rw [found, Option.none_or] at short
    rw [Option.none_or, Option.none_or, blockCommentLength?, blockCommentLength?]
    rw [blockCommentLength?] at short
    cases known : lexer.blockComment with
    | none => rfl
    | some delimiters =>
      obtain ⟨start, stop⟩ := delimiters
      obtain ⟨apart, apartToo⟩ := separates.block start stop known
      simp only [known, opens_append apart] at short ⊢
      rw [opens_append apartToo]
      split
      · rename_i opened
        have inside := (prefix_of_opens opened).2.length_le
        rw [if_pos opened, List.drop_append_of_le_length inside] at short
        rw [List.drop_append_of_le_length inside, List.drop_append_of_le_length inside]
        cases closed : find? stop (as.drop start.length ++ c :: cs) with
        | some n =>
          rw [closed] at short
          have fits := short _ rfl
          rw [find?_replace closed (by rw [List.length_drop]; omega)]
        | none =>
          rw [closed] at short
          have fits := short _ rfl
          rw [List.length_append, List.length_cons] at fits
          omega
      · rfl

omit separates in
/-- What is taken off the front of some characters ends before those that are left. -/
theorem le_length_of_left {n : Nat} (left : c :: cs <:+ (as ++ c :: cs).drop n) :
    n ≤ as.length := by
  have short := left.length_le
  rw [List.length_drop, List.length_append, List.length_cons] at short
  omega

/-- What comes before a token is scanned as before if something else is put in its place. -/
theorem Scans.replace (breaks : lexer.Breaks) {ls : List Lexeme}
    (scans : Scans lexer (as ++ c :: cs) ls (c :: cs)) (ds : List Char) :
    Scans lexer (as ++ d :: ds) ls (d :: ds) := by
  generalize whole : as ++ c :: cs = bs at scans
  generalize place : c :: cs = rest at scans
  induction scans generalizing as with
  | @done bs =>
    subst place
    obtain rfl := List.append_left_eq_self.1 whole
    exact .done
  | @blank b bs rest ls blank later ih =>
    subst place
    have left : c :: cs <:+ (as ++ c :: cs).drop 1 := by
      rw [whole]
      exact later.suffix
    obtain ⟨_, as, rfl⟩ := List.exists_cons_of_length_pos (le_length_of_left left)
    rw [List.cons_append] at whole
    cases whole
    exact .blank blank (ih rfl rfl)
  | @comment b bs rest n ls filled comment later ih =>
    subst place
    have positive := (commentLength?_bounds breaks.advances comment).1
    have inside : n ≤ as.length := le_length_of_left (whole ▸ later.suffix)
    obtain ⟨_, as, rfl⟩ := List.exists_cons_of_length_pos (Nat.lt_of_lt_of_le positive inside)
    rw [List.cons_append] at whole
    cases whole
    have same : lexer.commentLength? (b :: as ++ d :: ds) =
        lexer.commentLength? (b :: as ++ c :: cs) := by
      refine commentLength?_replace separates (fun m found => ?_) ds
      cases comment.symm.trans found
      exact inside
    have more := ih (List.drop_append_of_le_length inside).symm rfl
    rw [← List.drop_append_of_le_length inside] at more
    exact .comment filled (same.trans comment) more
  | @token b bs rest kind n ls filled token classified later ih =>
    subst place
    have positive := lexer.classify_pos (List.cons_ne_nil b bs)
    rw [classified] at positive
    have inside : n ≤ as.length := le_length_of_left (whole ▸ later.suffix)
    obtain ⟨_, as, rfl⟩ := List.exists_cons_of_length_pos (Nat.lt_of_lt_of_le positive inside)
    rw [List.cons_append] at whole
    cases whole
    have same : lexer.commentLength? (b :: as ++ d :: ds) =
        lexer.commentLength? (b :: as ++ c :: cs) := by
      refine commentLength?_replace separates (fun m found => ?_) ds
      cases token.symm.trans found
    have kinds : lexer.classify (b :: as ++ d :: ds) = lexer.classify (b :: as ++ c :: cs) := by
      refine classify_replace separates (List.cons_ne_nil b as) ?_ ds
      rw [List.cons_append, classified]
      exact inside
    have more := ih (List.drop_append_of_le_length inside).symm rfl
    rw [← List.drop_append_of_le_length inside] at more
    have taken : (b :: (as ++ c :: cs)).take n = (b :: as ++ d :: ds).take n :=
      (List.take_append_of_le_length inside).trans (List.take_append_of_le_length inside).symm
    rw [taken]
    exact .token filled (same.trans token) (kinds.trans classified) more

end

/-! ### Finding the place -/

/-- A token of a text is what the lexer takes where it begins. What comes before it has been scanned
by then. -/
theorem exists_scans_of_mem {lexer : Lexer} (breaks : lexer.Breaks) {t : Token} {offset : Nat}
    {cs : List Char} (member : t ∈ lexer.tokensFrom ⟨offset, cs⟩) :
    ∃ before c rest ls n, cs = before ++ c :: rest ∧
      t.range.start = offset + byteLength before ∧ Scans lexer cs ls (c :: rest) ∧
      ¬ lexer.blanks.contains c ∧ lexer.commentLength? (c :: rest) = none ∧
      lexer.classify (c :: rest) = (t.kind, n) ∧ t.text = String.ofList ((c :: rest).take n) := by
  obtain ⟨all, scans⟩ := Scans.exists_of_breaks breaks cs
  generalize none : [] = left at scans
  induction scans generalizing offset with
  | done =>
    subst none
    rw [tokensFrom_of_nil lexer rfl] at member
    cases member
  | @blank b cs left all blank _ ih =>
    rw [tokensFrom_of_blank breaks blank] at member
    obtain ⟨before, c, rest, ls, n, rfl, starts, scans, first⟩ := ih member none
    refine ⟨b :: before, c, rest, ls, n, rfl, ?_, .blank blank scans, first⟩
    rw [starts, byteLength_cons, Nat.add_assoc]
  | @comment b cs left m all filled comment _ ih =>
    rw [tokensFrom_of_comment breaks filled comment] at member
    obtain ⟨before, c, rest, ls, n, split, starts, scans, first⟩ := ih member none
    refine ⟨(b :: cs).take m ++ before, c, rest, ls, n, ?_, ?_, .comment filled comment scans,
      first⟩
    · rw [List.append_assoc, ← split, List.take_append_drop]
    · rw [starts, byteLength_append, Nat.add_assoc]
  | @token b cs left kind m all filled token classified _ ih =>
    rw [tokensFrom_of_token breaks filled token, pastToken, tokenAt,
      if_neg (List.cons_ne_nil b cs), classified] at member
    obtain rfl | member := List.mem_cons.1 member
    · exact ⟨[], b, cs, [], m, rfl, rfl, .done, filled, token, classified, rfl⟩
    · obtain ⟨before, c, rest, ls, n, split, starts, scans, first⟩ := ih member none
      refine ⟨(b :: cs).take m ++ before, c, rest, _, n, ?_, ?_,
        .token filled token classified scans, first⟩
      · rw [List.append_assoc, ← split, List.take_append_drop]
      · rw [starts, byteLength_append, Nat.add_assoc]

/-- A place in a text is known by the number of bytes before it. -/
theorem append_inj_of_byteLength {as bs cs ds : List Char} (same : as ++ cs = bs ++ ds)
    (long : byteLength as = byteLength bs) : as = bs ∧ cs = ds := by
  have each {a b : List Char} {xs : List Char} (whole : a = b ++ xs)
      (long : byteLength a = byteLength b) : xs = [] := by
    by_contra filled
    have positive := byteLength_pos filled
    rw [whole, byteLength_append] at long
    omega
  obtain ⟨xs, rfl, rfl⟩ | ⟨xs, rfl, rfl⟩ := List.append_eq_append_iff.1 same
  · obtain rfl := each rfl long.symm
    simp
  · obtain rfl := each rfl long
    simp

/-- A keyword of a text falls on what is before it, itself, and what is behind it. -/
theorem scans_around {lexer : Lexer} (breaks : lexer.Breaks) {before name behind : String}
    {t : Token} (member : t ∈ lexer.tokens (before ++ name ++ behind))
    (starts : t.range.start = before.utf8ByteSize) (named : t.lexeme = .mark name)
    {c : Char} {cs : List Char} (spelt : name.toList = c :: cs) :
    ∃ ls, Scans lexer (before.toList ++ c :: (cs ++ behind.toList)) ls
        (c :: (cs ++ behind.toList)) ∧
      Scans lexer (c :: (cs ++ behind.toList)) [.mark name] behind.toList := by
  obtain ⟨keyword, text⟩ := Token.lexeme_eq_mark_iff.1 named
  obtain ⟨as, d, rest, ls, n, split, place, scans, filled, token, classified, taken⟩ :=
    exists_scans_of_mem breaks member
  have whole : (before ++ name ++ behind).toList =
      before.toList ++ c :: (cs ++ behind.toList) := by
    rw [String.toList_append, String.toList_append, spelt, List.append_assoc, List.cons_append]
  rw [whole] at split scans
  have long : byteLength before.toList = byteLength as := by
    rw [byteLength_toList, ← starts, place, Nat.zero_add]
  obtain ⟨rfl, same⟩ := append_inj_of_byteLength split long
  obtain ⟨rfl, rfl⟩ := List.cons.inj same
  refine ⟨ls, scans, ?_⟩
  have inside : n ≤ (c :: (cs ++ behind.toList)).length := by
    have short : (lexer.classify (c :: (cs ++ behind.toList))).2 ≤ _ := classify_le
    rwa [classified] at short
  have piece : (c :: (cs ++ behind.toList)).take n = c :: cs := by
    have equal := congrArg String.toList (text.symm.trans taken)
    rw [String.toList_ofList, spelt] at equal
    exact equal.symm
  have size : n = (c :: cs).length := by
    rw [← piece, List.length_take_of_le inside]
  rw [keyword] at classified
  have one := Scans.token filled token classified .done
  rw [piece, ← spelt, String.ofList_toList] at one
  rwa [size, ← List.cons_append, List.drop_left] at one

end Lexer

end CubeScript
