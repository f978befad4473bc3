import CubeScript.Proofs.Reading.Accompanying
import CubeScript.Proofs.Reading.Agreement
import CubeScript.Proofs.Reading.Enclosing

/-!
# Spelling out shorthands

A shorthand does what its text does between parentheses. If its name is put out of a text and the
parentheses are put in its place, the text is still read, or is still refused, and does the same
(`Reader.resolve_speltOut`). Two readers go through both texts side by side. They part at the name
and meet again behind the closing parenthesis: up to there the first one has read the text of the
shorthand by itself, and the second one has read it as a group.

The shorthand is read one level deeper than the group. So all this is true as long as reading does
not come up against a limit. Then an attempt that fails for the one reader fails for the other, too.
-/

namespace CubeScript

open Lexeme (mark)

/-- Whether some tokens begin with the name of a shorthand, and others with its text between
parentheses instead. -/
inductive SpellsOut (r : Reader) (name body : String) : List Token → List Token → Prop where
  | intro {t opening closing : Token} {bs ts us : List Token} (named : t.lexeme = mark name)
    (opens : opening.lexeme = mark "(") (closes : closing.lexeme = mark ")")
    (inside : (r.lexer.tokens body).map Token.lexeme = bs.map Token.lexeme)
    (later : ts.map Token.lexeme = us.map Token.lexeme) :
    SpellsOut r name body (t :: ts) (opening :: (bs ++ closing :: us))

namespace Reader

open Diagnostic Reading Statement

theorem stopsAtLimits_reachesLimit (r : Reader) : r.StopsAtLimits reachesLimit :=
  ⟨fun _ => rfl, fun _ _ => rfl⟩

theorem stopsInside_reachesLimit : StopsInside reachesLimit := by
  intro name range cause stops
  rwa [reachesLimit] <;> nofun

/-- Two readers of one text agree, unless the first one comes up against a limit. -/
theorem agreesNested_reachesLimit {r : Reader} {levels room : Nat} (most : levels ≤ r.maxNesting)
    (enough : r.Below reachesLimit levels room) :
    AgreesNested reachesLimit Wrapper.speltOut NoSwaps r (readStatementUnless reachesLimit r levels)
      (r.readStatement room) :=
  agrees_readStatement stopsInside_reachesLimit (inertSwaps_noSwaps r)
    (agreesAtSwaps_noSwaps _ _ r) most enough

/-- If a text is read by itself, only a limit can be in the way when it is read elsewhere. -/
theorem reachesLimit_of_error {r : Reader} {body : String} {statements : List Statement}
    (alone : r.readStatements body = .ok statements) {levels depth : Nat}
    (most : levels ≤ r.maxNesting) {context : Context} {cause : Diagnostic}
    (failed : r.readSequence (readStatementUnless reachesLimit r levels)
      ⟨body.utf8ByteSize, depth⟩ context .empty (r.lexer.tokens body) = .error cause) :
    cause.reachesLimit := by
  have limits := stopsAtLimits_reachesLimit r
  by_contra goes
  have below : r.Below reachesLimit (Scope.depth ⟨body.utf8ByteSize, 0⟩)
      (Scope.depth ⟨body.utf8ByteSize, depth⟩) :=
    .inr ⟨limits, Nat.zero_le _⟩
  have agrees := agrees_readSequence (inertSwaps_noSwaps r)
    (agreesNested_reachesLimit most (.inr ⟨limits, most⟩)) below context .script closing_empty
    (.refl (r.lexer.tokens body))
  rw [failed] at agrees
  obtain ⟨d, other⟩ := agrees.error_of_error goes
  obtain ⟨left, ⟨_, done⟩⟩ := readStatements_eq_ok_iff.1 alone
  rw [done] at other
  cases other

section

variable {r : Reader} {size : Size} {names : List String}
  (abbreviated : r.dialect.IsAbbreviated size names) {name body : String}
  (only : ∀ s, (r.dialect.symbols name).contains s ↔ s = .shorthand)

include only

/-- The name of a shorthand that means nothing else. -/
theorem contains_of_only {t : Token} (named : t.lexeme = mark name) (s : Symbol) :
    (r.dialect.symbolsOf t).contains s ↔ s = .shorthand := by
  obtain ⟨keyword, text⟩ := Token.lexeme_eq_mark_iff.1 named
  rw [Dialect.symbolsOf, if_pos keyword, text]
  exact only s

include abbreviated

theorem inertSwaps_spellsOut : r.InertSwaps (SpellsOut r name body) := by
  rintro _ _ ⟨named, opens⟩
  exact ⟨_, _, _, _, rfl, rfl, abbreviated.inert_shorthand (contains_of_only only named),
    abbreviated.inert_opener (by decide) opens⟩

theorem starts_of_only {t : Token} (named : t.lexeme = mark name) :
    r.dialect.starts t = [.shorthand] := by
  have means := contains_of_only only named
  have known := (means .shorthand).2 rfl
  have keyword : t.kind = .keyword := (Token.lexeme_eq_mark_iff.1 named).1
  have noTurn : ¬ (Lexicon.standardTurn? size t.text).isSome := by
    intro turn
    have move : (r.dialect.symbolsOf t).contains .move := by
      rw [abbreviated.means t (by decide)]
      simp [Lexeme.means, Token.lexeme, keyword, turn]
    cases (means .move).1 move
  rw [abbreviated.starts, abbreviated.starts_of_named known, if_neg noTurn, if_pos known]
  rfl

variable (found : r.dialect.expansion? name = some body)
  {statements : List Statement} (alone : r.readStatements body = .ok statements)

include found alone

/-- Where one reader reads a shorthand, the other one reads a group. -/
theorem agrees_readBeginning_spellsOut {levels room : Nat} (most : levels < r.maxNesting)
    (enough : r.Below reachesLimit levels room) {scope outer : Scope}
    (deep : r.Below reachesLimit outer.depth scope.depth) (context other : Context) {t u : Token}
    {ts us : List Token} (swap : SpellsOut r name body (t :: ts) (u :: us)) :
    Agrees reachesLimit (Beside (Alike Wrapper.speltOut) (SpellsOut r name body))
      (readBeginningUnless reachesLimit r (readStatementUnless reachesLimit r levels) scope
        context t ts)
      (r.readBeginning (r.readStatement room) outer other u us) := by
  cases swap with
  | @intro t opening closing bs ts us named opens closes inside later =>
  have limits := stopsAtLimits_reachesLimit r
  have text : t.text = name := congrArg Lexeme.text named
  rw [readBeginningUnless, starts_of_only abbreviated only named]
  change Agrees _ _ (r.readShorthand _ scope context t ts) _
  rw [readShorthand, text, found]
  dsimp only
  by_cases tooDeep : r.maxShorthandDepth ≤ scope.depth
  · rw [if_pos tooDeep]
    exact .stopped (limits.depth _ _) _
  rw [if_neg tooDeep]
  cases read : r.readSequence (readStatementUnless reachesLimit r levels)
      ⟨body.utf8ByteSize, scope.depth + 1⟩ .shorthand .empty (r.lexer.tokens body) with
  | error cause =>
    have stops := reachesLimit_of_error alone (Nat.le_of_lt most) read
    exact .stopped (stopsInside_reachesLimit _ _ _ stops) _
  | ok result =>
    have below : r.Below reachesLimit outer.depth
        (Scope.depth ⟨body.utf8ByteSize, scope.depth + 1⟩) := by
      refine .inr ⟨limits, ?_⟩
      change outer.depth ≤ scope.depth + 1
      obtain equal | ⟨_, less⟩ := deep <;> omega
    have agrees := agrees_readSequence (inertSwaps_noSwaps r)
      (agreesNested_reachesLimit (Nat.le_of_lt most) enough) below .shorthand .script closing_empty
      (.of_lexemes inside)
    rw [read] at agrees
    obtain ⟨⟨others, left⟩, readToo, alike, _⟩ := agrees.ok_of_ok
    have given : Gives (r.readSequence (r.readStatement room) outer .script .empty bs) others
        left.1 := eq_ok_iff.1 readToo
    rw [InPlace.rest_of_whole given] at given
    obtain ⟨_, group⟩ : Gives
        (r.readBeginning (r.readStatement room) outer other u (bs ++ closing :: us))
        (.wrapped .grouping others ⟨u.range.start, closing.range.stop⟩) us :=
      gives_readBeginning_group abbreviated opens closes given
    have same : Alike Wrapper.speltOut (.wrapped (.shorthand name) result.1 t.range)
        (.wrapped .grouping others ⟨u.range.start, closing.range.stop⟩) :=
      .wrapped rfl alike t.range ⟨u.range.start, closing.range.stop⟩
    rw [group]
    exact .ok ⟨same, .of_lexemes later⟩

theorem agreesAtSwaps_spellsOut :
    AgreesAtSwaps reachesLimit Wrapper.speltOut (SpellsOut r name body) r := by
  intro levels room most enough inner scope outer deep context other t ts u us swap
  rw [readStatementUnless, readStatement]
  refine .bind (agrees_readBeginning_spellsOut abbreviated only found alone most enough deep
    context other swap) ?_
  rintro ⟨beginning, rest⟩ ⟨begun, left⟩ ⟨alike, later⟩
  refine .bind (agrees_readBehind (inertSwaps_spellsOut abbreviated only) inner deep context other
    alike later) ?_
  rintro ⟨statement, rest⟩ ⟨another, left⟩ given
  exact .ok given

/-- Two texts of which one is spelt out are read alike, unless the first one comes up against a
limit. -/
theorem agrees_readStatements_spellsOut {text other : String}
    (tracks : Tracks (SpellsOut r name body) (r.lexer.tokens text) (r.lexer.tokens other)) :
    Agrees reachesLimit (AllAlike Wrapper.speltOut) (readStatementsUnless reachesLimit r text)
      (r.readStatements other) :=
  agrees_readStatements stopsInside_reachesLimit (inertSwaps_spellsOut abbreviated only)
    (agreesAtSwaps_spellsOut abbreviated only found alone) tracks

end

/-! ### Texts -/

/-- A text with the text of a shorthand in the place of its name. -/
def speltOut (before body behind : String) : String := before ++ "(" ++ body ++ "\n)" ++ behind

theorem tracks_of_lexemes {r : Reader} {name body : String} {xs ys : List Token}
    {ls ms : List Lexeme} (first : xs.map Token.lexeme = ls ++ mark name :: ms)
    (second : ys.map Token.lexeme =
      ls ++ mark "(" :: ((r.lexer.tokens body).map Token.lexeme ++ mark ")" :: ms)) :
    Tracks (SpellsOut r name body) xs ys := by
  obtain ⟨as, ts, rfl, same, rest⟩ := List.map_eq_append_iff.1 first
  obtain ⟨bs, us, rfl, sameToo, restToo⟩ := List.map_eq_append_iff.1 second
  obtain ⟨t, ts, rfl, named, later⟩ := List.map_eq_cons_iff.1 rest
  obtain ⟨u, us, rfl, opens, restToo⟩ := List.map_eq_cons_iff.1 restToo
  obtain ⟨vs, us, rfl, between, restToo⟩ := List.map_eq_append_iff.1 restToo
  obtain ⟨v, us, rfl, closes, laterToo⟩ := List.map_eq_cons_iff.1 restToo
  exact .append (same.trans sameToo.symm)
    (.swap (.intro named opens closes between.symm (later.trans laterToo.symm)))

theorem tracks_speltOut {r : Reader} (abbreviated : r.lexer.IsAbbreviated)
    {name body before behind : String} (word : IsName name) (filled : name ≠ "")
    (closed : ¬ r.lexer.EndsInComment body) {t : Token}
    (member : t ∈ r.lexer.tokens (before ++ name ++ behind))
    (starts : t.range.start = before.utf8ByteSize) (named : t.lexeme = mark name) :
    Tracks (SpellsOut r name body) (r.lexer.tokens (before ++ name ++ behind))
      (r.lexer.tokens (speltOut before body behind)) := by
  have breaks := abbreviated.breaks
  obtain ⟨c, cs, spelt⟩ := List.exists_cons_of_ne_nil (mt String.toList_eq_nil_iff.1 filled)
  have part : Lexer.isWordPart c := word c (by rw [spelt]; exact List.mem_cons_self)
  obtain ⟨ls, first, one⟩ := Lexer.scans_around breaks member starts named spelt
  obtain ⟨ms, last⟩ := Lexer.Scans.exists_of_breaks breaks behind.toList
  have opening := abbreviated.scans_bracket (.inl rfl : "(" = "(" ∨ "(" = ")")
    (body.toList ++ '\n' :: (")".toList ++ behind.toList))
  have inside := Lexer.Scans.of_closed breaks closed (")".toList ++ behind.toList)
  have closing := abbreviated.scans_bracket (.inr rfl : ")" = "(" ∨ ")" = ")") behind.toList
  have whole : (before ++ name ++ behind).toList =
      before.toList ++ c :: (cs ++ behind.toList) := by
    rw [String.toList_append, String.toList_append, spelt, List.append_assoc, List.cons_append]
  have wholeToo : (speltOut before body behind).toList =
      before.toList ++ '(' :: (body.toList ++ '\n' :: (")".toList ++ behind.toList)) := by
    simp [speltOut]
  have lexemes : (r.lexer.tokens (before ++ name ++ behind)).map Token.lexeme =
      ls ++ mark name :: ms := by
    refine Lexer.Scans.lexemes_of_tokens breaks ?_
    rw [whole]
    exact first.append (one.append last)
  have lexemesToo : (r.lexer.tokens (speltOut before body behind)).map Token.lexeme =
      ls ++ mark "(" :: ((r.lexer.tokens body).map Token.lexeme ++ mark ")" :: ms) := by
    refine Lexer.Scans.lexemes_of_tokens breaks ?_
    rw [wholeToo]
    exact (first.replace (abbreviated.separates part) breaks _).append
      (opening.append (inside.append (closing.append last)))
  exact tracks_of_lexemes lexemes lexemesToo

/-! ### Scripts -/

end Reader

end CubeScript
