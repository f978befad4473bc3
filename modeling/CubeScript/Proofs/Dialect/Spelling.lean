import CubeScript.Proofs.Dialect.Standard
import Mathlib.Algebra.Group.Nat.Defs

/-!
# How the standard dialect is spelt

Apart from the marks, every keyword of the standard dialect begins with a letter: it is the letter
of a face or the name of a turn. So a mark that no other one begins with is a token wherever it
stands, whatever follows it, and so is a number that no digit follows. No keyword has a line break
in it.
-/

namespace CubeScript

open Lexeme (mark)

namespace Trie

theorem longest?_of_alone {t : Trie} {c : Char} (known : t.contains [c])
    (alone : ∀ w ≠ [], t.contains (c :: w) = false) (cs : List Char) :
    t.longest? (c :: cs) = some 1 := by
  refine longest?_of_longest (w := [c]) ⟨⟨List.cons_ne_nil c [], known⟩,
    List.cons_prefix_cons.2 ⟨rfl, List.nil_prefix⟩, fun v keyword begins => ?_⟩
  cases v with
  | nil => exact absurd rfl keyword.1
  | cons d v =>
    obtain ⟨rfl, _⟩ := List.cons_prefix_cons.1 begins
    by_cases empty : v = []
    · rw [empty]
    · exact absurd keyword.2 (Bool.eq_false_iff.1 (alone v empty))

theorem longest?_of_none {t : Trie} {c : Char} (none : ∀ w, t.contains (c :: w) = false)
    (cs : List Char) : t.longest? (c :: cs) = Option.none := by
  rw [longest?_eq_none_iff]
  intro w keyword begins
  cases w with
  | nil => exact keyword.1 rfl
  | cons d w =>
    obtain ⟨rfl, _⟩ := List.cons_prefix_cons.1 begins
    exact Bool.eq_false_iff.1 (none w) keyword.2

end Trie

/-- Whether some characters begin with a letter and have no line break in them. -/
def Named (w : List Char) : Prop := ∃ c cs, w = c :: cs ∧ c.isAlpha ∧ '\n' ∉ w

theorem Named.append {v w : List Char} (named : Named v) (unbroken : '\n' ∉ w) :
    Named (v ++ w) := by
  obtain ⟨c, cs, rfl, letter, before⟩ := named
  refine ⟨c, cs ++ w, rfl, letter, ?_⟩
  rw [List.mem_append, not_or]
  exact ⟨before, unbroken⟩

theorem notMem_toString (n : Nat) : '\n' ∉ (toString n).toList := by
  rw [Nat.toString_eq_repr, Nat.toList_repr]
  intro member
  exact absurd (Nat.isDigit_of_mem_toDigits (by decide) (by decide) member) (by decide)

namespace Lexicon

theorem named_letter : ∀ w ∈ ["S", "C", "M", "T", "W", "N"], Named w.toList := by
  intro w member
  simp only [List.mem_cons, List.not_mem_nil, or_false] at member
  obtain rfl | rfl | rfl | rfl | rfl | rfl := member
  all_goals exact ⟨_, [], rfl, by decide, by decide⟩

theorem named_numbered {w : String} (letter : w ∈ ["S", "C", "M", "T", "W", "N"]) (k : Nat) :
    Named (w ++ toString k).toList := by
  rw [String.toList_append]
  exact (named_letter w letter).append (notMem_toString k)

/-- What stands before a face is one of a few letters, with a number behind it or not. -/
theorem eq_of_mem_standardDepths {n : Nat} {before : String} {depths : List Nat}
    (member : (before, depths) ∈ standardDepths n) : before = "" ∨
      ∃ w ∈ ["S", "C", "M", "T", "W", "N"], before = w ∨ ∃ k : Nat, before = w ++ toString k := by
  have letter (known : before ∈ "" :: ["S", "C", "M", "T", "W", "N"]) : before = "" ∨
      ∃ w ∈ ["S", "C", "M", "T", "W", "N"], before = w ∨ ∃ k : Nat, before = w ++ toString k :=
    (List.mem_cons.1 known).imp_right fun one => ⟨before, one, .inl rfl⟩
  rw [standardDepths] at member
  simp only [List.mem_append, List.mem_map, Prod.mk.injEq] at member
  obtain ((plain | several) | ⟨k, _, rfl, _⟩) | ⟨k, _, rfl, _⟩ := member
  · have one : before ∈ ["", "S", "C"] := List.mem_map_of_mem (f := Prod.fst) plain
    exact letter (List.Sublist.subset (by decide) one)
  · split at several
    · have one : before ∈ ["M", "T", "W"] := List.mem_map_of_mem (f := Prod.fst) several
      exact letter (List.Sublist.subset (by decide) one)
    · cases several
  · exact .inr ⟨"T", by decide, .inr ⟨k, rfl⟩⟩
  · exact .inr ⟨"N", by decide, .inr ⟨k, rfl⟩⟩

theorem named_of_mem_standardDepths {n : Nat} {before : String} {depths : List Nat}
    (member : (before, depths) ∈ standardDepths n) : before = "" ∨ Named before.toList := by
  obtain rfl | ⟨w, letter, rfl | ⟨k, rfl⟩⟩ := eq_of_mem_standardDepths member
  · exact .inl rfl
  · exact .inr (named_letter before letter)
  · exact .inr (named_numbered letter k)

/-- The names of turns begin with letters. -/
theorem named_of_mem_standardTurns {n : Nat} {face : Face} {name : String} {t : Turn}
    (member : (name, t) ∈ standardTurns n face) : Named name.toList := by
  simp only [standardTurns, List.mem_flatMap, List.mem_map, Prod.exists, Prod.mk.injEq] at member
  obtain ⟨before, depths, depth, after, angle, angles, rfl, _⟩ := member
  have unbroken : '\n' ∉ after.toList := by
    have each : ∀ w ∈ standardAngles.map Prod.fst, '\n' ∉ w.toList := by decide
    exact each after (List.mem_map_of_mem (f := Prod.fst) angles)
  have capital : Named (toString face.capital).toList := by
    cases face <;> exact ⟨_, [], rfl, by decide, by decide⟩
  change Named (before ++ toString face.capital ++ after).toList
  rw [String.toList_append, String.toList_append]
  refine Named.append ?_ unbroken
  obtain rfl | named := named_of_mem_standardDepths depth
  · exact capital
  · refine named.append ?_
    obtain ⟨_, _, _, _, plain⟩ := capital
    exact plain

/-- A keyword of the standard dialect is a mark, the letter of a face, or the name of a turn. -/
theorem mark_or_of_known {size : Size} (holds : String → Prop)
    (small : ∀ face : Face, holds face.letter.toString)
    (large : ∀ face : Face, holds face.capital.toString)
    (turns : ∀ face name t, (name, t) ∈ standardTurns size.layers face → holds name) {w : String}
    (known : w ∈ (standardMeanings size.layers).map Prod.fst) :
    w ∈ standardMarks.map Prod.fst ∨ holds w := by
  obtain ⟨⟨_, s⟩, member, rfl⟩ := List.mem_map.1 known
  obtain isMark | ofFace := List.mem_append.1 member
  · obtain ⟨⟨token, symbols⟩, listed, meant⟩ := List.mem_flatMap.1 isMark
    obtain ⟨_, _, same⟩ := List.mem_map.1 meant
    cases same
    exact .inl (List.mem_map_of_mem (f := Prod.fst) listed)
  · obtain ⟨face, _, own⟩ := List.mem_flatMap.1 ofFace
    refine .inr ?_
    obtain letter | turn := List.mem_append.1 own
    · simp only [List.mem_cons, Prod.mk.injEq, List.not_mem_nil, or_false] at letter
      obtain ⟨rfl, _⟩ | ⟨rfl, _⟩ := letter
      · exact small face
      · exact large face
    · obtain ⟨⟨name, t⟩, listed, same⟩ := List.mem_map.1 turn
      cases same
      exact turns face _ t listed

/-- A keyword of the standard dialect is a mark or begins with a letter. -/
theorem mark_or_named {size : Size} {w : String}
    (known : w ∈ (standardMeanings size.layers).map Prod.fst) :
    w ∈ standardMarks.map Prod.fst ∨ Named w.toList := by
  refine mark_or_of_known (fun w => Named w.toList) ?_ ?_ ?_ known
  · rintro ⟨⟩ <;> exact ⟨_, [], rfl, by decide, by decide⟩
  · rintro ⟨⟩ <;> exact ⟨_, [], rfl, by decide, by decide⟩
  · exact fun face name t => named_of_mem_standardTurns

end Lexicon

namespace Lexer

open Lexicon (standardMarks)

/-- What there is to know about the lexer of the standard dialect. -/
structure IsStandard (lexer : Lexer) : Prop where
  blanks : lexer.blanks = Dialect.defaultBlanks
  lineComment : lexer.lineComment = some ['/', '/']
  blockComment : lexer.blockComment = some (['/', '*'], ['*', '/'])
  keywords : ∀ w, lexer.keywords.contains w →
    String.ofList w ∈ standardMarks.map Prod.fst ∨ Named w
  marks : ∀ name ∈ standardMarks.map Prod.fst, lexer.keywords.contains name.toList

/-- The keywords are the tokens that mean something. -/
theorem contains_keywords_of_adds {l : Lexicon} {size : Size}
    {meanings : List (String × Symbol)} {turns : List (String × Turn)}
    (added : Lexicon.Adds (.blank size) l meanings turns) {w : List Char} :
    l.dialect.lexer.keywords.contains w ↔ w ≠ [] ∧ String.ofList w ∈ meanings.map Prod.fst := by
  refine Trie.contains_ofList.trans (and_congr_right' ?_)
  have known := added.keys (String.ofList w)
  rw [Lexicon.blank, Table.get?_empty, Option.isSome_none, Bool.false_eq_true, false_or] at known
  rw [← known]
  cases stored : l.tokens.get? (String.ofList w) with
  | none => exact iff_of_false (Table.get?_eq_none_iff.1 stored) (by simp)
  | some set =>
    refine iff_of_true (Decidable.not_not.1 ?_) rfl
    intro missing
    rw [Table.get?_eq_none_iff.2 missing] at stored
    cases stored

theorem isStandard_of_adds {l : Lexicon} {size : Size} {turns : List (String × Turn)}
    (added : Lexicon.Adds (.blank size) l (Lexicon.standardMeanings size.layers) turns) :
    l.dialect.lexer.IsStandard := by
  refine ⟨added.blanks, ?_, ?_, fun w known => ?_, fun name member => ?_⟩
  · change l.lineComment.map String.toList = _
    rw [added.lineComment]
    change some "//".toList = _
    decide
  · change Option.map _ l.blockComment = _
    rw [added.blockComment]
    change some ("/*".toList, "*/".toList) = _
    decide
  · have cases := Lexicon.mark_or_named ((contains_keywords_of_adds added).1 known).2
    rwa [String.toList_ofList] at cases
  · refine (contains_keywords_of_adds added).2 ⟨?_, ?_⟩
    · have filled : ∀ w ∈ standardMarks.map Prod.fst, w.toList ≠ [] := by decide
      exact filled name member
    · rw [String.ofList_toList, Lexicon.standardMeanings, List.map_append]
      refine List.mem_append_left _ ?_
      have listed : ∀ w ∈ standardMarks.map Prod.fst,
          w ∈ Lexicon.markMeanings.map Prod.fst := by
        decide
      exact listed name member

theorem isStandard_standard (size : Size) : (Lexicon.standard size).dialect.lexer.IsStandard :=
  isStandard_of_adds (Lexicon.adds_standard size)

/-- The marks that are tokens whatever follows them. -/
def loneMarks : List String := [".", "(", ")", ",", "[", "]", ":", "<", ">", "'", "~", "*"]

/-- Whether a character is no letter, blank or slash and begins no mark with more characters. -/
def standsAlone (c : Char) : Bool :=
  c != '/' && !Dialect.defaultBlanks.contains c && !c.isAlpha &&
    (standardMarks.map Prod.fst).all fun v => v.toList.head? != some c || v.toList == [c]

namespace IsStandard

variable {lexer : Lexer} (standard : lexer.IsStandard)

include standard

theorem breaks : lexer.Breaks where
  blank := by
    rw [standard.blanks]
    decide
  keywords w known := by
    obtain isMark | named := standard.keywords w known
    · have unbroken : ∀ v ∈ standardMarks.map Prod.fst, '\n' ∉ v.toList := by decide
      have plain := unbroken _ isMark
      rwa [String.toList_ofList] at plain
    · obtain ⟨_, _, _, _, unbroken⟩ := named
      exact unbroken
  line start known := by
    rw [standard.lineComment] at known
    cases known
    decide
  block start stop known := by
    rw [standard.blockComment] at known
    cases known
    decide

/-- Comments begin with a slash. -/
theorem commentLength?_eq_none {c : Char} (other : c ≠ '/') (cs : List Char) :
    lexer.commentLength? (c :: cs) = none := by
  have none (delimiter : List Char) : opens ('/' :: delimiter) (c :: cs) = false := by
    simp [opens, List.isPrefixOf, Ne.symm other]
  simp [commentLength?, lineCommentLength?, blockCommentLength?, standard.lineComment,
    standard.blockComment, none]

/-- The longest keyword that a text begins with is a token. -/
theorem scans_keyword {c : Char} (noSlash : c ≠ '/') (noBlank : c ∉ Dialect.defaultBlanks)
    {cs rest : List Char} (longest : Longest lexer.keywords.IsKeyword (c :: cs ++ rest) (c :: cs)) :
    Scans lexer (c :: cs ++ rest) [mark (String.ofList (c :: cs))] rest := by
  have filled : ¬ lexer.blanks.contains c := by
    rw [standard.blanks, List.contains_iff_mem]
    exact noBlank
  have found := Trie.longest?_of_longest longest
  have classified : lexer.classify (c :: (cs ++ rest)) = (.keyword, cs.length + 1) := by
    rw [List.cons_append] at found
    rw [classify.eq_def, found]
    rfl
  have scans := Scans.token filled (standard.commentLength?_eq_none noSlash _) classified .done
  rwa [List.take_succ_cons, List.take_left, List.drop_succ_cons, List.drop_left] at scans

/-- A mark is scanned where no longer one begins. -/
theorem scans_longest_mark {name : String} (isMark : name ∈ standardMarks.map Prod.fst)
    {rest : List Char} (most : ∀ v ∈ standardMarks.map Prod.fst,
      v.toList <+: name.toList ++ rest → v.toList.length ≤ name.toList.length) :
    Scans lexer (name.toList ++ rest) [mark name] rest := by
  have plain : ∀ w ∈ standardMarks.map Prod.fst, w.toList.head?.any fun c =>
      c ≠ '/' ∧ c ∉ Dialect.defaultBlanks ∧ ¬ c.isAlpha := by
    decide
  obtain ⟨c, first, other⟩ := (Option.any_eq_true _ _).1 (plain name isMark)
  obtain ⟨noSlash, noBlank, noLetter⟩ := of_decide_eq_true other
  obtain ⟨cs, split⟩ := List.head?_eq_some_iff.1 first
  have known := standard.marks name isMark
  have longest : Longest lexer.keywords.IsKeyword (c :: cs ++ rest) (c :: cs) := by
    rw [← split]
    refine ⟨⟨?_, known⟩, List.prefix_append _ _, fun v keyword begins => ?_⟩
    · rw [split]
      exact List.cons_ne_nil c cs
    · obtain other | ⟨d, ds, rfl, letter, _⟩ := standard.keywords v keyword.2
      · have short := most _ other
        rw [String.toList_ofList] at short
        exact short begins
      · rw [split] at begins
        obtain ⟨rfl, _⟩ := List.cons_prefix_cons.1 begins
        exact absurd letter noLetter
  have scans := standard.scans_keyword noSlash noBlank longest
  rwa [← split, String.ofList_toList] at scans

theorem scans_mark (name : String) (single : name ∈ loneMarks) (cs : List Char) :
    Scans lexer (name.toList ++ cs) [mark name] cs := by
  have each : ∀ w ∈ loneMarks,
      w ∈ standardMarks.map Prod.fst ∧ w.toList.length = 1 ∧ w.toList.all standsAlone := by
    decide
  obtain ⟨isMark, one, alone⟩ := each name single
  obtain ⟨c, same⟩ := List.length_eq_one_iff.1 one
  rw [same] at alone
  simp only [standsAlone, List.all_cons, List.all_nil, Bool.and_true, Bool.and_eq_true,
    bne_iff_ne, List.all_eq_true, Bool.or_eq_true, beq_iff_eq] at alone
  refine standard.scans_longest_mark isMark fun v other begins => ?_
  rw [same] at begins ⊢
  obtain away | only := alone.2 v other
  · cases split : v.toList with
    | nil => exact Nat.zero_le 1
    | cons d ds =>
      rw [split] at begins away
      exact absurd (congrArg some (List.cons_prefix_cons.1 begins).1) away
  · rw [only]

/-- A keyword that begins with a letter is scanned where no longer one begins. -/
theorem scans_longest_named {name : String} (named : Named name.toList) {rest : List Char}
    (longest : Longest lexer.keywords.IsKeyword (name.toList ++ rest) name.toList) :
    Scans lexer (name.toList ++ rest) [mark name] rest := by
  obtain ⟨c, cs, split, letter, _⟩ := named
  have noSlash : c ≠ '/' := by
    rintro rfl
    cases letter
  have noBlank : c ∉ Dialect.defaultBlanks := by
    intro member
    have noLetter : Dialect.defaultBlanks.all (!Char.isAlpha ·) := by decide
    have other := List.all_eq_true.1 noLetter c member
    rw [letter] at other
    cases other
  rw [split] at longest
  have scans := standard.scans_keyword noSlash noBlank longest
  rwa [← split, String.ofList_toList] at scans

/-- A keyword that begins with a letter and has nothing behind it. -/
theorem scans_named {name : String} (known : lexer.keywords.contains name.toList)
    (named : Named name.toList) : Scans lexer name.toList [mark name] [] := by
  have filled : name.toList ≠ [] := by
    obtain ⟨c, cs, split, _⟩ := named
    rw [split]
    exact List.cons_ne_nil c cs
  have longest : Longest lexer.keywords.IsKeyword (name.toList ++ []) name.toList := by
    rw [List.append_nil]
    exact Longest.self ⟨filled, known⟩
  have scans := standard.scans_longest_named named longest
  rwa [List.append_nil] at scans

/-- A text without slashes has no comments in it. -/
theorem not_endsInComment {text : String} (apart : '/' ∉ text.toList) :
    ¬ lexer.EndsInComment text := by
  refine not_endsInComment_of_lacks fun start stop known => ⟨'/', ?_, apart⟩
  rw [standard.blockComment] at known
  cases known
  decide

/-- A number ends where its digits do. -/
theorem scans_number {digits rest : List Char} (filled : digits ≠ [])
    (each : ∀ c ∈ digits, c.isDigit) (ends : ∀ c ∈ rest.head?, ¬ c.isDigit) :
    Scans lexer (digits ++ rest) [⟨.number, String.ofList digits⟩] rest := by
  obtain ⟨c, digits, rfl⟩ := List.exists_cons_of_ne_nil filled
  have digit := each c List.mem_cons_self
  have noSlash : c ≠ '/' := by
    rintro rfl
    cases digit
  have noBlank : ¬ lexer.blanks.contains c := by
    rw [standard.blanks, List.contains_iff_mem]
    intro member
    have noDigit : Dialect.defaultBlanks.all (!Char.isDigit ·) := by decide
    have other := List.all_eq_true.1 noDigit c member
    rw [digit] at other
    cases other
  have noKeyword (w : List Char) : lexer.keywords.contains (c :: w) = false := by
    rw [Bool.eq_false_iff]
    intro known
    obtain isMark | named := standard.keywords _ known
    · have apart : ∀ v ∈ standardMarks.map Prod.fst, v.toList.head?.all (!Char.isDigit ·) := by
        decide
      have other := apart _ isMark
      rw [String.toList_ofList, List.head?_cons, Option.all_some, digit] at other
      cases other
    · obtain ⟨_, _, split, letter, _⟩ := named
      cases split
      change (decide (c.val ≥ 48) && decide (c.val ≤ 57)) = true at digit
      change (decide (c.val ≥ 65 ∧ c.val ≤ 90)
        || (decide (c.val ≥ 97) && decide (c.val ≤ 122))) = true at letter
      grind
  have all : (digits ++ rest).takeWhile Char.isDigit = digits := by
    rw [List.takeWhile_append_of_pos fun d member => each d (List.mem_cons_of_mem c member)]
    cases rest with
    | nil => simp
    | cons d rest =>
      rw [List.takeWhile_cons_of_neg (ends d rfl), List.append_nil]
  have classified : lexer.classify (c :: (digits ++ rest)) = (.number, 1 + digits.length) := by
    rw [classify.eq_def, Trie.longest?_of_none noKeyword]
    dsimp only
    rw [if_pos digit, all]
  have behind : (c :: (digits ++ rest)).drop (1 + digits.length) = rest := by
    rw [Nat.add_comm, List.drop_succ_cons, List.drop_left]
  have taken : (c :: (digits ++ rest)).take (1 + digits.length) = c :: digits := by
    rw [Nat.add_comm, List.take_succ_cons, List.take_left]
  have scans := Scans.token noBlank (standard.commentLength?_eq_none noSlash _) classified .done
  rwa [taken, behind] at scans

end IsStandard

end Lexer

theorem Lexicon.named_of_standardTurn? {size : Size} {name : String} {t : Turn}
    (known : standardTurn? size name = some t) : Named name.toList := by
  obtain ⟨face, member⟩ := exists_of_standardTurn? known
  exact named_of_mem_standardTurns member

theorem Lexicon.contains_of_standardTurn? {size : Size} {name : String} {t : Turn}
    (known : standardTurn? size name = some t) :
    (standard size).dialect.lexer.keywords.contains name.toList := by
  refine (Lexer.contains_keywords_of_adds (adds_standard size)).2 ⟨?_, ?_⟩
  · obtain ⟨c, cs, split, _⟩ := named_of_standardTurn? known
    rw [split]
    exact List.cons_ne_nil c cs
  · have means : Lexeme.means size (mark name) .move := by
      simp [Lexeme.means, mark, known]
    rw [String.ofList_toList]
    exact List.mem_map.2 ⟨_, mem_standardMeanings_iff.2 means, rfl⟩

/-- The lexeme of a number. -/
def Lexeme.ofNat (k : Nat) : Lexeme := ⟨.number, toString k⟩

theorem Lexeme.number?_ofNat {k : Nat} (small : k < 2 ^ 32) : (ofNat k).number? = some k := by
  have value : Token.decimal (toString k).toList = k := by
    rw [Nat.toString_eq_repr, Nat.toList_repr]
    exact Nat.ofDigitChars_ten_toDigits
  simp only [ofNat, number?, Token.number?, if_true, value]
  exact if_pos small

theorem Lexer.IsStandard.scans_ofNat {lexer : Lexer} (standard : lexer.IsStandard) (k : Nat)
    {rest : List Char} (ends : ∀ c ∈ rest.head?, ¬ c.isDigit) :
    Scans lexer ((toString k).toList ++ rest) [.ofNat k] rest := by
  have digits : (toString k).toList = Nat.toDigits 10 k := by
    rw [Nat.toString_eq_repr, Nat.toList_repr]
  have filled : (toString k).toList ≠ [] := by
    rw [digits]
    exact Nat.toDigits_ne_nil
  have each : ∀ c ∈ (toString k).toList, c.isDigit := by
    intro c member
    rw [digits] at member
    exact Nat.isDigit_of_mem_toDigits (by decide) (by decide) member
  have scans := standard.scans_number filled each ends
  rwa [String.ofList_toList] at scans

end CubeScript
