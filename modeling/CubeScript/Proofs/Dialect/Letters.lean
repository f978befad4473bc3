import CubeScript.Proofs.Dialect.Spelling

/-!
# The letters of faces in a text

No keyword of the standard dialect begins with the small letter of a face but the letter itself.
With the capital letter begin four: the letter, and the letter with one of the marks of an angle
behind it, which are an apostrophe, a two, and both. The longest of them is the token, so a capital
letter before a number that begins with a two is none by itself.
-/

namespace CubeScript

open Lexeme (mark)

namespace Lexicon

/-! ### Keywords that begin with the letter of a face -/

/-- What may be behind the capital letter of a face in the name of a turn. -/
def angleMarks : List (List Char) := [[], ['\''], ['2'], ['2', '\'']]

/-- No mark begins with the letter of a face. -/
theorem head?_of_mem_standardMarks {w : String} (isMark : w ∈ standardMarks.map Prod.fst)
    (face : Face) : w.toList.head? ≠ some face.letter ∧ w.toList.head? ≠ some face.capital := by
  have apart : ∀ w ∈ standardMarks.map Prod.fst, ∀ f ∈ Face.all,
      w.toList.head? ≠ some f.letter ∧ w.toList.head? ≠ some f.capital := by
    decide
  exact apart w isMark face face.mem_all

/-- The letters that tell layers are no letters of faces. -/
theorem first_of_mem_standardDepths {n : Nat} {before : String} {depths : List Nat}
    (member : (before, depths) ∈ standardDepths n) :
    before = "" ∨ ∃ c cs, before.toList = c :: cs ∧ ∀ face : Face, c ≠ face.letter ∧
      c ≠ face.capital := by
  have apart : ∀ w ∈ ["S", "C", "M", "T", "W", "N"], ∃ c, w.toList = [c] ∧
      ∀ face : Face, c ≠ face.letter ∧ c ≠ face.capital := by
    simp only [List.mem_cons, List.not_mem_nil, or_false]
    rintro w (rfl | rfl | rfl | rfl | rfl | rfl)
    all_goals exact ⟨_, rfl, by rintro ⟨⟩ <;> decide⟩
  obtain rfl | ⟨w, letter, rfl | ⟨k, rfl⟩⟩ := eq_of_mem_standardDepths member
  · exact .inl rfl
  · obtain ⟨c, same, other⟩ := apart before letter
    exact .inr ⟨c, [], same, other⟩
  · obtain ⟨c, same, other⟩ := apart w letter
    exact .inr ⟨c, (toString k).toList, by rw [String.toList_append, same]; rfl, other⟩

theorem rest_of_mem_standardTurns {n : Nat} {other : Face} {name : String} {t : Turn}
    (member : (name, t) ∈ standardTurns n other) (face : Face) (rest : List Char) :
    name.toList ≠ face.letter :: rest ∧
      (name.toList = face.capital :: rest → rest ∈ angleMarks) := by
  simp only [standardTurns, List.mem_flatMap, List.mem_map, Prod.exists, Prod.mk.injEq] at member
  obtain ⟨before, depths, depth, after, angle, angles, rfl, _⟩ := member
  have split : (before ++ toString other.capital ++ after).toList =
      before.toList ++ other.capital :: after.toList := by
    simp [toString]
  change (before ++ toString other.capital ++ after).toList ≠ _ ∧
    ((before ++ toString other.capital ++ after).toList = _ → _)
  rw [split]
  obtain rfl | ⟨c, cs, begins, apart⟩ := first_of_mem_standardDepths depth
  · have marks : after.toList ∈ standardAngles.map (·.1.toList) :=
      List.mem_map_of_mem (f := (·.1.toList)) angles
    refine ⟨fun same => ?_, fun same => ?_⟩
    · have first : other.capital = face.letter := (List.cons.inj same).1
      revert first
      cases other <;> cases face <;> decide
    · rw [← (List.cons.inj same).2]
      exact marks
  · rw [begins, List.cons_append]
    exact ⟨fun same => absurd (List.cons.inj same).1 (apart face).1,
      fun same => absurd (List.cons.inj same).1 (apart face).2⟩

/-- A keyword that begins with the letter of a face is that letter, or the capital one with the mark
of an angle. -/
theorem rest_of_known {size : Size} {w : String}
    (known : w ∈ (standardMeanings size.layers).map Prod.fst) (face : Face) (rest : List Char) :
    (w.toList = face.letter :: rest → rest = []) ∧
      (w.toList = face.capital :: rest → rest ∈ angleMarks) := by
  have single {c d : Char} (same : (c.toString).toList = d :: rest) : rest = [] := by
    have one : [c] = d :: rest := by
      rwa [Char.toString_eq_singleton, String.toList_singleton] at same
    exact (List.cons.inj one).2.symm
  have ofLetter (c : Char) : (c.toString.toList = face.letter :: rest → rest = []) ∧
      (c.toString.toList = face.capital :: rest → rest ∈ angleMarks) := by
    refine ⟨single, fun same => ?_⟩
    rw [single same]
    exact List.mem_cons_self
  have ofTurn (other : Face) (name : String) (t : Turn)
      (member : (name, t) ∈ standardTurns size.layers other) :
      (name.toList = face.letter :: rest → rest = []) ∧
        (name.toList = face.capital :: rest → rest ∈ angleMarks) :=
    (rest_of_mem_standardTurns member face rest).imp_left fun other same => absurd same other
  obtain isMark | holds := mark_or_of_known (fun w =>
    (w.toList = face.letter :: rest → rest = []) ∧
      (w.toList = face.capital :: rest → rest ∈ angleMarks))
    (fun other => ofLetter other.letter) (fun other => ofLetter other.capital) ofTurn known
  · obtain ⟨small, large⟩ := head?_of_mem_standardMarks isMark face
    refine ⟨fun same => absurd ?_ small, fun same => absurd ?_ large⟩
    all_goals rw [same, List.head?_cons]
  · exact holds

section

variable (size : Size) (face : Face)

theorem contains_letter : (standard size).dialect.lexer.keywords.contains [face.letter] := by
  refine (Lexer.contains_keywords_of_adds (adds_standard size)).2 ⟨List.cons_ne_nil _ _, ?_⟩
  have means : Lexeme.means size (mark face.letter.toString) (.face face) := by
    simp [Lexeme.means]
  exact List.mem_map.2 ⟨_, mem_standardMeanings_iff.2 means, rfl⟩

theorem contains_capital {after : List Char} (angle : after ∈ angleMarks) :
    (standard size).dialect.lexer.keywords.contains (face.capital :: after) := by
  have marks : after ∈ standardAngles.map fun entry => entry.1.toList := angle
  obtain ⟨⟨name, turned⟩, listed, rfl⟩ := List.mem_map.1 marks
  have written : String.ofList (face.capital :: name.toList) =
      "" ++ toString face.capital ++ name := by
    apply String.toList_inj.1
    simp [toString]
  have outer : ("", [1]) ∈ standardDepths size.layers := by simp [standardDepths]
  have turn : "" ++ toString face.capital ++ name ∈ (standardTurns size.layers face).map Prod.fst :=
    List.mem_map.2 ⟨_, List.mem_flatMap.2 ⟨_, outer, List.mem_map.2 ⟨_, listed, rfl⟩⟩, rfl⟩
  obtain ⟨⟨_, t⟩, member, rfl⟩ := List.mem_map.1 turn
  refine (Lexer.contains_keywords_of_adds (adds_standard size)).2 ⟨List.cons_ne_nil _ _, ?_⟩
  rw [written]
  have own : (_, Symbol.move) ∈ faceMeanings size.layers face :=
    List.mem_append_right _ (List.mem_map.2 ⟨_, member, rfl⟩)
  have listed := List.mem_flatMap.2 ⟨face, face.mem_all, own⟩
  exact List.mem_map.2 ⟨_, List.mem_append_right _ listed, rfl⟩

end

end Lexicon

namespace Lexer

/-! ### Scanning letters -/

/-- What there is to know about a lexer of the standard dialect and the letters of faces. -/
structure IsLettered (lexer : Lexer) : Prop extends lexer.IsStandard where
  letter : ∀ (face : Face) rest, lexer.keywords.contains (face.letter :: rest) ↔ rest = []
  capital : ∀ (face : Face) rest,
    lexer.keywords.contains (face.capital :: rest) ↔ rest ∈ Lexicon.angleMarks

theorem isLettered_standard (size : Size) : (Lexicon.standard size).dialect.lexer.IsLettered where
  toIsStandard := isStandard_standard size
  letter face rest := by
    refine ⟨fun known => ?_, fun none => none ▸ Lexicon.contains_letter size face⟩
    have listed := ((contains_keywords_of_adds (Lexicon.adds_standard size)).1 known).2
    exact (Lexicon.rest_of_known listed face rest).1 String.toList_ofList
  capital face rest := by
    refine ⟨fun known => ?_, Lexicon.contains_capital size face⟩
    have listed := ((contains_keywords_of_adds (Lexicon.adds_standard size)).1 known).2
    exact (Lexicon.rest_of_known listed face rest).2 String.toList_ofList

namespace IsLettered

variable {lexer : Lexer} (lettered : lexer.IsLettered) (face : Face)

include lettered

theorem scans_letter (rest : List Char) :
    Scans lexer (face.letter :: rest) [mark face.letter.toString] rest := by
  have plain : face.letter ≠ '/' ∧ face.letter ∉ Dialect.defaultBlanks := by
    cases face <;> decide
  have longest : Longest lexer.keywords.IsKeyword ([face.letter] ++ rest) [face.letter] := by
    refine ⟨⟨List.cons_ne_nil _ _, (lettered.letter face []).2 rfl⟩, List.prefix_append _ _, ?_⟩
    rintro (_ | ⟨c, v⟩) keyword begins
    · exact absurd rfl keyword.1
    · obtain ⟨rfl, _⟩ := List.cons_prefix_cons.1 begins
      rw [(lettered.letter face v).1 keyword.2]
  exact lettered.scans_keyword plain.1 plain.2 longest

/-- A capital letter is scanned with the longest mark of an angle that is behind it. -/
theorem scans_turn {after rest : List Char} (angle : after ∈ Lexicon.angleMarks)
    (most : ∀ v ∈ Lexicon.angleMarks, v <+: after ++ rest → v.length ≤ after.length) :
    Scans lexer (face.capital :: after ++ rest) [mark (String.ofList (face.capital :: after))]
      rest := by
  have plain : face.capital ≠ '/' ∧ face.capital ∉ Dialect.defaultBlanks := by
    cases face <;> decide
  refine lettered.scans_keyword plain.1 plain.2
    ⟨⟨List.cons_ne_nil _ _, (lettered.capital face after).2 angle⟩, List.prefix_append _ _, ?_⟩
  rintro (_ | ⟨c, v⟩) keyword begins
  · exact absurd rfl keyword.1
  · obtain ⟨rfl, later⟩ := List.cons_prefix_cons.1 begins
    exact Nat.succ_le_succ (most v ((lettered.capital face v).1 keyword.2) later)

theorem scans_capital {rest : List Char} (next : ∀ c ∈ rest.head?, c ≠ '\'' ∧ c ≠ '2') :
    Scans lexer (face.capital :: rest) [mark face.capital.toString] rest := by
  have most : ∀ v ∈ Lexicon.angleMarks, v <+: [] ++ rest → v.length ≤ ([] : List Char).length := by
    rintro (_ | ⟨c, v⟩) listed begins
    · exact Nat.le_refl 0
    · obtain ⟨behind, rfl⟩ := begins
      have first : ∀ w ∈ Lexicon.angleMarks, w.head?.all fun c => c = '\'' ∨ c = '2' := by
        decide
      obtain ⟨noQuote, noTwo⟩ := next c rfl
      exact absurd (of_decide_eq_true (first _ listed)) (not_or.2 ⟨noQuote, noTwo⟩)
  exact lettered.scans_turn face (by decide) most

theorem scans_halfTurn {rest : List Char} (next : ∀ c ∈ rest.head?, c ≠ '\'') :
    Scans lexer (face.capital :: '2' :: rest) [mark (String.ofList [face.capital, '2'])] rest := by
  have most : ∀ v ∈ Lexicon.angleMarks, v <+: ['2'] ++ rest → v.length ≤ ['2'].length := by
    intro v listed begins
    have short : ∀ w ∈ Lexicon.angleMarks, w.length ≤ 1 ∨ w = ['2', '\''] := by decide
    obtain one | rfl := short v listed
    · exact one
    · obtain ⟨behind, rfl⟩ := (List.cons_prefix_cons.1 begins).2
      exact absurd rfl (next '\'' rfl)
  exact lettered.scans_turn face (by decide) most

end IsLettered

end Lexer

end CubeScript
