import CubeScript.Proofs.Dialect.Letters
import CubeScript.Proofs.Reading.Grammar

/-!
# Cycles in writing

A cycle is written with a sign and parts, which have commas in between, and a part with the letters
of some faces and some digits. The tokens of such a text are those of its parts: before a comma or a
closing parenthesis a part is scanned as if it stood alone (`Lexer.Closed`).

Small letters are tokens whatever is behind them. Capital ones are, unless a two is behind them:
then the letter and the two are one token, the name of a half turn.
-/

namespace CubeScript

open Lexeme (mark)

/-- The faces and the digits that a part of a cycle is written with. -/
structure PartText where
  faces : List Face
  digits : List Char

/-- The lexemes of some digits: a number, if there are any. -/
def Lexeme.ofDigits (digits : List Char) : List Lexeme :=
  if digits = [] then [] else [⟨.number, String.ofList digits⟩]

namespace PartText

/-- A part in writing, with the letters that are given for the faces. -/
def chars (letter : Face → Char) (p : PartText) : List Char := p.faces.map letter ++ p.digits

/-- The lexemes of a part if every letter is one. -/
def lexemes (letter : Face → Char) (p : PartText) : List Lexeme :=
  p.faces.map (fun face => mark (letter face).toString) ++ Lexeme.ofDigits p.digits

/-- The lexemes of a part in capital letters. The last letter takes a two behind it with it. -/
def capitalLexemes (p : PartText) : List Lexeme :=
  match p.digits with
  | '2' :: digits => p.faces.dropLast.map (fun face => mark face.capital.toString) ++
    mark (String.ofList [(p.faces.getLastD .right).capital, '2']) :: Lexeme.ofDigits digits
  | _ => p.lexemes Face.capital

theorem capitalLexemes_eq {p : PartText} (other : p.digits.head? ≠ some '2') :
    p.capitalLexemes = p.lexemes Face.capital := by
  rw [capitalLexemes]
  split
  · rename_i split
    rw [split] at other
    exact absurd rfl other
  · rfl

/-- Whether a part names some face and has digits behind it and nothing else. -/
structure Proper (p : PartText) : Prop where
  filled : p.faces ≠ []
  digits : ∀ c ∈ p.digits, c.isDigit

end PartText

namespace Cycle

/-- The lexemes of a sign. -/
def Sign.lexemes : Sign → List Lexeme
  | .none => []
  | .plus => [mark "+"]
  | .minus => [mark "-"]
  | .plusPlus => [mark "++"]

/-- The lexemes between the parentheses of a cycle, where each of its parts has some. -/
def innerLexemes (sign : Sign) (lss : List (List Lexeme)) : List Lexeme :=
  sign.lexemes ++ [mark ","].intercalate lss

theorem mem_innerLexemes_iff {sign : Sign} {lss : List (List Lexeme)} {l : Lexeme} :
    l ∈ innerLexemes sign lss ↔
      l ∈ sign.lexemes ∨ (l = mark "," ∧ 1 < lss.length) ∨ ∃ ls ∈ lss, l ∈ ls := by
  rw [innerLexemes, List.mem_append]
  refine or_congr_right ?_
  induction lss with
  | nil => simp
  | cons ls lss ih =>
    cases lss with
    | nil => simp
    | cons _ _ =>
      rw [List.intercalate_cons_cons, List.mem_append, List.mem_append, ih, List.mem_singleton]
      simp only [List.length_cons, List.mem_cons]
      grind

/-- A cycle in writing. -/
def written (letter : Face → Char) (sign : Sign) (parts : List PartText) : String :=
  "(" ++ sign.text ++ ",".intercalate (parts.map fun p => String.ofList (p.chars letter)) ++ ")"

end Cycle

theorem signed_lexemes (sign : Cycle.Sign) : Signed sign.lexemes sign := by
  cases sign
  · exact .none
  · exact .plus
  · exact .minus
  · exact .plusPlus

namespace Lexer

/-! ### Scanning parts -/

/-- Whether some characters are scanned in one way before every comma and closing parenthesis. -/
def Closed (lexer : Lexer) (cs : List Char) (ls : List Lexeme) : Prop :=
  ∀ c, c = ',' ∨ c = ')' → ∀ rest, Scans lexer (cs ++ c :: rest) ls (c :: rest)

variable {lexer : Lexer}

namespace IsStandard

variable (standard : lexer.IsStandard)

include standard

/-- A sign is scanned alone, unless another plus is behind it. -/
theorem scans_sign (sign : Cycle.Sign) {rest : List Char} (next : ∀ c ∈ rest.head?, c ≠ '+') :
    Scans lexer (sign.text.toList ++ rest) sign.lexemes rest := by
  have operators : ∀ v ∈ Lexicon.standardMarks.map Prod.fst, v.toList ≠ [] ∧
      (v.toList.head? = some '-' → v = "-") ∧ (v.toList.head? = some '+' → v = "+" ∨ v = "++") := by
    decide
  have first {c : Char} {cs : List Char} {v : String}
      (isMark : v ∈ Lexicon.standardMarks.map Prod.fst) (begins : v.toList <+: c :: cs) :
      v.toList.head? = some c := by
    obtain ⟨d, ds, split⟩ := List.exists_cons_of_ne_nil (operators v isMark).1
    rw [split] at begins ⊢
    exact congrArg some (List.cons_prefix_cons.1 begins).1
  cases sign with
  | none => exact .done
  | minus =>
    refine standard.scans_longest_mark (by decide) fun v isMark begins => ?_
    rw [(operators v isMark).2.1 (first isMark begins)]
    exact Nat.le_refl _
  | plus =>
    refine standard.scans_longest_mark (by decide) fun v isMark begins => ?_
    obtain rfl | rfl := (operators v isMark).2.2 (first isMark begins)
    · exact Nat.le_refl _
    · obtain ⟨behind, same⟩ := begins
      cases same
      exact absurd rfl (next '+' rfl)
  | plusPlus =>
    refine standard.scans_longest_mark (by decide) fun v isMark begins => ?_
    obtain rfl | rfl := (operators v isMark).2.2 (first isMark begins)
    · exact Nat.le_succ 1
    · exact Nat.le_refl _

theorem closed_digits {digits : List Char} (each : ∀ c ∈ digits, c.isDigit) :
    lexer.Closed digits (Lexeme.ofDigits digits) := by
  intro c ends rest
  rw [Lexeme.ofDigits]
  split
  · rename_i none
    rw [none]
    exact .done
  · rename_i filled
    refine standard.scans_number filled each ?_
    rintro _ ⟨⟩
    obtain rfl | rfl := ends <;> decide

/-- Closed parts with commas in between are scanned part by part. -/
theorem scans_parts {css : List (List Char)} {lss : List (List Lexeme)}
    (closed : List.Forall₂ lexer.Closed css lss) (rest : List Char) :
    Scans lexer ([','].intercalate css ++ ')' :: rest) ([mark ","].intercalate lss)
      (')' :: rest) := by
  induction closed with
  | nil => exact .done
  | @cons cs ls css lss first others ih =>
    cases others with
    | nil =>
      rw [List.intercalate_singleton, List.intercalate_singleton]
      exact first ')' (.inr rfl) rest
    | cons second others =>
      rw [List.intercalate_cons_cons, List.intercalate_cons_cons]
      have comma := standard.scans_mark "," (by decide)
      have part := first ',' (.inl rfl)
      simp only [List.append_assoc, List.singleton_append]
      exact (part _).append ((comma _).append ih)

omit standard in
theorem head?_intercalate_ne_plus {css : List (List Char)} {rest : List Char}
    (unsigned : ∀ cs ∈ css, ∀ c ∈ cs.head?, c ≠ '+') :
    ∀ c ∈ ([','].intercalate css ++ ')' :: rest).head?, c ≠ '+' := by
  cases css with
  | nil =>
    rintro _ ⟨⟩
    decide
  | cons cs css =>
    have first := unsigned cs List.mem_cons_self
    cases cs with
    | cons d cs =>
      cases css <;> rintro _ ⟨⟩ <;> exact first d rfl
    | nil =>
      cases css <;> rintro _ ⟨⟩ <;> decide

/-- The tokens of a cycle in writing are its sign and those of its parts, in parentheses. -/
theorem lexemes_of_written {letter : Face → Char} (sign : Cycle.Sign) {parts : List PartText}
    {lss : List (List Lexeme)}
    (closed : List.Forall₂ (fun p ls => lexer.Closed (p.chars letter) ls) parts lss)
    (unsigned : ∀ p ∈ parts, ∀ c ∈ (p.chars letter).head?, c ≠ '+') :
    (lexer.tokens (Cycle.written letter sign parts)).map Token.lexeme =
      mark "(" :: (Cycle.innerLexemes sign lss ++ [mark ")"]) := by
  have split : (Cycle.written letter sign parts).toList = "(".toList ++ (sign.text.toList ++
      ([','].intercalate (parts.map (PartText.chars letter)) ++ ")".toList)) := by
    simp [Cycle.written, Function.comp_def]
  have next : ∀ c ∈ ([','].intercalate (parts.map (PartText.chars letter)) ++ ")".toList).head?,
      c ≠ '+' := by
    refine head?_intercalate_ne_plus fun cs member => ?_
    obtain ⟨p, listed, rfl⟩ := List.mem_map.1 member
    exact unsigned p listed
  have opening := standard.scans_mark "(" (by decide)
  have closing := standard.scans_mark ")" (by decide) []
  have inner := standard.scans_parts (List.forall₂_map_left_iff.2 closed) []
  refine Scans.lexemes_of_tokens standard.breaks ?_
  rw [split]
  have whole := (opening _).append ((standard.scans_sign sign next).append (inner.append closing))
  rwa [← List.append_assoc sign.lexemes] at whole

end IsStandard

namespace IsLettered

variable (lettered : lexer.IsLettered)

include lettered

theorem scans_letters (faces : List Face) (rest : List Char) :
    Scans lexer (faces.map Face.letter ++ rest) (faces.map fun face => mark face.letter.toString)
      rest := by
  induction faces with
  | nil => exact .done
  | cons face faces ih => exact (lettered.scans_letter face _).append ih

theorem scans_capitals (faces : List Face) {rest : List Char}
    (next : ∀ c ∈ rest.head?, c ≠ '\'' ∧ c ≠ '2') :
    Scans lexer (faces.map Face.capital ++ rest)
      (faces.map fun face => mark face.capital.toString) rest := by
  induction faces with
  | nil => exact .done
  | cons face faces ih =>
    refine (lettered.scans_capital face ?_).append ih
    cases faces with
    | nil => exact next
    | cons other faces =>
      rintro _ ⟨⟩
      cases other <;> decide

theorem closed_letters {p : PartText} (proper : p.Proper) :
    lexer.Closed (p.chars Face.letter) (p.lexemes Face.letter) := by
  intro c ends rest
  rw [PartText.chars, List.append_assoc]
  exact (lettered.scans_letters p.faces _).append
    (lettered.closed_digits proper.digits c ends rest)

omit lettered in
/-- No apostrophe is behind the letters of a part. -/
theorem head?_digits_ne_quote {digits : List Char} (each : ∀ c ∈ digits, c.isDigit) {c : Char}
    (ends : c = ',' ∨ c = ')') (rest : List Char) : ∀ d ∈ (digits ++ c :: rest).head?, d ≠ '\'' := by
  cases digits with
  | nil =>
    rintro _ ⟨⟩
    obtain rfl | rfl := ends <;> decide
  | cons d digits =>
    rintro _ ⟨⟩ rfl
    exact absurd (each _ List.mem_cons_self) (by decide)

theorem closed_capitals {p : PartText} (proper : p.Proper) :
    lexer.Closed (p.chars Face.capital) p.capitalLexemes := by
  intro c ends rest
  rw [PartText.chars]
  by_cases half : p.digits.head? = some '2'
  · obtain ⟨digits, split⟩ := List.head?_eq_some_iff.1 half
    obtain empty | ⟨before, face, named⟩ := List.eq_nil_or_concat p.faces
    · exact absurd empty proper.filled
    have each : ∀ d ∈ digits, d.isDigit := fun d member =>
      proper.digits d (by rw [split]; exact List.mem_cons_of_mem _ member)
    have letters : ∀ d ∈ (face.capital :: '2' :: (digits ++ c :: rest)).head?,
        d ≠ '\'' ∧ d ≠ '2' := by
      rintro _ ⟨⟩
      cases face <;> decide
    have scans := (lettered.scans_capitals before letters).append
      ((lettered.scans_halfTurn face (head?_digits_ne_quote each ends rest)).append
        (lettered.closed_digits each c ends rest))
    rw [PartText.capitalLexemes, split, named]
    simpa using scans
  · have next : ∀ d ∈ (p.digits ++ c :: rest).head?, d ≠ '\'' ∧ d ≠ '2' := by
      refine fun d first => ⟨head?_digits_ne_quote proper.digits ends rest d first, ?_⟩
      rintro rfl
      cases digits : p.digits with
      | nil =>
        rw [digits] at first
        cases first
        exact absurd ends (by decide)
      | cons d _ =>
        rw [digits] at first half
        exact half first
    rw [PartText.capitalLexemes_eq half, List.append_assoc]
    exact (lettered.scans_capitals p.faces next).append
      (lettered.closed_digits proper.digits c ends rest)

section

variable (sign : Cycle.Sign) {parts : List PartText} (proper : ∀ p ∈ parts, p.Proper)

include proper

omit lettered in
/-- A part begins with a letter and not with a plus. -/
theorem head?_chars_ne_plus {letter : Face → Char} (letters : ∀ face, letter face ≠ '+') :
    ∀ p ∈ parts, ∀ c ∈ (p.chars letter).head?, c ≠ '+' := by
  intro p listed c first
  obtain ⟨face, faces, split⟩ := List.exists_cons_of_ne_nil (proper p listed).filled
  rw [PartText.chars, split] at first
  cases first
  exact letters face

theorem lexemes_of_small : (lexer.tokens (Cycle.written Face.letter sign parts)).map Token.lexeme =
    mark "(" :: (Cycle.innerLexemes sign (parts.map (PartText.lexemes Face.letter)) ++
      [mark ")"]) := by
  refine lettered.lexemes_of_written sign ?_ (head?_chars_ne_plus proper ?_)
  · rw [List.forall₂_map_right_iff, List.forall₂_same]
    exact fun p listed => lettered.closed_letters (proper p listed)
  · rintro ⟨⟩ <;> decide

theorem lexemes_of_capital :
    (lexer.tokens (Cycle.written Face.capital sign parts)).map Token.lexeme =
      mark "(" :: (Cycle.innerLexemes sign (parts.map PartText.capitalLexemes) ++
        [mark ")"]) := by
  refine lettered.lexemes_of_written sign ?_ (head?_chars_ne_plus proper ?_)
  · rw [List.forall₂_map_right_iff, List.forall₂_same]
    exact fun p listed => lettered.closed_capitals (proper p listed)
  · rintro ⟨⟩ <;> decide

end

end IsLettered

end Lexer

end CubeScript
