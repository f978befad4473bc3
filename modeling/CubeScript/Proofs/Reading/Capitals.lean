import CubeScript.Proofs.Reading.Printing

/-!
# Cycles in capital letters

The letters of a cycle may be capital ones, since these are lexemes of the same faces. But a capital
letter with a two behind it is the name of a half turn, and the longest keyword is the token. So the
number of a part cannot begin with a two there: the token is no letter of a face, and the lexemes
between the parentheses are no parts. They are no script either, with a comma between the parts, so
nothing can be read of the text. All other cycles of several parts are read alike in small and in
capital letters.
-/

namespace CubeScript

open Lexeme (mark)

namespace Lexeme

/-! ### Lexemes of parts -/

/-- Whether a lexeme is a number or begins with the letter of a face. -/
def OfPart (l : Lexeme) : Prop :=
  l.kind = .number ∨ ∃ (face : Face) (cs : List Char),
    l = mark (String.ofList (face.letter :: cs)) ∨ l = mark (String.ofList (face.capital :: cs))

theorem OfPart.ne_mark {l : Lexeme} (inPart : l.OfPart) {w : String}
    (isMark : w ∈ Lexicon.standardMarks.map Prod.fst) : l ≠ mark w := by
  rintro rfl
  obtain number | ⟨face, cs, same⟩ := inPart
  · cases number
  · obtain ⟨small, large⟩ := Lexicon.head?_of_mem_standardMarks isMark face
    obtain same | same := same
    · rw [mark_inj.1 same, String.toList_ofList] at small
      exact small rfl
    · rw [mark_inj.1 same, String.toList_ofList] at large
      exact large rfl

theorem ofPart_of_mem_ofDigits {digits : List Char} {l : Lexeme} (member : l ∈ ofDigits digits) :
    l.OfPart := by
  rw [ofDigits] at member
  split at member
  · cases member
  · rw [List.mem_singleton.1 member]
    exact .inl rfl

end Lexeme

namespace PartText

variable (p : PartText)

theorem ofPart_small : ∀ l ∈ p.lexemes Face.letter, l.OfPart := by
  intro l member
  obtain letters | digits := List.mem_append.1 member
  · obtain ⟨face, _, rfl⟩ := List.mem_map.1 letters
    exact .inr ⟨face, [], .inl rfl⟩
  · exact Lexeme.ofPart_of_mem_ofDigits digits

theorem ofPart_capital : ∀ l ∈ p.capitalLexemes, l.OfPart := by
  intro l member
  have letter {faces : List Face} (letters : l ∈ faces.map fun face => mark face.capital.toString) :
      l.OfPart := by
    obtain ⟨face, _, rfl⟩ := List.mem_map.1 letters
    exact .inr ⟨face, [], .inr rfl⟩
  rw [capitalLexemes] at member
  split at member
  · obtain letters | behind := List.mem_append.1 member
    · exact letter letters
    · obtain rfl | digits := List.mem_cons.1 behind
      · exact .inr ⟨_, ['2'], .inr rfl⟩
      · exact Lexeme.ofPart_of_mem_ofDigits digits
  · obtain letters | digits := List.mem_append.1 member
    · exact letter letters
    · exact Lexeme.ofPart_of_mem_ofDigits digits

/-- The half turn that the last letter of a part becomes. -/
theorem halfTurn_mem_capitalLexemes {p : PartText} (half : p.digits.head? = some '2') :
    ∃ face : Face, mark (String.ofList [face.capital, '2']) ∈ p.capitalLexemes := by
  obtain ⟨digits, split⟩ := List.head?_eq_some_iff.1 half
  refine ⟨p.faces.getLastD .right, ?_⟩
  rw [capitalLexemes, split]
  exact List.mem_append_right _ List.mem_cons_self

end PartText

namespace Cycle

section

variable {lexemes : PartText → List Lexeme} (inPart : ∀ p, ∀ l ∈ lexemes p, l.OfPart)
  (sign : Sign) {parts : List PartText}

include inPart

/-- There are no brackets inside a cycle. -/
theorem bracket_notMem_innerLexemes {w : String} (bracket : w ∈ ["(", ")", "["]) :
    mark w ∉ innerLexemes sign (parts.map lexemes) := by
  have other : ∀ w ∈ ["(", ")", "["], w ∈ Lexicon.standardMarks.map Prod.fst ∧ w ≠ "," ∧
      ∀ sign ∈ Sign.all, mark w ∉ sign.lexemes := by
    decide
  obtain ⟨isMark, noComma, noSign⟩ := other w bracket
  intro member
  obtain signs | ⟨comma, _⟩ | ⟨ls, listed, inside⟩ := mem_innerLexemes_iff.1 member
  · exact noSign sign (by cases sign <;> decide) signs
  · exact noComma (Lexeme.mark_inj.1 comma)
  · obtain ⟨p, _, rfl⟩ := List.mem_map.1 listed
    exact (inPart p _ inside).ne_mark isMark rfl

/-- Parts with a comma in between are no script. -/
theorem not_derives_innerLexemes (size : Size) (several : 1 < parts.length) :
    ¬ Derives size .script (innerLexemes sign (parts.map lexemes)) := by
  intro derived
  have comma : mark "," ∈ innerLexemes sign (parts.map lexemes) :=
    mem_innerLexemes_iff.2 (.inr (.inl ⟨rfl, by rwa [List.length_map]⟩))
  obtain round | square := derived.bracket_of_comma comma
  · exact bracket_notMem_innerLexemes inPart sign (by decide) round
  · exact bracket_notMem_innerLexemes inPart sign (by decide) square

theorem isInner_innerLexemes : ∀ l ∈ innerLexemes sign (parts.map lexemes), l.IsInner := by
  intro l member
  constructor
  · rintro rfl
    exact bracket_notMem_innerLexemes inPart sign (by decide) member
  · rintro rfl
    exact bracket_notMem_innerLexemes inPart sign (by decide) member

end

end Cycle

/-! ### From small letters to capital ones -/

namespace Lexeme

/-- The capital letter of a face for the small one, and every other lexeme as it is. -/
def raise (l : Lexeme) : Lexeme :=
  match Face.all.find? fun face => l = mark face.letter.toString with
  | some face => mark face.capital.toString
  | none => l

theorem raise_letter (face : Face) :
    (mark face.letter.toString).raise = mark face.capital.toString := by
  cases face <;> decide

theorem raise_capital (face : Face) :
    (mark face.capital.toString).raise = mark face.capital.toString := by
  cases face <;> decide

theorem raise_of_number {l : Lexeme} (number : l.kind = .number) : l.raise = l := by
  have none : (Face.all.find? fun face => l = mark face.letter.toString) = none := by
    rw [List.find?_eq_none]
    rintro face _ same
    rw [of_decide_eq_true same] at number
    cases number
  rw [raise, none]

theorem IsFace.raise {l : Lexeme} {face : Face} (letter : l.IsFace face) :
    l.raise.IsFace face := by
  obtain rfl | rfl := letter
  · exact .inr (raise_letter face)
  · exact .inr (raise_capital face)

theorem map_raise_ofDigits (digits : List Char) :
    (ofDigits digits).map raise = ofDigits digits := by
  rw [ofDigits]
  split
  · rfl
  · exact congrArg (fun l => [l]) (raise_of_number rfl)

end Lexeme

theorem PartText.map_raise_lexemes (p : PartText) :
    (p.lexemes Face.letter).map Lexeme.raise = p.lexemes Face.capital := by
  rw [lexemes, List.map_append, List.map_map, Lexeme.map_raise_ofDigits, lexemes]
  congr 1
  exact List.map_congr_left fun face _ => Lexeme.raise_letter face

theorem Signed.map_raise {w : List Lexeme} {sign : Cycle.Sign} (signed : Signed w sign) :
    w.map Lexeme.raise = w := by
  cases signed <;> decide

theorem Cycle.map_raise_innerLexemes (sign : Sign) (parts : List PartText) :
    (innerLexemes sign (parts.map (PartText.lexemes Face.letter))).map Lexeme.raise =
      innerLexemes sign (parts.map (PartText.lexemes Face.capital)) := by
  rw [innerLexemes, List.map_append, (signed_lexemes sign).map_raise, innerLexemes]
  congr 1
  induction parts with
  | nil => rfl
  | cons p parts ih =>
    cases parts with
    | nil =>
      simp only [List.map_singleton, List.intercalate_singleton]
      exact p.map_raise_lexemes
    | cons second parts =>
      simp only [List.map_cons, List.intercalate_cons_cons, List.map_append] at ih ⊢
      rw [p.map_raise_lexemes, ih]
      rfl

theorem Spells.map_raise {size : Size} {letters digits : List Lexeme} {faces : List Face}
    {number : Option Nat} {item : Cycle.Item}
    (spelt : Spells size letters faces digits number item) :
    Spells size (letters.map Lexeme.raise) faces (digits.map Lexeme.raise) number item where
  letters := List.forall₂_map_left_iff.2 (spelt.letters.imp fun _ _ letter => letter.raise)
  some_face := spelt.some_face
  three_faces := spelt.three_faces
  digits := by
    cases spelt.digits with
    | none => exact .none
    | some many counted =>
      rw [List.map_singleton, Lexeme.raise_of_number (Lexeme.kind_of_number? counted)]
      exact .some many counted
  item := spelt.item

/-- Parts are the same parts in capital letters. -/
theorem Parts.map_raise {size : Size} {w : List Lexeme} {items : List Cycle.Item}
    (parts : Parts size w items) : Parts size (w.map Lexeme.raise) items := by
  induction parts with
  | last spelt =>
    rw [List.map_append]
    exact .last spelt.map_raise
  | more spelt _ ih =>
    have more := Parts.more spelt.map_raise ih
    rw [List.map_append, List.map_append, List.map_cons]
    exact more

/-- There is nothing but letters of faces, numbers and commas in parts. -/
theorem Parts.cases_of_mem {size : Size} {w : List Lexeme} {items : List Cycle.Item}
    (parts : Parts size w items) {l : Lexeme} (member : l ∈ w) :
    (∃ face, l.IsFace face) ∨ l.kind = .number ∨ l = mark "," := by
  have ofSpells {letters digits : List Lexeme} {faces : List Face} {number : Option Nat}
      {item : Cycle.Item} (spelt : Spells size letters faces digits number item)
      (member : l ∈ letters ++ digits) : (∃ face, l.IsFace face) ∨ l.kind = .number := by
    obtain letter | digit := List.mem_append.1 member
    · exact .inl (exists_of_mem_of_forall₂ spelt.letters letter)
    · cases spelt.digits with
      | none => cases digit
      | some _ counted =>
        rw [List.mem_singleton.1 digit]
        exact .inr (Lexeme.kind_of_number? counted)
  induction parts with
  | last spelt => exact (ofSpells spelt member).imp_right .inl
  | more spelt _ ih =>
    obtain first | behind := List.mem_append.1 member
    · exact (ofSpells spelt first).imp_right .inl
    · obtain rfl | later := List.mem_cons.1 behind
      · exact .inr (.inr rfl)
      · exact ih later

/-- The name of a half turn is neither a sign nor in a part. -/
theorem halfTurn_notMem {size : Size} {signs w : List Lexeme} {sign : Cycle.Sign}
    {items : List Cycle.Item} (signed : Signed signs sign) (parts : Parts size w items)
    (face : Face) : mark (String.ofList [face.capital, '2']) ∉ signs ++ w := by
  have inPart : (mark (String.ofList [face.capital, '2'])).OfPart := .inr ⟨face, ['2'], .inr rfl⟩
  have letter {c : Char} (same : String.ofList [face.capital, '2'] = c.toString) : False := by
    have two := congrArg (·.toList.length) same
    simp [Char.toString_eq_singleton] at two
  intro member
  obtain inSign | member := List.mem_append.1 member
  · cases signed with
    | none => cases inSign
    | plus => exact inPart.ne_mark (by decide) (List.mem_singleton.1 inSign)
    | minus => exact inPart.ne_mark (by decide) (List.mem_singleton.1 inSign)
    | plusPlus => exact inPart.ne_mark (by decide) (List.mem_singleton.1 inSign)
  · obtain ⟨other, small | large⟩ | number | comma := parts.cases_of_mem member
    · exact letter (Lexeme.mark_inj.1 small)
    · exact letter (Lexeme.mark_inj.1 large)
    · cases number
    · exact inPart.ne_mark (by decide) comma

namespace Reader

section

variable {size : Size} {depth nesting : Nat} {sign : Cycle.Sign} {parts : List PartText}
  (proper : ∀ p ∈ parts, p.Proper) (several : 1 < parts.length)

include proper several

/-- Where a cycle is read in small letters, there are parts of it between the parentheses. -/
theorem parts_of_read_small {script : Script} {c : Cycle} (nests : 0 < nesting)
    (read : (standard size depth nesting).read (Cycle.written Face.letter sign parts) = .ok script)
    (cycle : script.IsCycle c) : ∃ signs w kept items,
      Cycle.innerLexemes sign (parts.map (PartText.lexemes Face.letter)) = signs ++ w ∧
        Signed signs kept ∧ Parts size w items ∧ Cycle.make items kept = .ok c := by
  have lexemes := (Lexer.isLettered_standard size).lexemes_of_small sign proper
  have other := Cycle.not_derives_innerLexemes PartText.ofPart_small sign size several
  obtain ⟨signs, w, kept, items, found, split, signed, spelt, made⟩ :=
    parts_of_read lexemes other (Cycle.isInner_innerLexemes PartText.ofPart_small sign) read
  obtain ⟨again, readAgain, isFound⟩ := read_of_parts lexemes other nests split signed spelt made
  obtain rfl := Except.ok.inj (read.symm.trans readAgain)
  obtain rfl := cycle.unique isFound
  exact ⟨signs, w, kept, items, split, signed, spelt, made⟩

/-- The parts of a cycle in small letters are read in capital ones, if no number begins with a
two. -/
theorem read_capital_of_parts {signs w : List Lexeme} {kept : Cycle.Sign} {items : List Cycle.Item}
    {c : Cycle} (nests : 0 < nesting) (whole : ∀ p ∈ parts, p.digits.head? ≠ some '2')
    (split : Cycle.innerLexemes sign (parts.map (PartText.lexemes Face.letter)) = signs ++ w)
    (signed : Signed signs kept) (spelt : Parts size w items)
    (made : Cycle.make items kept = .ok c) : ∃ script,
      (standard size depth nesting).read (Cycle.written Face.capital sign parts) = .ok script ∧
        script.IsCycle c := by
  have lexemes := (Lexer.isLettered_standard size).lexemes_of_capital sign proper
  have other := Cycle.not_derives_innerLexemes PartText.ofPart_capital sign size several
  have capitals : parts.map PartText.capitalLexemes = parts.map (PartText.lexemes Face.capital) :=
    List.map_congr_left fun p listed => PartText.capitalLexemes_eq (whole p listed)
  have raised : Cycle.innerLexemes sign (parts.map PartText.capitalLexemes) =
      signs ++ w.map Lexeme.raise := by
    rw [capitals, ← Cycle.map_raise_innerLexemes, split, List.map_append, signed.map_raise]
  exact read_of_parts lexemes other nests raised signed spelt.map_raise made

/-- Nothing is read of a cycle in capital letters with a number that begins with a two. -/
theorem not_read_capital (half : ∃ p ∈ parts, p.digits.head? = some '2') (script : Script) :
    (standard size depth nesting).read (Cycle.written Face.capital sign parts) ≠ .ok script := by
  intro read
  have lexemes := (Lexer.isLettered_standard size).lexemes_of_capital sign proper
  have other := Cycle.not_derives_innerLexemes PartText.ofPart_capital sign size several
  obtain ⟨signs, w, kept, items, c, split, signed, spelt, _⟩ :=
    parts_of_read lexemes other (Cycle.isInner_innerLexemes PartText.ofPart_capital sign) read
  obtain ⟨p, listed, two⟩ := half
  obtain ⟨face, member⟩ := PartText.halfTurn_mem_capitalLexemes two
  have inside : mark (String.ofList [face.capital, '2']) ∈
      Cycle.innerLexemes sign (parts.map PartText.capitalLexemes) :=
    Cycle.mem_innerLexemes_iff.2 (.inr (.inr ⟨_, List.mem_map_of_mem listed, member⟩))
  rw [split] at inside
  exact halfTurn_notMem signed spelt face inside

/-- In capital letters a cycle of several parts is read as the same cycle, unless the number of a
part begins with a two. Then nothing is read. -/
theorem read_capital {script : Script} {c : Cycle} (nests : 0 < nesting)
    (read : (standard size depth nesting).read (Cycle.written Face.letter sign parts) = .ok script)
    (cycle : script.IsCycle c) :
    ((∀ p ∈ parts, p.digits.head? ≠ some '2') → ∃ raised,
      (standard size depth nesting).read (Cycle.written Face.capital sign parts) = .ok raised ∧
        raised.IsCycle c) ∧
      ((∃ p ∈ parts, p.digits.head? = some '2') → ∀ raised,
        (standard size depth nesting).read (Cycle.written Face.capital sign parts) ≠
          .ok raised) := by
  refine ⟨fun whole => ?_, not_read_capital proper several⟩
  obtain ⟨signs, w, kept, items, split, signed, spelt, made⟩ :=
    parts_of_read_small proper several nests read cycle
  exact read_capital_of_parts proper several nests whole split signed spelt made

end

/-- A two may be anywhere else in a number. -/
theorem read_capital_sides :
    let size : Size := ⟨6, by decide, by decide⟩
    let parts : List PartText := [⟨[.up], ['1', '2']⟩, ⟨[.front], ['4']⟩]
    (∀ p ∈ parts, p.Proper) ∧ 1 < parts.length ∧ 0 < 1 ∧ ∃ script c,
      (standard size 0 1).read (Cycle.written Face.letter .plus parts) = .ok script ∧
        script.IsCycle c ∧
          ((∀ p ∈ parts, p.digits.head? ≠ some '2') → ∃ raised,
            (standard size 0 1).read (Cycle.written Face.capital .plus parts) = .ok raised ∧
              raised.IsCycle c) ∧
            ((∃ p ∈ parts, p.digits.head? = some '2') → ∀ raised,
              (standard size 0 1).read (Cycle.written Face.capital .plus parts) ≠
                .ok raised) := by
  intro size parts
  have proper : ∀ p ∈ parts, p.Proper :=
    List.forall_mem_cons.2 ⟨⟨by decide, List.all_eq_true.1 rfl⟩, List.forall_mem_singleton.2
      ⟨by decide, List.all_eq_true.1 rfl⟩⟩
  have up : Cycle.Item.ofFaces size [.up] (some 12) = .ok ⟨.side, 67, 0, "u12"⟩ := by
    decide +kernel
  have front : Cycle.Item.ofFaces size [.front] (some 4) = .ok ⟨.side, 20, 0, "f4"⟩ := by
    decide +kernel
  have many : ¬ size.layers ≤ 3 := by decide
  obtain ⟨c, made⟩ : ∃ c, Cycle.make [⟨.side, 67, 0, "u12"⟩, ⟨.side, 20, 0, "f4"⟩] .plus = .ok c :=
    ⟨_, rfl⟩
  have named : ∀ item ∈ c.items, item.IsNamed size := by
    rw [(Cycle.make_eq_ok_iff.1 made).1]
    exact List.forall_mem_cons.2 ⟨⟨_, _, up, fun few => absurd few many⟩,
      List.forall_mem_singleton.2 ⟨_, _, front, fun few => absurd few many⟩⟩
  have text : c.text = Cycle.written Face.letter .plus parts := by
    cases made
    decide +kernel
  obtain ⟨script, read, cycle⟩ : ∃ script, (standard size 0 1).read c.text = .ok script ∧
      script.IsCycle c := read_text named Nat.one_pos
  rw [text] at read
  exact ⟨proper, by decide, by decide, script, c, read, cycle,
    read_capital proper (by decide) Nat.one_pos read cycle⟩

/-- A cycle may be read in small letters and not in capital ones. -/
theorem exists_not_read_capital :
    let reader := standard ⟨4, by decide, by decide⟩ 32 64
    (∃ script c, reader.read "(u2,f3)" = .ok script ∧ script.IsCycle c) ∧
      ∀ script, reader.read "(U2,F3)" ≠ .ok script := by
  let size : Size := ⟨4, by decide, by decide⟩
  have up : Cycle.Item.ofFaces size [.up] (some 2) = .ok ⟨.side, 7, 0, "u2"⟩ := by decide +kernel
  have front : Cycle.Item.ofFaces size [.front] (some 3) = .ok ⟨.side, 14, 0, "f3"⟩ := by
    decide +kernel
  have many : ¬ size.layers ≤ 3 := by decide
  constructor
  · obtain ⟨c, made⟩ : ∃ c, Cycle.make [⟨.side, 7, 0, "u2"⟩, ⟨.side, 14, 0, "f3"⟩] .none = .ok c :=
      ⟨_, rfl⟩
    have named : ∀ item ∈ c.items, item.IsNamed size := by
      rw [(Cycle.make_eq_ok_iff.1 made).1]
      exact List.forall_mem_cons.2 ⟨⟨_, _, up, fun few => absurd few many⟩,
        List.forall_mem_singleton.2 ⟨_, _, front, fun few => absurd few many⟩⟩
    have text : c.text = "(u2,f3)" := by
      cases made
      decide +kernel
    obtain ⟨script, read, cycle⟩ : ∃ script, (standard size 32 64).read c.text = .ok script ∧
        script.IsCycle c := read_text named (by decide)
    rw [text] at read
    exact ⟨script, c, read, cycle⟩
  · have text : Cycle.written Face.capital .none [⟨[.up], ['2']⟩, ⟨[.front], ['3']⟩] =
        "(U2,F3)" := by
      decide +kernel
    rw [← text]
    refine not_read_capital ?_ (by decide) ⟨_, List.mem_cons_self, rfl⟩
    exact List.forall_mem_cons.2 ⟨⟨by decide, List.all_eq_true.1 rfl⟩, List.forall_mem_singleton.2
      ⟨by decide, List.all_eq_true.1 rfl⟩⟩

end Reader

end CubeScript
