import CubeScript.Proofs.Reading.Acceptance
import CubeScript.Proofs.Reading.Writing

/-!
# Texts that are one cycle

If all of a text is between one pair of parentheses and what is between them is no script, the text
can only be read as a cycle. It is one exactly if there are parts between the parentheses that a
cycle can be made of, and then the cycle is all there is in the script. How deep statements may be
nested does not matter, as long as there may be one, since the cycle is the outermost statement.
-/

namespace CubeScript

open Lexeme (mark)
open Reading

namespace Script

/-- Whether a script is one cycle and nothing else. -/
def IsCycle (script : Script) (c : Cycle) : Prop :=
  ∃ id node, script.children script.root = [id] ∧ script.nodes[id]? = some node ∧
    node.content = .atom (.cycle c)

theorem IsCycle.unique {script : Script} {c other : Cycle} (first : script.IsCycle c)
    (second : script.IsCycle other) : c = other := by
  obtain ⟨_, _, children, stored, content⟩ := first
  obtain ⟨_, _, same, storedToo, contentToo⟩ := second
  obtain rfl := List.singleton_inj.1 (children.symm.trans same)
  obtain rfl := Option.some.inj (stored.symm.trans storedToo)
  cases content.symm.trans contentToo
  rfl

theorem isCycle_ofStatements (c : Cycle) (range : Range) (length layers : Nat) :
    (ofStatements [.atom (.cycle c) range] length layers).IsCycle c :=
  ⟨0, ⟨.atom (.cycle c), range⟩, rfl, rfl, rfl⟩

end Script

namespace Derives

variable {size : Size}

/-- A script that is not empty begins with a statement. -/
theorem head_begins {l : Lexeme} {ls : List Lexeme} (derived : Derives size .script (l :: ls)) :
    ∃ start, l.Begins size start := by
  generalize same : l :: ls = w at derived
  cases derived with
  | nil => cases same
  | cons first _ =>
    obtain ⟨k, ks, start, rfl, begins⟩ := first.exists_begins nofun
    rw [List.cons_append] at same
    rw [(List.cons.inj same).1]
    exact ⟨start, begins⟩

/-- A comma is between brackets. -/
theorem bracket_of_comma {c : Category} {w : List Lexeme} (derived : Derives size c w)
    (comma : mark "," ∈ w) : mark "(" ∈ w ∨ mark "[" ∈ w := by
  induction derived with
  | nil => cases comma
  | cons _ _ ih ihToo =>
    simp only [List.mem_append] at comma ⊢
    grind
  | counted number _ ih =>
    have other := Lexeme.ne_mark_of_number? number ","
    simp only [List.mem_cons, other.symm, false_or, Lexeme.mark_inj] at comma ⊢
    grind
  | suffixed _ suffixes ih =>
    obtain inside | behind := List.mem_append.1 comma
    · exact (ih inside).imp (List.mem_append_left _) (List.mem_append_left _)
    · obtain ⟨wrapper, suffix⟩ := exists_of_mem_of_forall₂ suffixes behind
      have none : (mark ",").suffix? = none := by decide
      rw [none] at suffix
      cases suffix
  | turn known =>
    rw [← Lexeme.mark_inj.1 (List.mem_singleton.1 comma),
      Lexicon.standardTurn?_mark (by decide)] at known
    cases known
  | nop => exact absurd comma (by decide)
  | group => exact .inl List.mem_cons_self
  | cycle => exact .inl List.mem_cons_self
  | paired => exact .inr List.mem_cons_self
  | rotation _ _ ih ihToo =>
    simp only [List.mem_cons, List.mem_append, Lexeme.mark_inj] at comma ⊢
    grind

end Derives

/-- Neither signs nor small letters begin a statement. -/
theorem not_derives_small {size : Size} (sign : Cycle.Sign) {parts : List PartText}
    (proper : ∀ p ∈ parts, p.Proper) (filled : parts ≠ []) :
    ¬ Derives size .script
      (Cycle.innerLexemes sign (parts.map (PartText.lexemes Face.letter))) := by
  have signs : ∀ name ∈ ["+", "-", "++"], name ∉ [".", "(", "[", "<"] ∧
      ∀ face ∈ Face.all, face.capital ∉ name.toList := by
    decide
  have letters : ∀ other ∈ Face.all, other.letter.toString ∉ [".", "(", "[", "<"] ∧
      ∀ face ∈ Face.all, face.capital ∉ other.letter.toString.toList := by
    decide
  obtain ⟨name, ls, split, other, small⟩ : ∃ name ls,
      Cycle.innerLexemes sign (parts.map (PartText.lexemes Face.letter)) = mark name :: ls ∧
        name ∉ [".", "(", "[", "<"] ∧ ∀ face ∈ Face.all, face.capital ∉ name.toList := by
    cases sign with
    | plus => exact ⟨_, _, rfl, signs "+" (by decide)⟩
    | minus => exact ⟨_, _, rfl, signs "-" (by decide)⟩
    | plusPlus => exact ⟨_, _, rfl, signs "++" (by decide)⟩
    | none =>
      obtain ⟨p, ps, rfl⟩ := List.exists_cons_of_ne_nil filled
      obtain ⟨face, faces, named⟩ := List.exists_cons_of_ne_nil (proper p List.mem_cons_self).filled
      rw [List.map_cons, PartText.lexemes, named]
      cases ps <;> exact ⟨_, _, rfl, letters face face.mem_all⟩
  intro derived
  rw [split] at derived
  obtain ⟨start, begins⟩ := derived.head_begins
  exact Lexeme.not_begins other (fun face => small face face.mem_all) begins

/-- What can be derived of lexemes between one pair of parentheses is a group or a cycle. -/
theorem Derives.parts_of_parenthesized {size : Size} {inner : List Lexeme}
    (plain : ∀ l ∈ inner, l.IsInner) (other : ¬ Derives size .script inner)
    (derived : Derives size .script (mark "(" :: (inner ++ [mark ")"]))) :
    ∃ signs w sign items, inner = signs ++ w ∧ Signed signs sign ∧ Parts size w items ∧
      Fits items sign := by
  generalize whole : mark "(" :: (inner ++ [mark ")"]) = all at derived
  cases derived with
  | nil => cases whole
  | @cons _ v first _ =>
    cases first with
    | counted number _ =>
      exact absurd (List.cons.inj whole).1.symm (Lexeme.ne_mark_of_number? number _)
    | @suffixed _ ss _ primary _ =>
      -- the first closing parenthesis is the last lexeme
      have enclosed {body : List Lexeme} (guarded : Guarded body)
          (same : mark "(" :: (inner ++ [mark ")"]) =
            mark "(" :: (body ++ [mark ")"]) ++ ss ++ v) : body = inner := by
        have split : inner ++ mark ")" :: [] = body ++ mark ")" :: (ss ++ v) := by
          simpa using same
        exact (guarded.unique plain split).symm
      cases primary with
      | turn known =>
        rw [← Lexeme.mark_inj.1 (List.cons.inj whole).1,
          Lexicon.standardTurn?_mark (by decide)] at known
        cases known
      | nop => exact absurd (List.cons.inj whole).1 (by decide)
      | group body => exact absurd (enclosed body.guarded whole ▸ body) other
      | cycle signed parts fits =>
        have inside := enclosed (.of_notMem fun member => ?_) whole
        · exact ⟨_, _, _, _, inside.symm, signed, parts, fits⟩
        obtain member | member := List.mem_append.1 member
        · exact (signed.isInner _ member).2 rfl
        · exact (parts.isInner _ member).2 rfl
      | paired => exact absurd (List.cons.inj whole).1 (by decide)
      | rotation => exact absurd (List.cons.inj whole).1 (by decide)

namespace Reader

variable {size : Size} {depth nesting : Nat} {text : String} {inner : List Lexeme}
  (lexemes : ((standard size depth nesting).lexer.tokens text).map Token.lexeme =
    mark "(" :: (inner ++ [mark ")"]))
  (other : ¬ Derives size .script inner)

include lexemes other

/-- A cycle is read where its parts are between the parentheses. -/
theorem read_of_parts (nests : 0 < nesting) {signs w : List Lexeme} {sign : Cycle.Sign}
    {items : List Cycle.Item} {c : Cycle} (split : inner = signs ++ w) (signed : Signed signs sign)
    (parts : Parts size w items) (made : Cycle.make items sign = .ok c) :
    ∃ script, (standard size depth nesting).read text = .ok script ∧ script.IsCycle c := by
  have isStandard := isStandard_standard size depth nesting
  obtain ⟨opening, ts, tokens, opens, behind⟩ := List.map_eq_cons_iff.1 lexemes
  obtain ⟨us, vs, rfl, inside, last⟩ := List.map_eq_append_iff.1 behind
  obtain ⟨closing, vs, rfl, closes, empty⟩ := List.map_eq_cons_iff.1 last
  obtain rfl := List.map_eq_nil_iff.1 empty
  obtain ⟨levels, rfl⟩ := Nat.exists_eq_succ_of_ne_zero (Nat.ne_of_gt nests)
  rw [split] at inside other
  obtain ⟨range, begun⟩ : ∃ range, Gives ((standard size depth (levels + 1)).readBeginning
      ((standard size depth (levels + 1)).readStatement levels) ⟨text.utf8ByteSize, 0⟩ .script
      opening (us ++ [closing])) (.atom (.cycle c) range) [] :=
    gives_readBeginning_of_parts isStandard signed parts made other opens inside closes levels
  have nothing : Stops (([] : List Token).map Token.lexeme) := trivial
  have whole := gives_readStatement_succ.2
    ⟨_, [], begun, gives_readBehind_of_stops isStandard nothing _⟩
  have begins : opening.lexeme.Begins size .cycle := .cycle opens
  have noStop := not_intersects_of_begins isStandard.endsAt_empty nofun begins
  have read : (standard size depth (levels + 1)).readStatements text =
      .ok [.atom (.cycle c) range] := by
    refine readStatements_eq_ok_iff.2 ⟨[], ?_⟩
    rw [tokens, gives_readSequence_cons, if_neg noStop]
    exact ⟨_, _, _, whole, gives_readSequence_nil.2 ⟨rfl, rfl⟩, rfl⟩
  exact ⟨_, read_eq_ok_iff.2 ⟨_, read, rfl⟩, Script.isCycle_ofStatements c range _ _⟩

/-- What is read is a cycle of parts. -/
theorem parts_of_read (plain : ∀ l ∈ inner, l.IsInner) {script : Script}
    (read : (standard size depth nesting).read text = .ok script) :
    ∃ signs w sign items c, inner = signs ++ w ∧ Signed signs sign ∧ Parts size w items ∧
      Cycle.make items sign = .ok c := by
  obtain ⟨statements, done, _⟩ := read_eq_ok_iff.1 read
  have derived := derives_of_readStatements (isStandard_standard size depth nesting) done
  rw [lexemes] at derived
  obtain ⟨signs, w, sign, items, split, signed, parts, fits⟩ :=
    derived.parts_of_parenthesized plain other
  obtain ⟨c, made⟩ := exists_make_iff.2 ⟨parts.ne_nil, fits⟩
  exact ⟨signs, w, sign, items, c, split, signed, parts, made⟩

end Reader

end CubeScript
