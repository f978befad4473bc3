import CubeScript.Proofs.Cube.Locating
import CubeScript.Proofs.Reading.Lone

/-!
# Printing cycles

A cycle prints its sign and the names of its items. The name of an item is a part in writing: the
small letters of its faces and the digits of its number. So what is printed has tokens that the
grammar takes for a cycle, and since no statement begins with a sign or a small letter, it is taken
for nothing else. The sign that a cycle keeps is legal for its items, and so is the one that its
inverse keeps. Both are printed as they are kept, and reading gives back the cycle that was printed.
-/

namespace CubeScript

open Lexeme (mark)

namespace Place

/-! ### Numbers of places in writing -/

/-- Slots have too few places for a number that cannot be read. -/
theorem number_lt {size : Size} {faces : List Face} {k place offset : Nat} {kind : PieceKind}
    (located : locate size faces (some k) = .ok (kind, place, offset)) : k < 2 ^ 32 := by
  obtain ⟨inside, counted, rotated, same⟩ := locate_eq_ok_iff.1 located
  have visible : kind ≠ .center := by
    rintro rfl
    rw [counted] at inside
    exact Nat.not_lt_zero offset inside
  have step := step_lt visible (lt_count_of_rotateLeft inside rotated)
  have few : size.perSlot kind ≤ 14 * 14 := by
    have inner : size.inner ≤ 14 := Nat.sub_le_sub_right size.le_sixteen 2
    cases kind with
    | corner | center => exact (by decide : 1 ≤ 14 * 14)
    | edge => exact Nat.le_trans inner (by decide)
    | side => exact Nat.mul_le_mul inner inner
  rw [Option.getD_some] at same
  omega

theorem isDigit_of_mem_digits {number : Option Nat} : ∀ c ∈ digits number, c.isDigit := by
  cases number with
  | none => nofun
  | some k => exact fun c member => Nat.isDigit_of_mem_toDigits (by decide) (by decide) member

theorem ofDigits_digits (k : Nat) : Lexeme.ofDigits (digits (some k)) = [.ofNat k] := by
  have filled : digits (some k) ≠ [] := Nat.toDigits_ne_nil
  have text : String.ofList (digits (some k)) = toString k := by
    rw [Nat.toString_eq_repr, ← String.ofList_toList (s := k.repr), Nat.toList_repr]
    rfl
  rw [Lexeme.ofDigits, if_neg filled, text]
  rfl

end Place

namespace Cycle

/-- Whether an item is named by some faces and a number. On cubes with at most three layers no
number can be read, since no slot has two places there. -/
def Item.IsNamed (size : Size) (item : Item) : Prop :=
  ∃ faces number, ofFaces size faces number = .ok item ∧ (size.layers ≤ 3 → number = none)

/-- Whether a part is how an item is written. -/
structure Item.Prints (size : Size) (item : Item) (p : PartText) : Prop where
  proper : p.Proper
  name : item.name = String.ofList (p.chars Face.letter)
  spelt : ∃ number, Spells size (p.faces.map fun face => mark face.letter.toString) p.faces
    (Lexeme.ofDigits p.digits) number item

theorem Item.ofFaces_eq_ok_iff {size : Size} {faces : List Face} {number : Option Nat}
    {item : Item} : ofFaces size faces number = .ok item ↔ ∃ offset,
      Place.locate size faces number = .ok (item.kind, item.place, offset) ∧
        item.orientation = UInt8.ofNat offset ∧ item.name = Place.describe faces number := by
  obtain ⟨kind, place, orientation, name⟩ := item
  rw [ofFaces]
  cases Place.locate size faces number with
  | error => simp
  | ok found =>
    obtain ⟨_, _, offset⟩ := found
    simp only [Except.ok.injEq, Item.mk.injEq, Prod.mk.injEq]
    constructor
    · rintro ⟨rfl, rfl, rfl, rfl⟩
      exact ⟨offset, ⟨rfl, rfl, rfl⟩, rfl, rfl⟩
    · rintro ⟨_, ⟨rfl, rfl, rfl⟩, rfl, rfl⟩
      exact ⟨rfl, rfl, rfl, rfl⟩

theorem Item.IsNamed.exists_prints {size : Size} {item : Item} (named : item.IsNamed size) :
    ∃ p, item.Prints size p := by
  obtain ⟨faces, number, made, few⟩ := named
  obtain ⟨offset, located, _, name⟩ := Item.ofFaces_eq_ok_iff.1 made
  obtain ⟨inside, counted, _⟩ := Place.locate_eq_ok_iff.1 located
  have filled : faces ≠ [] := List.ne_nil_of_length_pos (Nat.zero_lt_of_lt inside)
  have three : faces.length ≤ 3 := by
    rw [counted]
    cases item.kind <;> decide
  have numbered : Numbered size (Lexeme.ofDigits (Place.digits number)) number := by
    cases number with
    | none => exact .none
    | some k =>
      rw [Place.ofDigits_digits]
      have many : 3 < size.layers := Nat.lt_of_not_le fun most => nomatch few most
      exact .some many (Lexeme.number?_ofNat (Place.number_lt located))
  refine ⟨⟨faces, Place.digits number⟩, ⟨filled, Place.isDigit_of_mem_digits⟩, ?_, number,
    ⟨?_, filled, three, numbered, made⟩⟩
  · rw [name, ← String.ofList_toList (s := Place.describe faces number), Place.toList_describe]
    rfl
  · exact List.forall₂_map_left_iff.2 (List.forall₂_same.2 fun _ _ => .inl rfl)

/-- The items of a list are written one by one. -/
theorem exists_prints {size : Size} {items : List Item}
    (named : ∀ item ∈ items, item.IsNamed size) :
    ∃ parts, List.Forall₂ (Item.Prints size) items parts := by
  induction items with
  | nil => exact ⟨[], .nil⟩
  | cons item items ih =>
    obtain ⟨first, others⟩ := List.forall_mem_cons.1 named
    obtain ⟨p, prints⟩ := first.exists_prints
    obtain ⟨parts, printed⟩ := ih others
    exact ⟨p :: parts, .cons prints printed⟩

section

variable {size : Size} {items : List Item} {parts : List PartText}
  (printed : List.Forall₂ (Item.Prints size) items parts)

include printed

theorem proper_of_prints : ∀ p ∈ parts, p.Proper := by
  induction printed with
  | nil => nofun
  | cons prints _ ih => exact List.forall_mem_cons.2 ⟨prints.proper, ih⟩

theorem names_of_prints :
    items.map Item.name = parts.map fun p => String.ofList (p.chars Face.letter) := by
  induction printed with
  | nil => rfl
  | cons prints _ ih => rw [List.map_cons, List.map_cons, prints.name, ih]

theorem parts_of_prints (filled : items ≠ []) :
    Parts size ([mark ","].intercalate (parts.map (PartText.lexemes Face.letter))) items := by
  induction printed with
  | nil => exact absurd rfl filled
  | cons prints others ih =>
    obtain ⟨number, spelt⟩ := prints.spelt
    cases others with
    | nil =>
      rw [List.map_singleton, List.intercalate_singleton]
      exact .last spelt
    | cons second others =>
      have more := Parts.more spelt (ih (List.cons_ne_nil _ _))
      rw [List.map_cons, List.map_cons, List.intercalate_cons_cons, List.append_assoc]
      exact more

end

end Cycle

namespace Reader

variable {size : Size} {depth nesting : Nat}

/-- What a cycle with named items prints is read as the cycle. -/
theorem read_text {c : Cycle} (named : ∀ item ∈ c.items, item.IsNamed size) (nests : 0 < nesting) :
    ∃ script, (standard size depth nesting).read c.text = .ok script ∧ script.IsCycle c := by
  obtain ⟨parts, printed⟩ := Cycle.exists_prints named
  have proper := Cycle.proper_of_prints printed
  have filled : parts ≠ [] := by
    rintro rfl
    exact c.items_ne_nil (List.forall₂_nil_right_iff.1 printed)
  have text : c.text = Cycle.written Face.letter c.sign parts := by
    rw [Cycle.text, Cycle.names_of_prints printed, Cycle.written]
  have lexemes := (Lexer.isLettered_standard size).lexemes_of_small c.sign proper
  rw [text]
  exact read_of_parts lexemes (not_derives_small c.sign proper filled) nests rfl
    (signed_lexemes c.sign) (Cycle.parts_of_prints printed c.items_ne_nil)
    (c.make_items c.legal_sign)

/-- A cycle that is made of named items is printed as a text that is read as just this cycle, and so
is its inverse. -/
theorem read_text_of_make {items : List Cycle.Item} {sign : Cycle.Sign} {c : Cycle}
    (made : Cycle.make items sign = .ok c) (named : ∀ item ∈ items, item.IsNamed size)
    (nests : 0 < nesting) :
    (∃ script, (standard size depth nesting).read c.text = .ok script ∧ script.IsCycle c) ∧
      ∃ script, (standard size depth nesting).read c.inverse.text = .ok script ∧
        script.IsCycle c.inverse := by
  obtain ⟨rfl, _⟩ := Cycle.make_eq_ok_iff.1 made
  refine ⟨read_text named nests, read_text (fun item member => ?_) nests⟩
  exact named item (List.mem_reverse.1 member)

/-- A plus is kept as a minus by edges, and printed as it is kept. -/
theorem read_text_of_make_edges :
    let size : Size := ⟨5, by decide, by decide⟩
    let items : List Cycle.Item := [⟨.edge, 12, 1, "ru2"⟩, ⟨.edge, 33, 0, "fl3"⟩]
    ∃ c, Cycle.make items .plus = .ok c ∧ c.text = "(-ru2,fl3)" ∧
      (∀ item ∈ items, item.IsNamed size) ∧ 0 < 1 ∧
      (∃ script, (standard size 0 1).read c.text = .ok script ∧ script.IsCycle c) ∧
        ∃ script, (standard size 0 1).read c.inverse.text = .ok script ∧
          script.IsCycle c.inverse := by
  intro size items
  have right : Cycle.Item.ofFaces size [.right, .up] (some 2) = .ok ⟨.edge, 12, 1, "ru2"⟩ := by
    decide +kernel
  have front : Cycle.Item.ofFaces size [.front, .left] (some 3) = .ok ⟨.edge, 33, 0, "fl3"⟩ := by
    decide +kernel
  have many : ¬ size.layers ≤ 3 := by decide
  have named : ∀ item ∈ items, item.IsNamed size := by
    simp only [items, List.forall_mem_cons, List.not_mem_nil, false_implies, implies_true, and_true]
    exact ⟨⟨_, _, right, fun few => absurd few many⟩, ⟨_, _, front, fun few => absurd few many⟩⟩
  obtain ⟨c, made⟩ : ∃ c, Cycle.make items .plus = .ok c := ⟨_, rfl⟩
  have text : c.text = "(-ru2,fl3)" := by
    cases made
    decide +kernel
  exact ⟨c, made, text, named, by decide, read_text_of_make made named (by decide)⟩

end Reader

end CubeScript
