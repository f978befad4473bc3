import CubeScript.Proofs.Dialect.Standard
import CubeScript.Proofs.Script.Meaning
import Mathlib.Data.List.Forall2

/-!
# The grammar of the standard dialect

`Derives` is the grammar as one would write it down. It is ambiguous: three turns between
parentheses may be a group or a cycle, and what stands behind the second operand of a rotation may
belong to the operand or to the rotation.

`Reads` is the same grammar with the choices that are made in reading, and with what is read: a
group is preferred to a cycle, and an operand takes everything behind it. Every text that has a
derivation can be read (`Derives.exists_reads`), but the derivation that is found may be another
one.
-/

namespace CubeScript

namespace Lexeme

/-- Whether a lexeme is a letter of a face. -/
def IsFace (l : Lexeme) (face : Face) : Prop :=
  l = mark face.letter.toString ∨ l = mark face.capital.toString

/-- What a lexeme behind a statement makes of it. -/
def suffix? (l : Lexeme) : Option Wrapper :=
  if l = mark "'" then some .inversion
  else if l = mark "~" then some .reflection
  else l.number?.map .repetition

theorem kind_of_number? {l : Lexeme} {k : Nat} (number : l.number? = some k) :
    l.kind = .number := by
  by_contra other
  simp [Lexeme.number?, Token.number?, other] at number

theorem ne_mark_of_number? {l : Lexeme} {k : Nat} (number : l.number? = some k) (w : String) :
    l ≠ mark w := by
  rintro rfl
  cases kind_of_number? number

/-- Letters of faces are no marks. -/
theorem IsFace.ne_mark {l : Lexeme} {face : Face} (letter : l.IsFace face) {w : String}
    (isMark : w ∈ Lexicon.standardMarks.map Prod.fst) : l ≠ mark w := by
  have apart : ∀ w ∈ Lexicon.standardMarks.map Prod.fst, ∀ f ∈ Face.all,
      f.letter.toString ≠ w ∧ f.capital.toString ≠ w := by
    decide
  obtain ⟨small, large⟩ := apart w isMark face face.mem_all
  obtain rfl | rfl := letter
  · exact fun same => small (mark_inj.1 same)
  · exact fun same => large (mark_inj.1 same)

end Lexeme

open Lexeme (mark)

/-! ### Cycles -/

/-- The number of a part, which there only is on cubes with more than three layers. -/
inductive Numbered (size : Size) : List Lexeme → Option Nat → Prop where
  | none : Numbered size [] none
  | some {l : Lexeme} {k : Nat} (many : 3 < size.layers) (number : l.number? = some k) :
    Numbered size [l] (some k)

/-- Whether some lexemes are the faces and the number of a part of the cube. -/
structure Spells (size : Size) (letters : List Lexeme) (faces : List Face) (digits : List Lexeme)
    (number : Option Nat) (item : Cycle.Item) : Prop where
  letters : List.Forall₂ Lexeme.IsFace letters faces
  some_face : faces ≠ []
  three_faces : faces.length ≤ 3
  digits : Numbered size digits number
  item : Cycle.Item.ofFaces size faces number = .ok item

/-- Parts with commas in between. -/
inductive Parts (size : Size) : List Lexeme → List Cycle.Item → Prop where
  | last {letters digits : List Lexeme} {faces : List Face} {number : Option Nat}
    {item : Cycle.Item} (spelt : Spells size letters faces digits number item) :
    Parts size (letters ++ digits) [item]
  | more {letters digits w : List Lexeme} {faces : List Face} {number : Option Nat}
    {item : Cycle.Item} {items : List Cycle.Item}
    (spelt : Spells size letters faces digits number item) (rest : Parts size w items) :
    Parts size (letters ++ digits ++ mark "," :: w) (item :: items)

/-- The sign at the beginning of a cycle. -/
inductive Signed : List Lexeme → Cycle.Sign → Prop where
  | none : Signed [] .none
  | plus : Signed [mark "+"] .plus
  | minus : Signed [mark "-"] .minus
  | plusPlus : Signed [mark "++"] .plusPlus

theorem Signed.length_le {w : List Lexeme} {sign : Cycle.Sign} (signed : Signed w sign) :
    w.length ≤ 1 := by
  cases signed <;> decide

/-- Whether a cycle may go through some items with some sign: they are of one kind, at different
places, and the sign is one that this kind may have. -/
def Fits (items : List Cycle.Item) (sign : Cycle.Sign) : Prop :=
  ∃ kind, (∀ item ∈ items, item.kind = kind) ∧ (items.map Cycle.Item.place).Nodup ∧
    (sign.legal? kind).isSome

theorem Parts.ne_nil {size : Size} {w : List Lexeme} {items : List Cycle.Item}
    (parts : Parts size w items) : items ≠ [] := by
  cases parts <;> exact List.cons_ne_nil _ _

theorem exists_make_iff {items : List Cycle.Item} {sign : Cycle.Sign} :
    (∃ c, Cycle.make items sign = .ok c) ↔ items ≠ [] ∧ Fits items sign := by
  constructor
  · rintro ⟨c, made⟩
    obtain ⟨rfl, legal⟩ := Cycle.make_eq_ok_iff.1 made
    exact ⟨c.items_ne_nil, c.kind, c.kind_eq, c.nodup_places, by rw [legal]; rfl⟩
  · rintro ⟨filled, kind, same, apart, legal⟩
    obtain ⟨kept, legal⟩ := Option.isSome_iff_exists.1 legal
    exact ⟨⟨kind, items, kept, filled, same, apart, Cycle.Sign.legal?_of_legal? legal⟩,
      Cycle.make_eq_ok_iff.2 ⟨rfl, legal⟩⟩

/-! ### Statements -/

/-- What the grammar derives. -/
inductive Category where
  | script
  | statement
  | primary
  deriving DecidableEq, Repr

/-- What stands between the operands of a pairing that is written in square brackets. -/
def Pairing.delimiter? : Pairing → Option String
  | .commutation => some ","
  | .conjugation => some ":"
  | .rotation => none

theorem Pairing.delimiter?_eq_some_iff {p : Pairing} {delimiter : String} :
    p.delimiter? = some delimiter ↔
      (p = .commutation ∧ delimiter = ",") ∨ (p = .conjugation ∧ delimiter = ":") := by
  cases p <;> simp [delimiter?, eq_comm]

/-- Whether some lexemes make up wrappers behind a statement. -/
abbrev Suffixes : List Lexeme → List Wrapper → Prop :=
  List.Forall₂ fun l w => l.suffix? = some w

/-- Whether some lexemes are a script, a statement, or a statement without anything behind it. -/
inductive Derives (size : Size) : Category → List Lexeme → Prop where
  | nil : Derives size .script []
  | cons {w v : List Lexeme} (first : Derives size .statement w) (rest : Derives size .script v) :
    Derives size .script (w ++ v)
  | counted {l : Lexeme} {k : Nat} {w : List Lexeme} (number : l.number? = some k)
    (operand : Derives size .statement w) : Derives size .statement (l :: mark "*" :: w)
  | suffixed {w ss : List Lexeme} {wrappers : List Wrapper} (inner : Derives size .primary w)
    (suffixes : Suffixes ss wrappers) : Derives size .statement (w ++ ss)
  | turn {name : String} {turn : Turn} (known : Lexicon.standardTurn? size name = some turn) :
    Derives size .primary [mark name]
  | nop : Derives size .primary [mark "."]
  | group {w : List Lexeme} (body : Derives size .script w) :
    Derives size .primary (mark "(" :: (w ++ [mark ")"]))
  | cycle {signs w : List Lexeme} {sign : Cycle.Sign} {items : List Cycle.Item}
    (signed : Signed signs sign) (parts : Parts size w items) (fits : Fits items sign) :
    Derives size .primary (mark "(" :: (signs ++ w ++ [mark ")"]))
  | paired {p : Pairing} {delimiter : String} {w v : List Lexeme}
    (delimits : p.delimiter? = some delimiter) (first : Derives size .script w)
    (second : Derives size .script v) :
    Derives size .primary (mark "[" :: (w ++ mark delimiter :: (v ++ [mark "]"])))
  | rotation {w v : List Lexeme} (first : Derives size .script w)
    (second : Derives size .statement v) :
    Derives size .primary (mark "<" :: (w ++ mark ">" :: v))

namespace Derives

variable {size : Size}

/-- A suffix may always go to the statement it is behind. -/
theorem append_suffixes {c : Category} {w ss : List Lexeme} {wrappers : List Wrapper}
    (derived : Derives size c w) (statement : c = .statement) (suffixes : Suffixes ss wrappers) :
    Derives size .statement (w ++ ss) := by
  induction derived with
  | counted number _ ih => exact .counted number (ih rfl)
  | suffixed inner before _ =>
    rw [List.append_assoc]
    exact .suffixed inner (List.rel_append before suffixes)
  | _ => cases statement

/-- Every statement has a first lexeme. -/
theorem length_pos {c : Category} {w : List Lexeme} (derived : Derives size c w)
    (filled : c ≠ .script) : 0 < w.length := by
  induction derived with
  | nil => exact absurd rfl filled
  | cons => exact absurd rfl filled
  | suffixed inner suffixes ih =>
    have := ih (by decide)
    rw [List.length_append]
    omega
  | _ => simp

end Derives

/-! ### Where a statement ends -/

/-- Whether a statement before some lexemes ends there. A number with an operator behind it counts
the next statement. -/
def Stops : List Lexeme → Prop
  | [] => True
  | l :: ls => l ≠ mark "'" ∧ l ≠ mark "~" ∧ l ≠ mark "*" ∧
      (l.kind = .number → ls.head? = some (mark "*"))

theorem stops_mark {w : String} (apart : w ∉ ["'", "~", "*"]) (rest : List Lexeme) :
    Stops (mark w :: rest) := by
  simp only [List.mem_cons, List.not_mem_nil, or_false, not_or] at apart
  refine ⟨fun same => apart.1 ?_, fun same => apart.2.1 ?_, fun same => apart.2.2 ?_, nofun⟩
  all_goals exact Lexeme.mark_inj.1 same

namespace Derives

variable {size : Size}

/-- A statement ends before another one. -/
theorem stops {c : Category} {w rest : List Lexeme} (derived : Derives size c w)
    (behind : c = .script → Stops rest) : Stops (w ++ rest) := by
  induction derived generalizing rest with
  | nil => exact behind rfl
  | cons first _ ih ihRest =>
    rw [List.append_assoc]
    exact ih nofun
  | counted number =>
    have other := Lexeme.ne_mark_of_number? number
    exact ⟨other _, other _, other _, fun _ => rfl⟩
  | suffixed _ _ ih =>
    rw [List.append_assoc]
    exact ih nofun
  | turn known =>
    refine stops_mark (fun member => ?_) rest
    have isMark : ∀ name ∈ ["'", "~", "*"], name ∈ Lexicon.standardMarks.map Prod.fst := by
      decide
    rw [Lexicon.standardTurn?_mark (isMark _ member)] at known
    cases known
  | nop => exact stops_mark (by decide) rest
  | group => exact stops_mark (by decide) _
  | cycle => exact stops_mark (by decide) _
  | paired => exact stops_mark (by decide) _
  | rotation => exact stops_mark (by decide) _

end Derives

/-! ### Parentheses -/

/-- Whether there is an opening parenthesis before every closing one. -/
def Guarded (w : List Lexeme) : Prop :=
  ∀ before after, w = before ++ mark ")" :: after → mark "(" ∈ before

namespace Guarded

theorem of_notMem {w : List Lexeme} (none : mark ")" ∉ w) : Guarded w := by
  rintro before after rfl
  exact absurd (by simp) none

theorem append {w v : List Lexeme} (first : Guarded w) (second : Guarded v) :
    Guarded (w ++ v) := by
  intro before after same
  obtain ⟨between, rfl, rest⟩ | ⟨between, rfl, rest⟩ := List.append_eq_append_iff.1 same
  · exact List.mem_append_right _ (second between after rest)
  · cases between with
    | nil => exact absurd (second [] after rest.symm) (by simp)
    | cons l between =>
      obtain ⟨rfl, _⟩ := List.cons.inj rest
      exact first before between rfl

theorem cons {l : Lexeme} (other : l ≠ mark ")") {w : List Lexeme} (rest : Guarded w) :
    Guarded (l :: w) :=
  append (w := [l]) (of_notMem (by simp [other.symm])) rest

theorem parenthesis (w : List Lexeme) : Guarded (mark "(" :: w) := by
  intro before after same
  cases before with
  | nil => exact absurd (List.cons.inj same).1 (by decide)
  | cons l before =>
    obtain ⟨rfl, _⟩ := List.cons.inj same
    exact List.mem_cons_self

end Guarded

/-- Whatever is in the first of two related lists is related to something. -/
theorem exists_of_mem_of_forall₂ {α β : Type} {R : α → β → Prop} {as : List α} {bs : List β}
    (related : List.Forall₂ R as bs) {a : α} (member : a ∈ as) : ∃ b, R a b := by
  induction related with
  | nil => cases member
  | cons first _ ih =>
    obtain rfl | member := List.mem_cons.1 member
    · exact ⟨_, first⟩
    · exact ih member

/-- Whether a lexeme is no parenthesis. -/
def Lexeme.IsInner (l : Lexeme) : Prop := l ≠ mark "(" ∧ l ≠ mark ")"

theorem Signed.isInner {w : List Lexeme} {sign : Cycle.Sign} (signed : Signed w sign) :
    ∀ l ∈ w, l.IsInner := by
  unfold Lexeme.IsInner
  cases signed <;> decide

theorem Spells.isInner {size : Size} {letters digits : List Lexeme} {faces : List Face}
    {number : Option Nat} {item : Cycle.Item}
    (spelt : Spells size letters faces digits number item) :
    ∀ l ∈ letters ++ digits, l.IsInner := by
  intro l member
  obtain member | member := List.mem_append.1 member
  · obtain ⟨face, letter⟩ := exists_of_mem_of_forall₂ spelt.letters member
    exact ⟨letter.ne_mark (by decide), letter.ne_mark (by decide)⟩
  · cases spelt.digits with
    | none => cases member
    | some _ counted =>
      rw [List.mem_singleton.1 member]
      exact ⟨Lexeme.ne_mark_of_number? counted _, Lexeme.ne_mark_of_number? counted _⟩

theorem Parts.isInner {size : Size} {w : List Lexeme} {items : List Cycle.Item}
    (parts : Parts size w items) : ∀ l ∈ w, l.IsInner := by
  induction parts with
  | last spelt => exact spelt.isInner
  | more spelt _ ih =>
    intro l member
    obtain member | member := List.mem_append.1 member
    · exact spelt.isInner l member
    · obtain rfl | member := List.mem_cons.1 member
      · exact ⟨by decide, by decide⟩
      · exact ih l member

/-- What stands before the closing parenthesis of a group is found by looking for the first one, if
there is no parenthesis before it. -/
theorem Guarded.unique {us vs rest left : List Lexeme} (guarded : Guarded vs)
    (inner : ∀ l ∈ us, l.IsInner) (same : us ++ mark ")" :: rest = vs ++ mark ")" :: left) :
    us = vs := by
  obtain ⟨between, rfl, behind⟩ | ⟨between, rfl, behind⟩ := List.append_eq_append_iff.1 same
  · cases between with
    | nil => exact (List.append_nil us).symm
    | cons l between =>
      obtain ⟨rfl, _⟩ := List.cons.inj behind
      exact absurd rfl (inner _ (guarded us between rfl)).1
  · cases between with
    | nil => exact List.append_nil vs
    | cons l between =>
      obtain ⟨rfl, _⟩ := List.cons.inj behind
      exact absurd rfl (inner (mark ")") (by simp)).2

theorem Derives.guarded {size : Size} {c : Category} {w : List Lexeme}
    (derived : Derives size c w) : Guarded w := by
  induction derived with
  | nil => exact .of_notMem (by simp)
  | cons _ _ first rest => exact first.append rest
  | counted number _ operand =>
    exact .cons (Lexeme.ne_mark_of_number? number _) (.cons (by decide) operand)
  | suffixed _ suffixes inner =>
    refine inner.append (.of_notMem fun member => ?_)
    obtain ⟨wrapper, suffix⟩ := exists_of_mem_of_forall₂ suffixes member
    have none : (mark ")").suffix? = none := by decide
    rw [none] at suffix
    cases suffix
  | turn known =>
    refine .of_notMem ?_
    intro member
    have same := Lexeme.mark_inj.1 (List.mem_singleton.1 member)
    rw [← same, Lexicon.standardTurn?_mark (by decide)] at known
    cases known
  | nop => exact .of_notMem (by decide)
  | group => exact .parenthesis _
  | cycle => exact .parenthesis _
  | paired delimits _ _ first second =>
    refine .cons (by decide) (first.append (.cons ?_ (second.append (.of_notMem (by decide)))))
    obtain ⟨_, rfl⟩ | ⟨_, rfl⟩ := Pairing.delimiter?_eq_some_iff.1 delimits <;> decide
  | rotation _ _ first second =>
    exact .cons (by decide) (first.append (.cons (by decide) second))

/-! ### Readings -/

/-- What a script, a statement, or a statement without anything behind it stands for, if it is read
as the grammar says. -/
inductive Reads (size : Size) : Category → List Lexeme → List Meaning → Prop where
  | nil : Reads size .script [] []
  | cons {w v : List Lexeme} {m : Meaning} {ms : List Meaning}
    (first : Reads size .statement w [m]) (rest : Reads size .script v ms) :
    Reads size .script (w ++ v) (m :: ms)
  | counted {l : Lexeme} {k : Nat} {w : List Lexeme} {m : Meaning} (number : l.number? = some k)
    (operand : Reads size .statement w [m]) :
    Reads size .statement (l :: mark "*" :: w) [(Wrapper.repetition k).meaning [m]]
  | rotation {w v : List Lexeme} {ms : List Meaning} {m : Meaning}
    (first : Reads size .script w ms) (second : Reads size .statement v [m]) :
    Reads size .statement (mark "<" :: (w ++ mark ">" :: v))
      [Pairing.rotation.meaning (.inSequence ms) (.inSequence [m])]
  | suffixed {w ss : List Lexeme} {m : Meaning} {wrappers : List Wrapper}
    (inner : Reads size .primary w [m]) (suffixes : Suffixes ss wrappers) :
    Reads size .statement (w ++ ss) [wrappers.foldl (fun m w => w.meaning [m]) m]
  | turn {name : String} {turn : Turn} (known : Lexicon.standardTurn? size name = some turn) :
    Reads size .primary [mark name] [(Atom.turn turn).meaning size.layers]
  | nop : Reads size .primary [mark "."] [Atom.nop.meaning size.layers]
  | group {w : List Lexeme} {ms : List Meaning} (body : Reads size .script w ms) :
    Reads size .primary (mark "(" :: (w ++ [mark ")"])) [Wrapper.grouping.meaning ms]
  | cycle {signs w : List Lexeme} {sign : Cycle.Sign} {items : List Cycle.Item} {c : Cycle}
    (signed : Signed signs sign) (parts : Parts size w items)
    (made : Cycle.make items sign = .ok c) (other : ¬ Derives size .script (signs ++ w)) :
    Reads size .primary (mark "(" :: (signs ++ w ++ [mark ")"]))
      [(Atom.cycle c).meaning size.layers]
  | paired {p : Pairing} {delimiter : String} {w v : List Lexeme} {ms ns : List Meaning}
    (delimits : p.delimiter? = some delimiter) (first : Reads size .script w ms)
    (second : Reads size .script v ns) :
    Reads size .primary (mark "[" :: (w ++ mark delimiter :: (v ++ [mark "]"])))
      [p.meaning (.inSequence ms) (.inSequence ns)]

/-- What is read has a derivation. -/
theorem Reads.derives {size : Size} {c : Category} {w : List Lexeme} {ms : List Meaning}
    (reads : Reads size c w ms) : Derives size c w := by
  induction reads with
  | nil => exact .nil
  | cons _ _ first rest => exact .cons first rest
  | counted number _ operand => exact .counted number operand
  | rotation _ _ first second =>
    have derived := Derives.suffixed (.rotation first second) .nil
    rwa [List.append_nil] at derived
  | suffixed _ suffixes inner => exact .suffixed inner suffixes
  | turn known => exact .turn known
  | nop => exact .nop
  | group _ body => exact .group body
  | cycle signed parts made _ => exact .cycle signed parts (exists_make_iff.1 ⟨_, made⟩).2
  | paired delimits _ _ first second => exact .paired delimits first second

namespace Derives

variable {size : Size}

/-- What can be derived with something behind it can be read, if everything shorter can be. What
stands behind a rotation goes to its second operand. -/
theorem exists_reads_suffixed {w ss : List Lexeme} {wrappers : List Wrapper}
    (derived : Derives size .primary w) (suffixes : Suffixes ss wrappers)
    (statements : ∀ v, v.length < (w ++ ss).length → Derives size .statement v →
      ∃ m, Reads size .statement v [m])
    (scripts : ∀ v, v.length < (w ++ ss).length → Derives size .script v →
      ∃ ms, Reads size .script v ms) :
    ∃ m, Reads size .statement (w ++ ss) [m] := by
  have parenthesized {v : List Lexeme} (same : w = mark "(" :: (v ++ [mark ")"]))
      (body : Derives size .script v) : ∃ m, Reads size .statement (w ++ ss) [m] := by
    subst same
    have shorter : v.length < (mark "(" :: (v ++ [mark ")"]) ++ ss).length := by
      simp only [List.length_cons, List.length_append]
      omega
    obtain ⟨ms, read⟩ := scripts v shorter body
    exact ⟨_, .suffixed (.group read) suffixes⟩
  cases derived with
  | turn known => exact ⟨_, .suffixed (.turn known) suffixes⟩
  | nop => exact ⟨_, .suffixed .nop suffixes⟩
  | group body => exact parenthesized rfl body
  | cycle signed parts fits =>
    rename_i signs body _ _
    by_cases group : Derives size .script (signs ++ body)
    · exact parenthesized rfl group
    · obtain ⟨c, made⟩ := exists_make_iff.2 ⟨parts.ne_nil, fits⟩
      exact ⟨_, .suffixed (.cycle signed parts made group) suffixes⟩
  | paired delimits first second =>
    simp only [List.length_cons, List.length_append] at scripts
    obtain ⟨ms, first⟩ := scripts _ (by omega) first
    obtain ⟨ns, second⟩ := scripts _ (by omega) second
    exact ⟨_, .suffixed (.paired delimits first second) suffixes⟩
  | rotation first second =>
    simp only [List.length_cons, List.length_append] at scripts statements
    obtain ⟨ms, first⟩ := scripts _ (by omega) first
    have second := second.append_suffixes rfl suffixes
    obtain ⟨m, second⟩ := statements _ (by simp only [List.length_append]; omega) second
    rw [List.cons_append, List.append_assoc, List.cons_append]
    exact ⟨_, .rotation first second⟩

theorem exists_reads_of_length (n : Nat) : ∀ w : List Lexeme, w.length = n →
    (Derives size .statement w → ∃ m, Reads size .statement w [m]) ∧
      (Derives size .script w → ∃ ms, Reads size .script w ms) := by
  induction n using Nat.strongRecOn with
  | ind n ih =>
    have statement : ∀ w : List Lexeme, w.length = n → Derives size .statement w →
        ∃ m, Reads size .statement w [m] := by
      rintro w rfl derived
      cases derived with
      | counted number operand =>
        obtain ⟨m, read⟩ := (ih _ (by simp only [List.length_cons]; omega) _ rfl).1 operand
        exact ⟨_, .counted number read⟩
      | suffixed inner suffixes =>
        exact exists_reads_suffixed inner suffixes (fun v shorter => (ih _ shorter v rfl).1)
          fun v shorter => (ih _ shorter v rfl).2
    refine fun w length => ⟨statement w length, fun derived => ?_⟩
    cases derived with
    | nil => exact ⟨[], .nil⟩
    | cons first rest =>
      rename_i w v
      have filled := first.length_pos (by decide)
      rw [List.length_append] at length
      have one : ∃ m, Reads size .statement w [m] := by
        obtain shorter | all := Nat.lt_or_ge w.length n
        · exact (ih _ shorter w rfl).1 first
        · exact statement w (by omega) first
      obtain ⟨m, first⟩ := one
      obtain ⟨ms, rest⟩ := (ih v.length (by omega) v rfl).2 rest
      exact ⟨m :: ms, .cons first rest⟩

/-- Every script that has a derivation can be read. -/
theorem exists_reads {w : List Lexeme} (derived : Derives size .script w) :
    ∃ ms, Reads size .script w ms :=
  (exists_reads_of_length w.length w rfl).2 derived

end Derives

end CubeScript
