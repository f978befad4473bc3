import CubeScript.Proofs.Dialect.Letters

/-!
# Names of turns without spaces

The name of a turn has one capital letter of a face in it, and only the mark of an angle behind
that letter (`Lexicon.NamesTurn`). So where the name of a turn is followed by a letter, no keyword
goes on beyond it: another name that the text goes on with as well has its letter in the same place,
and its mark ends before the next name begins. Names that are written one behind the other with
nothing in between are therefore scanned one by one (`Lexer.scans_join`).
-/

namespace CubeScript

open Lexeme (mark)

namespace Lexicon

/-- Whether some characters look like the name of a turn, that is, have a capital letter of a face
in them, none before it, and the mark of an angle behind it. -/
def NamesTurn (w : List Char) : Prop :=
  ∃ before after, ∃ face : Face, w = before ++ face.capital :: after ∧
    (∀ other : Face, other.capital ∉ before) ∧ after ∈ angleMarks

/-- The capital letters of faces tell no layers. -/
theorem capital_notMem_of_mem_standardDepths {n : Nat} {before : String} {depths : List Nat}
    (member : (before, depths) ∈ standardDepths n) (face : Face) :
    face.capital ∉ before.toList := by
  have letters : ∀ w ∈ ["S", "C", "M", "T", "W", "N"], face.capital ∉ w.toList := by
    cases face <;> decide
  have noDigit : ¬ face.capital.isDigit := by
    cases face <;> decide
  obtain rfl | ⟨w, letter, rfl | ⟨k, rfl⟩⟩ := eq_of_mem_standardDepths member
  · exact List.not_mem_nil
  · exact letters before letter
  · rw [String.toList_append, Nat.toString_eq_repr, Nat.toList_repr, List.mem_append, not_or]
    exact ⟨letters w letter,
      fun digit => noDigit (Nat.isDigit_of_mem_toDigits (by decide) (by decide) digit)⟩

theorem namesTurn_of_mem_standardTurns {n : Nat} {face : Face} {name : String} {t : Turn}
    (member : (name, t) ∈ standardTurns n face) : NamesTurn name.toList := by
  simp only [standardTurns, List.mem_flatMap, List.mem_map, Prod.exists, Prod.mk.injEq] at member
  obtain ⟨before, depths, depth, after, angle, angles, rfl, _⟩ := member
  refine ⟨before.toList, after.toList, face, ?_, capital_notMem_of_mem_standardDepths depth,
    List.mem_map_of_mem (f := (·.1.toList)) angles⟩
  change (before ++ toString face.capital ++ after).toList = _
  simp [toString]

theorem exists_turn?_of_mem_allTurns {size : Size} {name : String}
    (listed : name ∈ (allTurns size.layers).map Prod.fst) :
    ∃ t, (standard size).dialect.turn? name = some t := by
  rw [(Dialect.isStandard_standard size).turn?]
  exact Option.isSome_iff_exists.1 ((isSome_turn?_of_adds (adds_standard size) name).2 listed)

/-- A keyword is a mark, the small letter of a face, or looks like the name of a turn. -/
theorem cases_of_known {size : Size} {w : String}
    (known : w ∈ (standardMeanings size.layers).map Prod.fst) :
    w ∈ standardMarks.map Prod.fst ∨ w.toList.length = 1 ∨ NamesTurn w.toList := by
  refine mark_or_of_known (fun w => w.toList.length = 1 ∨ NamesTurn w.toList) ?_ ?_ ?_ known
  · rintro ⟨⟩ <;> exact .inl rfl
  · rintro ⟨⟩ <;> exact .inl rfl
  · exact fun face name t listed => .inr (namesTurn_of_mem_standardTurns listed)

/-- The first capital letter of a face tells a text apart in one way. -/
theorem split_unique {before front behind rest : List Char} {face other : Face}
    (none : ∀ f : Face, f.capital ∉ before) (noneToo : ∀ f : Face, f.capital ∉ front)
    (same : front ++ other.capital :: rest = before ++ face.capital :: behind) :
    front = before ∧ rest = behind := by
  have upTo {cs ds : List Char} {f : Face} (clear : ∀ f : Face, f.capital ∉ cs) :
      (cs ++ f.capital :: ds).takeWhile (· ∉ Face.all.map Face.capital) = cs := by
    rw [List.takeWhile_append_of_pos, List.takeWhile_cons_of_neg, List.append_nil]
    · simp [List.mem_map_of_mem f.mem_all]
    · rintro c inside
      refine decide_eq_true fun member => ?_
      obtain ⟨letter, _, rfl⟩ := List.mem_map.1 member
      exact clear letter inside
  have sameFront : front = before := by
    rw [← upTo noneToo, same, upTo none]
  subst sameFront
  exact ⟨rfl, (List.cons.inj (List.append_cancel_left same)).2⟩

/-- Two names that a text goes on with have the letter of the face in the same place. If a letter
follows the one, the mark of the other is no longer than its own. -/
theorem NamesTurn.length_le {v w rest : List Char} (names : NamesTurn v) (other : NamesTurn w)
    (next : ∀ c ∈ rest.head?, c.isAlpha) (begins : w <+: v ++ rest) : w.length ≤ v.length := by
  obtain ⟨before, after, face, rfl, none, angle⟩ := names
  obtain ⟨front, afterToo, letter, rfl, noneToo, angleToo⟩ := other
  obtain ⟨behind, same⟩ := begins
  rw [List.append_assoc, List.append_assoc, List.cons_append, List.cons_append] at same
  obtain ⟨rfl, ends⟩ := split_unique none noneToo same
  have noLetters : ∀ cs ∈ angleMarks, cs.all (!·.isAlpha) := by decide
  have short : afterToo <+: after := by
    have within : afterToo <+: after ++ rest := ⟨behind, ends⟩
    cases rest with
    | nil => rwa [List.append_nil] at within
    | cons c rest =>
      refine (prefix_append_iff (fun member => ?_) after rest).1 within
      have noLetter := List.all_eq_true.1 (noLetters afterToo angleToo) c member
      rw [next c rfl] at noLetter
      cases noLetter
  rw [List.length_append, List.length_append, List.length_cons, List.length_cons]
  have := short.length_le
  omega

end Lexicon

namespace Lexer

open Lexicon (standard standardTurn?)

variable {size : Size} {name : String} {t : Turn}

/-- Where a letter or nothing follows the name of a turn, no longer keyword is there. -/
theorem longest_name (known : standardTurn? size name = some t) {rest : List Char}
    (next : ∀ c ∈ rest.head?, c.isAlpha) :
    Longest (standard size).dialect.lexer.keywords.IsKeyword (name.toList ++ rest) name.toList := by
  obtain ⟨c, cs, split, letter, _⟩ := Lexicon.named_of_standardTurn? known
  obtain ⟨face, listed⟩ := Lexicon.exists_of_standardTurn? known
  have filled : name.toList ≠ [] := split ▸ List.cons_ne_nil c cs
  refine ⟨⟨filled, Lexicon.contains_of_standardTurn? known⟩, List.prefix_append _ _, ?_⟩
  intro w keyword begins
  obtain ⟨nonempty, meant⟩ := (contains_keywords_of_adds (Lexicon.adds_standard size)).1 keyword.2
  obtain isMark | single | names := Lexicon.cases_of_known meant
  · have noLetters : ∀ v ∈ Lexicon.standardMarks.map Prod.fst,
        v.toList.head?.all (!·.isAlpha) := by
      decide
    have noLetter := noLetters _ isMark
    obtain ⟨d, ds, rfl⟩ := List.exists_cons_of_ne_nil nonempty
    rw [split, List.cons_append] at begins
    obtain ⟨rfl, _⟩ := List.cons_prefix_cons.1 begins
    rw [String.toList_ofList, List.head?_cons, Option.all_some, letter] at noLetter
    cases noLetter
  · rw [String.toList_ofList] at single
    rw [single]
    exact List.length_pos_iff.2 filled
  · rw [String.toList_ofList] at names
    exact (Lexicon.namesTurn_of_mem_standardTurns listed).length_le names next begins

/-- Names of turns that are written one behind the other are scanned one by one. -/
theorem scans_join {names : List String}
    (known : ∀ name ∈ names, (standardTurn? size name).isSome) :
    Scans (standard size).dialect.lexer (String.join names).toList (names.map mark) [] := by
  induction names with
  | nil => exact .done
  | cons name names ih =>
    obtain ⟨first, others⟩ := List.forall_mem_cons.1 known
    obtain ⟨t, meant⟩ := Option.isSome_iff_exists.1 first
    have next : ∀ c ∈ (String.join names).toList.head?, c.isAlpha := by
      cases names with
      | nil => nofun
      | cons second names =>
        obtain ⟨u, meantToo⟩ := Option.isSome_iff_exists.1 (others second List.mem_cons_self)
        obtain ⟨c, cs, split, letter, _⟩ := Lexicon.named_of_standardTurn? meantToo
        rw [String.join_cons, String.toList_append, split]
        rintro _ ⟨⟩
        exact letter
    rw [String.join_cons, String.toList_append]
    have scans := (isStandard_standard size).scans_longest_named
      (Lexicon.named_of_standardTurn? meant) (longest_name meant next)
    exact scans.append (ih others)

end Lexer

end CubeScript
