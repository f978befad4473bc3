import CubeScript.Text.Trie
import Mathlib.Data.List.Infix

/-!
# The longest keyword

A trie finds the longest of its keywords that a text begins with (`Trie.longest?_eq_some_iff`), and
finds none exactly if the text begins with none (`Trie.longest?_eq_none_iff`). So what is found only
depends on which keywords there are.
-/

namespace CubeScript

/-- Whether some characters have a property and no longer ones have it, among those that a text
begins with. -/
structure Longest (P : List Char → Prop) (cs w : List Char) : Prop where
  has : P w
  begins : w <+: cs
  most : ∀ v, P v → v <+: cs → v.length ≤ w.length

namespace Longest

variable {P : List Char → Prop} {cs v w : List Char}

theorem length_unique (longest : Longest P cs v) (other : Longest P cs w) :
    v.length = w.length :=
  Nat.le_antisymm (other.most v longest.has longest.begins)
    (longest.most w other.has other.begins)

theorem self (has : P w) : Longest P w w :=
  ⟨has, List.prefix_rfl, fun _ _ => List.IsPrefix.length_le⟩

end Longest

/-- A text that goes on with a character which some characters do not have begins with them as it
does alone. -/
theorem prefix_append_iff {w : List Char} {d : Char} (apart : d ∉ w) (cs ds : List Char) :
    w <+: cs ++ d :: ds ↔ w <+: cs := by
  refine ⟨fun begins => ?_, fun begins => begins.trans (List.prefix_append ..)⟩
  refine List.prefix_of_prefix_length_le begins (List.prefix_append ..) ?_
  by_contra longer
  obtain ⟨us, same⟩ := begins
  have there : (w ++ us)[cs.length]? = some d := by
    rw [same, List.getElem?_append_right (Nat.le_refl _), Nat.sub_self]
    rfl
  rw [List.getElem?_append_left (by omega)] at there
  exact apart (List.mem_of_getElem? there)

namespace Trie

/-- Whether some characters are a keyword that a text may begin with. -/
def IsKeyword (t : Trie) (w : List Char) : Prop := w ≠ [] ∧ t.contains w

theorem isKeyword_cons_iff {t : Trie} {c : Char} {w : List Char} :
    t.IsKeyword (c :: w) ↔ ∃ after, t.child? c = some after ∧ after.contains w := by
  rw [IsKeyword, contains]
  cases child : t.child? c with
  | none => simp
  | some after => simp

/-- The search goes down the trie along the text. It gives the longest keyword it has come by. -/
theorem longestFrom_cases (t : Trie) (read : Nat) (best : Option Nat) (cs : List Char) :
    (∃ w, Longest t.IsKeyword cs w ∧ longestFrom read best cs t = some (read + w.length)) ∨
      (∀ w, t.IsKeyword w → ¬ w <+: cs) ∧ longestFrom read best cs t = best := by
  induction cs generalizing t read best with
  | nil => exact .inr ⟨fun w keyword begins => keyword.1 (List.prefix_nil.1 begins), rfl⟩
  | cons c cs ih =>
    rw [longestFrom]
    -- a keyword at the front of the text is the character followed by one of the trie behind it
    have goes {w : List Char} (keyword : t.IsKeyword w) (begins : w <+: c :: cs) :
        ∃ v after, w = c :: v ∧ v <+: cs ∧ t.child? c = some after ∧ after.contains v := by
      cases w with
      | nil => exact absurd rfl keyword.1
      | cons d v =>
        obtain ⟨rfl, later⟩ := List.cons_prefix_cons.1 begins
        obtain ⟨after, child, known⟩ := isKeyword_cons_iff.1 keyword
        exact ⟨v, after, rfl, later, child, known⟩
    cases child : t.child? c with
    | none =>
      refine .inr ⟨fun w keyword begins => ?_, rfl⟩
      obtain ⟨_, _, _, _, other, _⟩ := goes keyword begins
      cases child.symm.trans other
    | some after =>
      dsimp only
      obtain ⟨w, longest, found⟩ | ⟨none, found⟩ :=
        ih after (read + 1) (if after.ends then some (read + 1) else best)
      · refine .inl ⟨c :: w, ⟨isKeyword_cons_iff.2 ⟨after, child, longest.has.2⟩,
          List.cons_prefix_cons.2 ⟨rfl, longest.begins⟩, fun v keyword begins => ?_⟩, ?_⟩
        · obtain ⟨u, _, rfl, later, same, known⟩ := goes keyword begins
          cases child.symm.trans same
          by_cases empty : u = []
          · subst empty
            simp
          · exact Nat.succ_le_succ (longest.most u ⟨empty, known⟩ later)
        · rw [found, List.length_cons, Nat.add_right_comm, Nat.add_assoc]
      · by_cases ends : after.ends
        · refine .inl ⟨[c], ⟨isKeyword_cons_iff.2 ⟨after, child, ends⟩,
            List.cons_prefix_cons.2 ⟨rfl, List.nil_prefix⟩, fun v keyword begins => ?_⟩, ?_⟩
          · obtain ⟨u, _, rfl, later, same, known⟩ := goes keyword begins
            cases child.symm.trans same
            by_cases empty : u = []
            · subst empty
              exact Nat.le_refl _
            · exact absurd later (none u ⟨empty, known⟩)
          · rw [found, if_pos ends]
            rfl
        · refine .inr ⟨fun w keyword begins => ?_, ?_⟩
          · obtain ⟨u, _, rfl, later, same, known⟩ := goes keyword begins
            cases child.symm.trans same
            by_cases empty : u = []
            · subst empty
              exact ends known
            · exact none u ⟨empty, known⟩ later
          · rw [found, if_neg ends]

variable {t : Trie} {cs : List Char}

theorem longest?_of_longest {w : List Char} (longest : Longest t.IsKeyword cs w) :
    t.longest? cs = some w.length := by
  obtain ⟨v, other, found⟩ | ⟨none, _⟩ := t.longestFrom_cases 0 none cs
  · rw [longest?, found, longest.length_unique other, Nat.zero_add]
  · exact absurd longest.begins (none w longest.has)

/-- What is found is the length of the longest keyword that the text begins with. -/
theorem longest?_eq_some_iff {n : Nat} :
    t.longest? cs = some n ↔ ∃ w, Longest t.IsKeyword cs w ∧ w.length = n := by
  constructor
  · intro known
    obtain ⟨w, longest, found⟩ | ⟨_, found⟩ := t.longestFrom_cases 0 none cs
    · rw [longest?, found, Nat.zero_add] at known
      exact ⟨w, longest, Option.some.inj known⟩
    · rw [longest?, found] at known
      cases known
  · rintro ⟨w, longest, rfl⟩
    exact longest?_of_longest longest

/-- No keyword is found exactly if the text begins with none. -/
theorem longest?_eq_none_iff : t.longest? cs = none ↔ ∀ w, t.IsKeyword w → ¬ w <+: cs := by
  obtain ⟨w, longest, found⟩ | ⟨none, found⟩ := t.longestFrom_cases 0 none cs
  · rw [longest?, found]
    exact ⟨nofun, fun missing => absurd longest.begins (missing w longest.has)⟩
  · rw [longest?, found]
    exact ⟨fun _ => none, fun _ => rfl⟩

/-- A character that is in no keyword ends every keyword before it. -/
theorem longest?_append {d : Char} (apart : ∀ w, t.contains w → d ∉ w) (cs ds : List Char) :
    t.longest? (cs ++ d :: ds) = t.longest? cs := by
  have same {w : List Char} (keyword : t.IsKeyword w) : w <+: cs ++ d :: ds ↔ w <+: cs :=
    prefix_append_iff (apart w keyword.2) cs ds
  cases found : t.longest? cs with
  | none =>
    rw [longest?_eq_none_iff] at found ⊢
    exact fun w keyword begins => found w keyword ((same keyword).1 begins)
  | some n =>
    rw [longest?_eq_some_iff] at found ⊢
    obtain ⟨w, longest, length⟩ := found
    refine ⟨w, ⟨longest.has, (same longest.has).2 longest.begins, fun v keyword begins => ?_⟩,
      length⟩
    exact longest.most v keyword ((same keyword).1 begins)

theorem contains_foldl_insert (keywords : List String) (t : Trie) (w : List Char) :
    (keywords.foldl (fun t keyword => if keyword = "" then t else t.insert keyword.toList)
      t).contains w ↔ t.contains w ∨ (w ≠ [] ∧ String.ofList w ∈ keywords) := by
  induction keywords generalizing t with
  | nil => simp
  | cons keyword keywords ih =>
    rw [List.foldl_cons, ih, List.mem_cons]
    have same : String.ofList w = keyword ↔ w = keyword.toList := by
      constructor
      · rintro rfl
        exact (String.toList_ofList).symm
      · rintro rfl
        exact String.ofList_toList
    rw [same]
    split
    · rename_i empty
      have filled : w = keyword.toList → w = [] := by
        rintro rfl
        rw [empty]
        rfl
      grind
    · rename_i filled
      have nonempty : w = keyword.toList → w ≠ [] := by
        rintro rfl none
        exact filled (String.toList_eq_nil_iff.1 none)
      rw [contains_insert, Bool.or_eq_true, decide_eq_true_iff]
      grind

theorem contains_ofList {keywords : List String} {w : List Char} :
    (ofList keywords).contains w ↔ w ≠ [] ∧ String.ofList w ∈ keywords := by
  rw [ofList, contains_foldl_insert]
  simp

end Trie

end CubeScript
