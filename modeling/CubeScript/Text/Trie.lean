import CubeScript.Table

/-!
# Keyword tries

A trie holds a set of keywords by their characters, so that the longest keyword at the start of
a text is found in one pass. `Trie.contains_insert` says what an insertion adds. The empty
keyword is at the start of every text and of no use there, so the trie of a list of keywords
leaves it out.
-/

namespace CubeScript

/-- A set of keywords. A node tells whether a keyword ends there, and which tries follow on
which characters. -/
inductive Trie where
  | node (ends : Bool) (children : List (Char × Trie))

namespace Trie

/-- The trie without keywords. -/
def empty : Trie := .node false []

instance : Inhabited Trie := ⟨empty⟩

/-- Whether a keyword ends at the root. -/
def ends : Trie → Bool
  | .node ends _ => ends

/-- The tries that follow on the root. -/
def children : Trie → List (Char × Trie)
  | .node _ children => children

/-- The trie that follows on a character. -/
def child? (t : Trie) (c : Char) : Option Trie := Table.lookup c t.children

/-- Add a keyword. -/
def insert : List Char → Trie → Trie
  | [], t => .node true t.children
  | c :: cs, t =>
    .node t.ends (Table.assign c (fun after => insert cs (after.getD empty)) t.children)

/-- Whether a keyword is in the trie. -/
def contains : List Char → Trie → Bool
  | [], t => t.ends
  | c :: cs, t =>
    match t.child? c with
    | some t => contains cs t
    | none => false

@[simp] theorem contains_empty (w : List Char) : contains w empty = false := by
  cases w <;> simp [contains, empty, ends, child?, children, Table.lookup]

theorem child?_insert (c d : Char) (v : List Char) (t : Trie) :
    (insert (c :: v) t).child? d =
      if d = c then some (insert v ((t.child? c).getD empty)) else t.child? d := by
  simp only [insert, child?, children, Table.lookup_assign]

@[simp] theorem contains_insert (v w : List Char) (t : Trie) :
    contains w (insert v t) = (contains w t || decide (w = v)) := by
  induction v generalizing w t with
  | nil => cases w <;> simp [insert, contains, ends, child?, children]
  | cons c v ih =>
    cases w with
    | nil => simp [insert, contains, ends]
    | cons d w =>
      simp only [contains, child?_insert]
      by_cases h : d = c
      · subst h
        cases ht : t.child? d <;> simp [ih]
      · simp [h]

/-- The number of characters of the longest keyword that a text begins with. The text goes on
after `read` characters that led to this trie, and `best` is the longest keyword among them. -/
def longestFrom (read : Nat) (best : Option Nat) : List Char → Trie → Option Nat
  | [], _ => best
  | c :: cs, t =>
    match t.child? c with
    | none => best
    | some t => longestFrom (read + 1) (if t.ends then some (read + 1) else best) cs t

/-- The number of characters of the longest keyword that a text begins with. -/
def longest? (t : Trie) (text : List Char) : Option Nat := longestFrom 0 none text t

theorem lt_of_longestFrom {t : Trie} {text : List Char} {read n : Nat} {best : Option Nat}
    (h : longestFrom read best text t = some n) : best = some n ∨ read < n := by
  induction text generalizing t read best with
  | nil => exact .inl h
  | cons c cs ih =>
    simp only [longestFrom] at h
    split at h
    · exact .inl h
    · rcases ih h with hbest | hlt
      · split at hbest
        · right
          have := Option.some.inj hbest
          omega
        · exact .inl hbest
      · right
        omega

/-- A keyword found in a text has at least one character. -/
theorem longest?_pos {t : Trie} {text : List Char} {n : Nat} (h : t.longest? text = some n) :
    0 < n := by
  rcases lt_of_longestFrom h with h | h
  · cases h
  · exact h

/-- The trie of some keywords. -/
def ofList (keywords : List String) : Trie :=
  keywords.foldl (fun t keyword => if keyword = "" then t else insert keyword.toList t) empty

end Trie

end CubeScript
