import CubeScript.Text.Trie

/-!
# Keyword tries in one array

A trie can be kept in one array of nodes, in which a node names the nodes that follow on it by their
numbers and the root is number 0. To add a keyword is to go down from the root along its characters.
Where no node follows, a new one is appended to the array and named by the node before it.

A node only names later ones, and no node is named twice. So every node stands for one text, which
is spelt on the only way to it. A `TrieArena` carries the proof of this (`TrieArena.Treelike`). A
`TrieArena.Spot` is a trie and one of its nodes, which the way has led to.

Keywords are found as in a `Trie`, but what is told is the number of bytes and not of characters.
-/

namespace CubeScript

/-- A node of a trie in an array: the numbers of the nodes that follow on some characters, and
whether a keyword ends here. -/
structure TrieArena.Node where
  children : Table Char Nat := .empty
  ends : Bool := false

namespace TrieArena

/-- The number of the node that follows on a character. -/
def child? (nodes : Array Node) (id : Nat) (c : Char) : Option Nat :=
  nodes[id]?.bind fun node => node.children.get? c

/-- Whether a keyword ends at a node. -/
def ends (nodes : Array Node) (id : Nat) : Bool := (nodes[id]?.map Node.ends).getD false

/-- Append a node that follows on a node. -/
def grow (nodes : Array Node) (id : Nat) (c : Char) : Array Node :=
  (nodes.push {}).modify id fun node =>
    { node with children := node.children.set c nodes.size }

/-- Let a keyword end at a node. -/
def close (nodes : Array Node) (id : Nat) : Array Node :=
  nodes.modify id fun node => { node with ends := true }

section

variable {nodes : Array Node} {id : Nat}

@[simp] theorem size_grow (nodes : Array Node) (id : Nat) (c : Char) :
    (grow nodes id c).size = nodes.size + 1 := by
  simp [grow]

@[simp] theorem size_close (nodes : Array Node) (id : Nat) :
    (close nodes id).size = nodes.size := by
  simp [close]

theorem child?_single (id : Nat) (c : Char) : child? #[{}] id c = none := by
  cases id <;> rfl

theorem child?_of_size_le (missing : nodes.size ≤ id) (c : Char) : child? nodes id c = none := by
  rw [child?, Array.getElem?_eq_none missing]
  rfl

theorem ends_of_size_le (missing : nodes.size ≤ id) : ends nodes id = false := by
  rw [ends, Array.getElem?_eq_none missing]
  rfl

/-- What stands at a number after a node has been appended. -/
theorem getElem?_grow (stored : id < nodes.size) (c : Char) (other : Nat) :
    (grow nodes id c)[other]? =
      if other = nodes.size then some {}
      else if other = id then
        nodes[id]?.map fun node => { node with children := node.children.set c nodes.size }
      else nodes[other]? := by
  rw [grow, Array.getElem?_modify, Array.getElem?_push]
  by_cases own : other = id
  · rw [own, if_pos rfl, if_neg (Nat.ne_of_lt stored), if_neg (Nat.ne_of_lt stored), if_pos rfl]
  · rw [if_neg (Ne.symm own), if_neg own]

theorem child?_grow (stored : id < nodes.size) (c : Char) (other : Nat) (d : Char) :
    child? (grow nodes id c) other d =
      if other = id ∧ d = c then some nodes.size else child? nodes other d := by
  rw [child?, getElem?_grow stored]
  by_cases fresh : other = nodes.size
  · have apart : nodes.size ≠ id := Nat.ne_of_gt stored
    rw [if_pos fresh, fresh, child?_of_size_le (Nat.le_refl _), if_neg fun same => apart same.1]
    rfl
  · rw [if_neg fresh]
    by_cases own : other = id
    · subst own
      simp [child?, Array.getElem?_eq_getElem stored]
    · rw [if_neg own, if_neg fun same => own same.1]
      rfl

theorem ends_grow (stored : id < nodes.size) (c : Char) (other : Nat) :
    ends (grow nodes id c) other = ends nodes other := by
  rw [ends, getElem?_grow stored]
  by_cases fresh : other = nodes.size
  · rw [if_pos fresh, fresh, ends_of_size_le (Nat.le_refl _)]
    rfl
  · rw [if_neg fresh]
    by_cases own : other = id
    · subst own
      simp [ends, Array.getElem?_eq_getElem stored]
    · rw [if_neg own]
      rfl

@[simp] theorem child?_close (nodes : Array Node) (id other : Nat) (d : Char) :
    child? (close nodes id) other d = child? nodes other d := by
  simp only [child?, close, Array.getElem?_modify]
  split
  · cases nodes[other]? <;> rfl
  · rfl

theorem ends_close (stored : id < nodes.size) (other : Nat) :
    ends (close nodes id) other = (ends nodes other || decide (other = id)) := by
  simp only [ends, close, Array.getElem?_modify]
  by_cases own : id = other
  · subst own
    simp [Array.getElem?_eq_getElem stored]
  · simp [own, Ne.symm own]

end

/-- Whether there is a root, a node only names later ones, and no node is named twice. -/
structure Treelike (nodes : Array Node) : Prop where
  rooted : 0 < nodes.size
  later : ∀ {id c next}, child? nodes id c = some next → id < next ∧ next < nodes.size
  once : ∀ {id c other d next}, child? nodes id c = some next →
    child? nodes other d = some next → id = other ∧ c = d

namespace Treelike

variable {nodes : Array Node} {id : Nat} {c : Char}

theorem single : Treelike #[{}] where
  rooted := Nat.zero_lt_one
  later found := by
    rw [child?_single] at found
    cases found
  once found _ := by
    rw [child?_single] at found
    cases found

/-- A new node is named by one other, and no node that was there before is named once more. -/
theorem grow (treelike : Treelike nodes) (stored : id < nodes.size) :
    Treelike (grow nodes id c) where
  rooted := by
    rw [size_grow]
    exact Nat.succ_pos _
  later {other d next} found := by
    rw [child?_grow stored] at found
    rw [size_grow]
    split at found
    · rename_i same
      cases found
      exact ⟨same.1 ▸ stored, Nat.lt_succ_self _⟩
    · obtain ⟨later, before⟩ := treelike.later found
      exact ⟨later, Nat.lt_succ_of_lt before⟩
  once {first d second e next} one two := by
    rw [child?_grow stored] at one two
    split at one <;> split at two
    · rename_i same sameToo
      exact ⟨same.1.trans sameToo.1.symm, same.2.trans sameToo.2.symm⟩
    · cases one
      exact absurd (treelike.later two).2 (Nat.lt_irrefl _)
    · cases two
      exact absurd (treelike.later one).2 (Nat.lt_irrefl _)
    · exact treelike.once one two

theorem close (treelike : Treelike nodes) (id : Nat) : Treelike (close nodes id) where
  rooted := by
    rw [size_close]
    exact treelike.rooted
  later found := by
    rw [child?_close] at found
    rw [size_close]
    exact treelike.later found
  once one two := by
    rw [child?_close] at one two
    exact treelike.once one two

end Treelike

end TrieArena

/-- A trie in one array. -/
structure TrieArena where
  nodes : Array TrieArena.Node
  treelike : TrieArena.Treelike nodes

namespace TrieArena

/-- A node of a trie. -/
structure Spot extends TrieArena where
  id : Nat
  stored : id < nodes.size

/-- The root of a trie. -/
def top (t : TrieArena) : Spot := { t with id := 0, stored := t.treelike.rooted }

/-- Go on to the node that follows on a character, which is added if there is none. -/
def Spot.enter (s : Spot) (c : Char) : Spot :=
  match found : child? s.nodes s.id c with
  | some next => { s with id := next, stored := (s.treelike.later found).2 }
  | none =>
    { nodes := grow s.nodes s.id c
      treelike := s.treelike.grow s.stored
      id := s.nodes.size
      stored := by simp }

/-- The trie without keywords. -/
def empty : TrieArena := ⟨#[{}], .single⟩

/-- Add a keyword. The empty keyword is left out. -/
def insert (keyword : String) (t : TrieArena) : TrieArena :=
  if keyword = "" then t
  else
    let s := keyword.toList.foldl Spot.enter t.top
    ⟨close s.nodes s.id, s.treelike.close s.id⟩

/-- The trie of some keywords. -/
def ofList (keywords : List String) : TrieArena :=
  keywords.foldl (fun t keyword => t.insert keyword) empty

/-- The number of bytes of the longest keyword that a text begins with. The text goes on after
`read` bytes that led to the node `id`, and `best` is the longest keyword among them. -/
def longestFrom (nodes : Array Node) (read : Nat) (best : Option Nat) (id : Nat) :
    List Char → Option Nat
  | [] => best
  | c :: cs =>
    match child? nodes id c with
    | none => best
    | some next =>
      let read := read + c.utf8Size
      longestFrom nodes read (if ends nodes next then some read else best) next cs

/-- The number of bytes of the longest keyword that a text begins with. -/
def longest? (t : TrieArena) (text : String) : Option Nat :=
  longestFrom t.nodes 0 none 0 text.toList

/-- Whether a keyword is in the trie. -/
def contains (t : TrieArena) (keyword : String) : Bool :=
  keyword ≠ "" && t.longest? keyword = some keyword.utf8ByteSize

end TrieArena

end CubeScript
