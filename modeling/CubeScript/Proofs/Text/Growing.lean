import CubeScript.Proofs.Text.Replacing
import CubeScript.Text.TrieArena
import Mathlib.Data.List.Induction
import Mathlib.Order.Bounds.Basic

/-!
# How a trie in one array grows

What a trie says about a text is whether something follows on it, and if so whether a keyword ends
there (`Trie.ending?`, `TrieArena.ending?`). To add a keyword does the same to this in a tree and in
an array. In the array it rests on what the nodes stand for: two texts that lead to one node are the
same (`TrieArena.eq_of_locate?`), so a node that is appended, or closed, only matters to one text.

From this, a trie in an array answers like the tree, and both answer like a table of the keywords
(`IsKeywordTable`): the longest keyword that a text begins with is found, and nothing else is.
-/

namespace CubeScript

namespace Trie

/-- Whether a keyword ends behind some characters, if the trie has a node there. -/
def ending? : List Char → Trie → Option Bool
  | [], t => some t.ends
  | c :: cs, t => (t.child? c).bind (ending? cs)

theorem ending?_empty (w : List Char) : ending? w empty = if w = [] then some false else none := by
  cases w <;> rfl

/-- Adding a keyword makes a node behind everything that it begins with. -/
theorem ending?_insert (v w : List Char) (t : Trie) :
    ending? w (insert v t) =
      if w = v then some true
      else if w <+: v then some ((ending? w t).getD false)
      else ending? w t := by
  induction v generalizing w t with
  | nil =>
    cases w with
    | nil => rfl
    | cons d w => simp [insert, ending?, child?, children]
  | cons c v ih =>
    cases w with
    | nil => simp [insert, ending?, ends]
    | cons d w =>
      rw [ending?, child?_insert, ending?]
      by_cases same : d = c
      · subst same
        cases child : t.child? d with
        | none => cases w <;> simp [ih, ending?_empty, List.cons_prefix_cons]
        | some after => simp [ih, List.cons_prefix_cons]
      · simp [same, List.cons_prefix_cons]

end Trie

namespace TrieArena

/-! ### What the nodes stand for -/

/-- The node that some characters lead to. -/
def locate? (nodes : Array Node) (id : Nat) : List Char → Option Nat
  | [] => some id
  | c :: cs => (child? nodes id c).bind fun next => locate? nodes next cs

theorem locate?_concat (nodes : Array Node) (id : Nat) (w : List Char) (c : Char) :
    locate? nodes id (w ++ [c]) = (locate? nodes id w).bind fun last => child? nodes last c := by
  induction w generalizing id with
  | nil => simp [locate?]
  | cons d w ih => simp [locate?, ih, Option.bind_assoc]

/-- A node stands for one text. The induction goes up from the node to the root. -/
theorem eq_of_locate? {nodes : Array Node} (treelike : Treelike nodes) {id : Nat}
    {v w : List Char} (one : locate? nodes 0 v = some id) (two : locate? nodes 0 w = some id) :
    v = w := by
  -- no way leads back to the root
  have root {u : List Char} {c : Char} : locate? nodes 0 (u ++ [c]) ≠ some 0 := by
    intro back
    rw [locate?_concat] at back
    obtain ⟨last, _, found⟩ := Option.bind_eq_some_iff.1 back
    exact absurd (treelike.later found).1 (Nat.not_lt_zero last)
  induction v using List.reverseRecOn generalizing id w with
  | nil =>
    cases one
    cases w using List.reverseRecOn with
    | nil => rfl
    | append_singleton w d => exact absurd two root
  | append_singleton v c ih =>
    cases w using List.reverseRecOn with
    | nil =>
      cases two
      exact absurd one root
    | append_singleton w d =>
      rw [locate?_concat] at one two
      obtain ⟨last, before, found⟩ := Option.bind_eq_some_iff.1 one
      obtain ⟨lastToo, beforeToo, foundToo⟩ := Option.bind_eq_some_iff.1 two
      obtain ⟨rfl, rfl⟩ := treelike.once found foundToo
      rw [ih before beforeToo]

/-- Whether a keyword ends behind some characters, if there is a node. -/
def ending? (nodes : Array Node) (w : List Char) : Option Bool :=
  (locate? nodes 0 w).map (ends nodes)

/-! ### Adding a keyword -/

namespace Spot

variable {s : Spot} {c : Char}

theorem enter_of_some {next : Nat} (found : child? s.nodes s.id c = some next) :
    (s.enter c).nodes = s.nodes ∧ (s.enter c).id = next := by
  rw [enter]
  split
  · rename_i other foundToo
    exact ⟨rfl, Option.some.inj (foundToo.symm.trans found)⟩
  · rename_i missing
    cases missing.symm.trans found

theorem enter_of_none (missing : child? s.nodes s.id c = none) :
    (s.enter c).nodes = grow s.nodes s.id c ∧ (s.enter c).id = s.nodes.size := by
  rw [enter]
  split
  · rename_i found
    cases found.symm.trans missing
  · exact ⟨rfl, rfl⟩

/-- Whether some characters lead to a spot. -/
def At (s : Spot) (w : List Char) : Prop := locate? s.nodes 0 w = some s.id

section

variable {u : List Char} (reached : s.At u)

include reached

theorem At.behind (c : Char) : locate? s.nodes 0 (u ++ [c]) = child? s.nodes s.id c := by
  rw [locate?_concat, reached]
  rfl

theorem At.eq_iff {w : List Char} {id : Nat} (found : locate? s.nodes 0 w = some id) :
    id = s.id ↔ w = u := by
  constructor
  · rintro rfl
    exact eq_of_locate? s.treelike found reached
  · rintro rfl
    exact Option.some.inj (found.symm.trans reached)

/-- A new node is behind one text, and behind all others everything is as it was. -/
theorem locate?_grow (missing : child? s.nodes s.id c = none) (w : List Char) :
    locate? (grow s.nodes s.id c) 0 w =
      if w = u ++ [c] then some s.nodes.size else locate? s.nodes 0 w := by
  induction w using List.reverseRecOn with
  | nil => simp [locate?]
  | append_singleton w d ih =>
    rw [locate?_concat, ih, locate?_concat]
    by_cases new : w = u ++ [c]
    · -- nothing follows on the new node, and before there was nothing to follow on
      have absent : locate? s.nodes 0 w = none := by
        rw [new, reached.behind, missing]
      have longer : w ≠ u := by simp [new]
      have other : s.nodes.size ≠ s.id := Nat.ne_of_gt s.stored
      rw [if_pos new, absent]
      simp [longer, child?_grow s.stored, other, child?_of_size_le]
    · rw [if_neg new]
      cases found : locate? s.nodes 0 w with
      | none =>
        have elsewhere : w ≠ u := by
          rintro rfl
          cases reached.symm.trans found
        simp [elsewhere]
      | some last => simp [child?_grow s.stored, reached.eq_iff found]

theorem At.enter : (s.enter c).At (u ++ [c]) := by
  rw [At]
  cases found : child? s.nodes s.id c with
  | some next =>
    obtain ⟨same, id⟩ := enter_of_some found
    rw [same, id, reached.behind, found]
  | none =>
    obtain ⟨grown, id⟩ := enter_of_none found
    rw [grown, id, locate?_grow reached found, if_pos rfl]

/-- Going on to a node makes sure that it is there. -/
theorem ending?_enter (w : List Char) :
    ending? (s.enter c).nodes w =
      if w = u ++ [c] then some ((ending? s.nodes w).getD false) else ending? s.nodes w := by
  rw [ending?, ending?]
  cases found : child? s.nodes s.id c with
  | some next =>
    rw [(enter_of_some found).1]
    split
    · rename_i new
      rw [new, reached.behind, found]
      rfl
    · rfl
  | none =>
    have kept : ends (grow s.nodes s.id c) = ends s.nodes := funext (ends_grow s.stored c)
    rw [(enter_of_none found).1, kept, locate?_grow reached found]
    split
    · rename_i new
      rw [new, reached.behind, found]
      exact congrArg some (ends_of_size_le (Nat.le_refl _))
    · rfl

/-- Only one text leads to the node that is closed. -/
theorem ending?_close (w : List Char) :
    ending? (close s.nodes s.id) w = if w = u then some true else ending? s.nodes w := by
  have same : locate? (close s.nodes s.id) 0 w = locate? s.nodes 0 w := by
    generalize 0 = id
    induction w generalizing id with
    | nil => rfl
    | cons c w ih => simp only [locate?, child?_close, ih]
  rw [ending?, ending?, same]
  split
  · rename_i own
    rw [own, reached]
    simp [ends_close s.stored]
  · rename_i other
    cases found : locate? s.nodes 0 w with
    | none => rfl
    | some id =>
      have apart : id ≠ s.id := mt (reached.eq_iff found).1 other
      simp [ends_close s.stored, apart]

end

end Spot

/-- Going down along a text makes a node behind everything that it begins with. -/
theorem foldl_enter (t : TrieArena) (w : List Char) :
    (w.foldl Spot.enter t.top).At w ∧
      ∀ v, ending? (w.foldl Spot.enter t.top).nodes v =
        if v <+: w then some ((ending? t.nodes v).getD false) else ending? t.nodes v := by
  induction w using List.reverseRecOn with
  | nil =>
    refine ⟨rfl, fun v => ?_⟩
    by_cases root : v = []
    · subst root
      rfl
    · rw [if_neg (mt List.prefix_nil.1 root)]
      rfl
  | append_singleton w c ih =>
    obtain ⟨reached, before⟩ := ih
    rw [List.foldl_append]
    refine ⟨reached.enter, fun v => ?_⟩
    change ending? (Spot.enter _ c).nodes v = _
    rw [Spot.ending?_enter reached, before]
    have begins : v <+: w ++ [c] ↔ v = w ++ [c] ∨ v <+: w := List.prefix_concat_iff
    by_cases last : v = w ++ [c]
    · have longer : ¬ v <+: w := by
        intro shorter
        have := shorter.length_le
        rw [last, List.length_append, List.length_singleton] at this
        omega
      rw [if_pos last, if_neg longer, if_pos (begins.2 (.inl last))]
    · simp [last, begins]

/-- To add a keyword does the same to an array as to a tree. -/
theorem ending?_insert (t : TrieArena) {keyword : String} (filled : keyword ≠ "")
    (w : List Char) :
    ending? (t.insert keyword).nodes w =
      if w = keyword.toList then some true
      else if w <+: keyword.toList then some ((ending? t.nodes w).getD false)
      else ending? t.nodes w := by
  obtain ⟨reached, before⟩ := t.foldl_enter keyword.toList
  rw [insert, if_neg filled]
  exact (Spot.ending?_close reached w).trans (by rw [before])

/-- The array and the tree of some keywords have nodes behind the same texts, and keywords end at
the same of them. -/
theorem ending?_ofList (keywords : List String) (w : List Char) :
    ending? (ofList keywords).nodes w = (Trie.ofList keywords).ending? w := by
  induction keywords using List.reverseRecOn generalizing w with
  | nil =>
    rw [Trie.ofList, List.foldl_nil, Trie.ending?_empty]
    cases w <;> rfl
  | append_singleton keywords keyword ih =>
    have array : ofList (keywords ++ [keyword]) = (ofList keywords).insert keyword := by
      rw [ofList, List.foldl_append]
      rfl
    have tree : Trie.ofList (keywords ++ [keyword]) =
        if keyword = "" then Trie.ofList keywords
        else (Trie.ofList keywords).insert keyword.toList := by
      rw [Trie.ofList, List.foldl_append]
      rfl
    rw [array, tree]
    by_cases empty : keyword = ""
    · rw [if_pos empty, insert, if_pos empty]
      exact ih w
    · rw [if_neg empty, ending?_insert _ empty, Trie.ending?_insert, ih]

/-! ### Finding a keyword -/

/-- The search goes down an array as it goes down a tree that says the same. The text goes on after
the characters of `before`. -/
theorem longestFrom_eq {nodes : Array Node} {id : Nat} {t : Trie}
    (same : ∀ w, (locate? nodes id w).map (ends nodes) = t.ending? w) (before cs : List Char)
    (best : Option Nat) :
    longestFrom nodes (byteLength before)
        (best.map fun count => byteLength ((before ++ cs).take count)) id cs =
      (t.longestFrom before.length best cs).map fun count =>
        byteLength ((before ++ cs).take count) := by
  induction cs generalizing id t before best with
  | nil => rfl
  | cons c cs ih =>
    have here := same [c]
    rw [longestFrom, Trie.longestFrom]
    cases child : t.child? c with
    | none =>
      cases found : child? nodes id c with
      | none => rfl
      | some next => simp [locate?, Trie.ending?, found, child] at here
    | some after =>
      cases found : child? nodes id c with
      | none => simp [locate?, Trie.ending?, found, child] at here
      | some next =>
        have sameBehind : ∀ w, (locate? nodes next w).map (ends nodes) = after.ending? w := by
          intro w
          have := same (c :: w)
          simpa [locate?, Trie.ending?, found, child] using this
        have closes : ends nodes next = after.ends := Option.some.inj (sameBehind [])
        have taken : byteLength ((before ++ c :: cs).take (before.length + 1)) =
            byteLength before + c.utf8Size := by
          rw [List.take_append, List.take_of_length_le (Nat.le_succ _)]
          simp
        have step := ih sameBehind (before ++ [c])
          (if after.ends then some (before.length + 1) else best)
        simp only [List.append_assoc, List.singleton_append, byteLength_append, byteLength_cons,
          byteLength_nil, Nat.add_zero, List.length_append, List.length_singleton] at step
        dsimp only
        rw [← step, closes]
        congr 1
        split
        · exact congrArg some taken.symm
        · rfl

/-- The array gives the length of what the tree finds, in bytes. -/
theorem longest?_ofList (keywords : List String) (text : String) :
    (ofList keywords).longest? text = ((Trie.ofList keywords).longest? text.toList).map
      fun count => byteLength (text.toList.take count) :=
  longestFrom_eq (ending?_ofList keywords) [] text.toList none

end TrieArena

/-! ### Tables of keywords -/

/-- The lengths of the keywords that a text begins with, in bytes. The empty keyword is none. -/
def keywordLengths (keywords : List String) (text : String) : Set Nat :=
  { length | ∃ keyword ∈ keywords,
    keyword ≠ "" ∧ keyword.toList <+: text.toList ∧ keyword.utf8ByteSize = length }

/-- Whether a way to find the longest keyword that a text begins with, and a way to tell whether
something is a keyword, are right for some keywords. -/
structure IsKeywordTable (keywords : List String) (longest? : String → Option Nat)
    (contains : String → Bool) : Prop where
  isSome_iff : ∀ text, (longest? text).isSome ↔
    ∃ keyword ∈ keywords, keyword ≠ "" ∧ keyword.toList <+: text.toList
  isGreatest : ∀ text length,
    longest? text = some length → IsGreatest (keywordLengths keywords text) length
  contains_iff : ∀ keyword, contains keyword ↔ keyword ≠ "" ∧ keyword ∈ keywords

namespace IsKeywordTable

variable {keywords others : List String} {longest? longestToo? : String → Option Nat}
  {contains containsToo : String → Bool}

/-- What a table answers only depends on which keywords there are, without the empty one. -/
theorem unique (table : IsKeywordTable keywords longest? contains)
    (other : IsKeywordTable others longestToo? containsToo)
    (same : ∀ keyword, keyword ≠ "" → (keyword ∈ others ↔ keyword ∈ keywords)) :
    longestToo? = longest? ∧ containsToo = contains := by
  have lengths (text : String) : keywordLengths others text = keywordLengths keywords text := by
    ext length
    constructor
    · rintro ⟨keyword, member, filled, rest⟩
      exact ⟨keyword, (same keyword filled).1 member, filled, rest⟩
    · rintro ⟨keyword, member, filled, rest⟩
      exact ⟨keyword, (same keyword filled).2 member, filled, rest⟩
  constructor
  · funext text
    cases found : longest? text with
    | none =>
      apply Option.not_isSome_iff_eq_none.1
      intro foundToo
      obtain ⟨keyword, member, filled, begins⟩ := (other.isSome_iff text).1 foundToo
      have := (table.isSome_iff text).2 ⟨keyword, (same keyword filled).1 member, filled, begins⟩
      rw [found] at this
      cases this
    | some length =>
      have greatest := table.isGreatest text length found
      obtain ⟨keyword, member, filled, begins, _⟩ := greatest.1
      obtain ⟨lengthToo, foundToo⟩ := Option.isSome_iff_exists.1
        ((other.isSome_iff text).2 ⟨keyword, (same keyword filled).2 member, filled, begins⟩)
      have greatestToo := other.isGreatest text lengthToo foundToo
      rw [lengths] at greatestToo
      rw [foundToo, greatestToo.unique greatest]
  · funext keyword
    apply Bool.eq_iff_iff.2
    rw [table.contains_iff, other.contains_iff]
    exact and_congr_right (same keyword)

/-- A table that finds the longest keyword can tell by it what a keyword is. -/
theorem longest?_eq_iff (table : IsKeywordTable keywords longest? contains) {keyword : String}
    (filled : keyword ≠ "") :
    longest? keyword = some keyword.utf8ByteSize ↔ keyword ∈ keywords := by
  constructor
  · intro found
    obtain ⟨other, member, _, ⟨rest, split⟩, long⟩ := (table.isGreatest keyword _ found).1
    have whole : other.toList ++ rest = keyword.toList ++ [] := by rw [split, List.append_nil]
    have sizes : byteLength other.toList = byteLength keyword.toList := by
      rw [byteLength_toList, byteLength_toList, long]
    obtain ⟨same, _⟩ := Lexer.append_inj_of_byteLength whole sizes
    rwa [← String.toList_injective same]
  · intro member
    obtain ⟨length, found⟩ := Option.isSome_iff_exists.1
      ((table.isSome_iff keyword).2 ⟨keyword, member, filled, List.prefix_rfl⟩)
    obtain ⟨⟨other, _, _, ⟨rest, split⟩, long⟩, most⟩ := table.isGreatest keyword length found
    have atLeast := most ⟨keyword, member, filled, List.prefix_rfl, rfl⟩
    have atMost : length ≤ keyword.utf8ByteSize := by
      rw [← long, ← byteLength_toList, ← byteLength_toList, ← split, byteLength_append]
      exact Nat.le_add_right _ _
    rw [found, Nat.le_antisymm atMost atLeast]

end IsKeywordTable

namespace Trie

variable {keywords : List String} {text : String}

theorem isKeyword_toList_iff {keyword : String} :
    (ofList keywords).IsKeyword keyword.toList ↔ keyword ≠ "" ∧ keyword ∈ keywords := by
  rw [IsKeyword, contains_ofList, String.ofList_toList, Ne, String.toList_eq_nil_iff]
  tauto

theorem exists_of_isKeyword {w : List Char} (keyword : (ofList keywords).IsKeyword w) :
    ∃ name ∈ keywords, name ≠ "" ∧ name.toList = w := by
  rw [← String.toList_ofList (l := w)] at keyword
  obtain ⟨filled, member⟩ := isKeyword_toList_iff.1 keyword
  exact ⟨String.ofList w, member, filled, String.toList_ofList⟩

theorem isSome_longest?_iff : ((ofList keywords).longest? text.toList).isSome ↔
    ∃ keyword ∈ keywords, keyword ≠ "" ∧ keyword.toList <+: text.toList := by
  constructor
  · intro some
    obtain ⟨count, found⟩ := Option.isSome_iff_exists.1 some
    obtain ⟨_, longest, _⟩ := longest?_eq_some_iff.1 found
    obtain ⟨keyword, member, filled, rfl⟩ := exists_of_isKeyword longest.has
    exact ⟨keyword, member, filled, longest.begins⟩
  · rintro ⟨keyword, member, filled, begins⟩
    apply Option.isSome_iff_ne_none.2
    intro none
    exact longest?_eq_none_iff.1 none _ (isKeyword_toList_iff.2 ⟨filled, member⟩) begins

theorem isGreatest_of_longest? {count : Nat}
    (found : (ofList keywords).longest? text.toList = some count) :
    IsGreatest (keywordLengths keywords text) (byteLength (text.toList.take count)) := by
  obtain ⟨w, longest, rfl⟩ := longest?_eq_some_iff.1 found
  rw [← List.prefix_iff_eq_take.1 longest.begins]
  constructor
  · obtain ⟨keyword, member, filled, rfl⟩ := exists_of_isKeyword longest.has
    exact ⟨keyword, member, filled, longest.begins, (byteLength_toList keyword).symm⟩
  · -- of two beginnings of a text the one with fewer characters begins the other
    rintro _ ⟨keyword, member, filled, begins, rfl⟩
    have short := longest.most _ (isKeyword_toList_iff.2 ⟨filled, member⟩) begins
    obtain ⟨rest, rfl⟩ := List.prefix_of_prefix_length_le begins longest.begins short
    rw [byteLength_append, byteLength_toList]
    exact Nat.le_add_right _ _

/-- What a lexer asks a trie is answered as by a table. -/
theorem isKeywordTable_ofList (keywords : List String) :
    IsKeywordTable keywords
      (fun text => ((ofList keywords).longest? text.toList).map
        fun count => byteLength (text.toList.take count))
      (fun keyword => (ofList keywords).contains keyword.toList) where
  isSome_iff text := by
    rw [Option.isSome_map]
    exact isSome_longest?_iff
  isGreatest text length found := by
    obtain ⟨count, counted, rfl⟩ := Option.map_eq_some_iff.1 found
    exact isGreatest_of_longest? counted
  contains_iff keyword := by
    rw [contains_ofList, String.ofList_toList, Ne, String.toList_eq_nil_iff]

end Trie

namespace TrieArena

theorem isKeywordTable_ofList (keywords : List String) :
    IsKeywordTable keywords (ofList keywords).longest? (ofList keywords).contains := by
  have tree := Trie.isKeywordTable_ofList keywords
  have same : (ofList keywords).longest? = _ := funext (longest?_ofList keywords)
  rw [← same] at tree
  refine { tree with contains_iff := fun keyword => ?_ }
  rw [contains, Bool.and_eq_true, decide_eq_true_iff, decide_eq_true_iff]
  exact and_congr_right tree.longest?_eq_iff

/-- A trie finds the longest keyword that a text begins with and no other one, whatever keywords it
was made of, and knows the keywords themselves. The tree that a lexer looks into and the array give
the same answers. They only depend on which keywords there are, not on the order in which they came,
nor on how often, nor on whether the empty one is among them. -/
theorem answers_of_keywords (keywords : List String) :
    IsKeywordTable keywords (ofList keywords).longest? (ofList keywords).contains ∧
      IsKeywordTable keywords
        (fun text => ((Trie.ofList keywords).longest? text.toList).map
          fun count => byteLength (text.toList.take count))
        (fun keyword => (Trie.ofList keywords).contains keyword.toList) ∧
      ∀ others, (∀ keyword, keyword ≠ "" → (keyword ∈ others ↔ keyword ∈ keywords)) →
        (ofList others).longest? = (ofList keywords).longest? ∧
          (ofList others).contains = (ofList keywords).contains :=
  ⟨isKeywordTable_ofList keywords, Trie.isKeywordTable_ofList keywords, fun others =>
    (isKeywordTable_ofList keywords).unique (isKeywordTable_ofList others)⟩

theorem answers_of_keywords_accented :
    (∀ keyword, keyword ≠ "" →
      (keyword ∈ ["é2'", "R", "é"] ↔ keyword ∈ ["é", "R", "", "é2'", "R"])) ∧
      (ofList ["é2'", "R", "é"]).longest? = (ofList ["é", "R", "", "é2'", "R"]).longest? ∧
      (ofList ["é2'", "R", "é"]).contains = (ofList ["é", "R", "", "é2'", "R"]).contains ∧
      IsGreatest (keywordLengths ["é", "R", "", "é2'", "R"] "é2R") 2 := by
  have same (keyword : String) (filled : keyword ≠ "") :
      keyword ∈ ["é2'", "R", "é"] ↔ keyword ∈ ["é", "R", "", "é2'", "R"] := by
    simp [filled]
    tauto
  obtain ⟨table, _, alike⟩ := answers_of_keywords ["é", "R", "", "é2'", "R"]
  obtain ⟨longest, contains⟩ := alike _ same
  have found : (ofList ["é", "R", "", "é2'", "R"]).longest? "é2R" = some 2 := by decide +kernel
  exact ⟨same, longest, contains, table.isGreatest _ _ found⟩

end TrieArena

end CubeScript
