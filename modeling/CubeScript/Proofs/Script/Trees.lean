import CubeScript.Proofs.Script.Layout
import Mathlib.Data.List.Nodup

/-!
# Scripts that are one tree

An arena may hold nodes that nothing names, or that are named twice. The arena that statements are
laid out in does not: it holds one tree, whose root comes last, and every other node has one place
under one parent. The pairings of the tree have two sequences as their operands, since every pairing
is laid out with them. That every repetition has one child is up to the statements, which are asked
for it (`Statement.Composed`).

While statements are laid out there are nodes that have no parent yet. `Arena.Tidy` keeps count of
them. A node that is added comes behind them, and the children it names are taken out.
-/

namespace CubeScript

/-- Whether a statement is composed of atoms of some sort, and every repetition in it repeats one
statement. -/
inductive Statement.Composed (fits : Atom → Prop) : Statement → Prop where
  | atom {a : Atom} {range : Range} (fit : fits a) : Composed fits (.atom a range)
  | wrapped {w : Wrapper} {body : List Statement} {range : Range}
      (parts : ∀ s ∈ body, Composed fits s)
      (alone : ∀ count, w = .repetition count → ∃ s, body = [s]) :
      Composed fits (.wrapped w body range)
  | paired {p : Pairing} {first second : List Statement} {range : Range}
      (left : ∀ s ∈ first, Composed fits s) (right : ∀ s ∈ second, Composed fits s) :
      Composed fits (.paired p first second range)

namespace Arena

/-- Whether a node of an arena is a sequence. -/
def IsSequence (arena : Arena) (id : Nat) : Prop :=
  ∃ children range, arena[id]? = some ⟨.group .sequence children, range⟩

theorem IsSequence.mono {arena larger : Arena} {id : Nat} (sequence : arena.IsSequence id)
    (keeps : Keeps arena larger) : larger.IsSequence id := by
  obtain ⟨children, range, stored⟩ := sequence
  exact ⟨children, range, keeps id _ stored⟩

theorem isSequence_add (arena : Arena) (children : List Nat) (range : Range) :
    (arena.add (.group .sequence children) range).2.IsSequence
      (arena.add (.group .sequence children) range).1 :=
  ⟨children, range, by simp [add]⟩

end Arena

/-- Whether a node of an arena has the children that its form asks for: a pairing has two sequences,
and a repetition has one child. -/
def Content.Shaped (arena : Arena) : Content → Prop
  | .group (.pairing _) children =>
    ∃ a b, children = [a, b] ∧ arena.IsSequence a ∧ arena.IsSequence b
  | .group (.wrapper (.repetition _)) children => ∃ child, children = [child]
  | _ => True

theorem Content.Shaped.mono {arena larger : Arena} {content : Content}
    (shaped : content.Shaped arena) (keeps : arena.Keeps larger) : content.Shaped larger := by
  match content with
  | .atom _ => trivial
  | .group .sequence _ => trivial
  | .group (.wrapper (.repetition _)) _ => exact shaped
  | .group (.wrapper .grouping) _ | .group (.wrapper (.shorthand _)) _
  | .group (.wrapper .inversion) _ | .group (.wrapper .reflection) _ => trivial
  | .group (.pairing _) _ =>
    obtain ⟨a, b, same, first, second⟩ := shaped
    exact ⟨a, b, same, first.mono keeps, second.mono keeps⟩

namespace Arena

/-- Whether every node of an arena is named once, by one node, but for some that are not named, and
all nodes are as they should be. -/
structure Tidy (fits : Atom → Prop) (arena : Arena) (unnamed : List Nat) : Prop where
  named : (arena.toList.flatMap (·.content.children) ++ unnamed).Perm (List.range arena.size)
  shaped : ∀ node ∈ arena, node.content.Shaped arena
  atoms : ∀ node ∈ arena, ∀ a, node.content = .atom a → fits a

namespace Tidy

variable {fits : Atom → Prop} {arena : Arena} {unnamed : List Nat}

theorem empty : Tidy fits #[] [] where
  named := .refl _
  shaped := nofun
  atoms := nofun

/-- The order of the nodes that are not named is of no concern. -/
theorem swap {a b : List Nat} (tidy : Tidy fits arena (unnamed ++ a ++ b)) :
    Tidy fits arena (unnamed ++ b ++ a) where
  named := by
    have before := tidy.named
    rw [List.append_assoc unnamed] at before ⊢
    exact ((List.perm_append_comm.append_left unnamed).append_left _).trans before
  shaped := tidy.shaped
  atoms := tidy.atoms

/-- A node names some of the nodes that have not been named, and has not been named itself. -/
theorem add (content : Content) (tidy : Tidy fits arena (unnamed ++ content.children))
    (shaped : content.Shaped arena) (fit : ∀ a, content = .atom a → fits a) (range : Range) :
    Tidy fits (arena.add content range).2 (unnamed ++ [(arena.add content range).1]) where
  named := by
    have before := tidy.named
    have moved : (arena.toList.flatMap (·.content.children) ++ content.children ++ unnamed).Perm
        (List.range arena.size) := by
      rw [List.append_assoc]
      exact (List.perm_append_comm.append_left _).trans before
    simpa [Arena.add, List.range_succ] using moved.append_right [arena.size]
  shaped := by
    have keeps := keeps_push arena ⟨content, range⟩
    intro node member
    obtain old | rfl := Array.mem_push.1 member
    · exact (tidy.shaped node old).mono keeps
    · exact shaped.mono keeps
  atoms := by
    intro node member
    obtain old | rfl := Array.mem_push.1 member
    · exact tidy.atoms node old
    · exact fit

theorem add_group (form : Form) {children : List Nat}
    (tidy : Tidy fits arena (unnamed ++ children))
    (shaped : (Content.group form children).Shaped arena) (range : Range) :
    Tidy fits (arena.add (.group form children) range).2
      (unnamed ++ [(arena.add (.group form children) range).1]) := by
  refine tidy.add (.group form children) shaped ?_ range
  rintro _ ⟨⟩

/-- Statements that each leave an arena tidy leave it tidy together. -/
theorem placeAll {statements : List Statement} (each : ∀ s ∈ statements, ∀ given arena unnamed,
      Tidy fits arena unnamed →
        Tidy fits (place given s arena).2 (unnamed ++ [(place given s arena).1]))
    (given : Option Range) (tidy : Tidy fits arena unnamed) :
    Tidy fits (placeAll given statements arena).2
      (unnamed ++ (placeAll given statements arena).1) := by
  induction statements generalizing arena unnamed with
  | nil => simpa [Arena.placeAll] using tidy
  | cons s statements ih =>
    have first := each s List.mem_cons_self given arena unnamed tidy
    have rest := ih (fun other member => each other (List.mem_cons_of_mem s member)) first
    simpa [Arena.placeAll] using rest

/-- A statement that is laid out adds one node that has not been named. The induction is on how the
statement is composed, for every arena it may be laid out in. -/
theorem place {s : Statement} (composed : s.Composed fits) (given : Option Range) (arena : Arena)
    (unnamed : List Nat) (tidy : Tidy fits arena unnamed) :
    Tidy fits (place given s arena).2 (unnamed ++ [(place given s arena).1]) := by
  induction composed generalizing given arena unnamed with
  | @atom a range fit =>
    rw [Arena.place]
    have childless : Tidy fits arena (unnamed ++ (Content.atom a).children) := by
      simpa [Content.children] using tidy
    refine childless.add (.atom a) trivial ?_ _
    rintro _ ⟨⟩
    exact fit
  | @wrapped w body range _ alone ih =>
    refine (placeAll ih _ tidy).add_group (.wrapper w) ?_ _
    cases w with
    | grouping | shorthand | inversion | reflection => trivial
    | repetition count =>
      obtain ⟨s, rfl⟩ := alone count rfl
      exact ⟨_, rfl⟩
  | @paired p first second range _ _ ihFirst ihSecond =>
    have left := placeAll ihFirst given tidy
    have right := placeAll ihSecond given left
    -- One operand is closed after the other, so the parts of the other one have to give way.
    have one := right.swap.add_group .sequence trivial
      (given.getD (Range.spanning (first.map Statement.range)))
    have two := one.swap.add_group .sequence trivial
      (given.getD (Range.spanning (second.map Statement.range)))
    rw [List.append_assoc unnamed] at two
    refine two.add_group (.pairing p) ⟨_, _, rfl, ?_, ?_⟩ _
    · exact (isSequence_add _ _ _).mono (keeps_push _ _)
    · exact isSequence_add _ _ _

end Tidy

end Arena

namespace Script

/-- Whether a script is one tree. Its root is the last node, every other node is named once and by
one node, which comes later, and all nodes have the children that they should. -/
structure IsTree (script : Script) : Prop where
  root : script.root + 1 = script.nodes.size
  named : ∀ id < script.root, ∃ parent, (script.children parent).count id = 1 ∧
    ∀ other, id ∈ script.children other → other = parent
  earlier : ∀ id, ∀ child ∈ script.children id, child < id
  shaped : ∀ node ∈ script.nodes, node.content.Shaped script.nodes

theorem mem_children_iff {script : Script} {id child : Nat} :
    child ∈ script.children id ↔ ∃ node, script.nodes.toList[id]? = some node ∧
      child ∈ node.content.children := by
  rw [children, Array.getElem?_toList]
  cases script.nodes[id]? <;> simp

/-- A child that is named once has one parent. -/
theorem eq_of_mem_children {script : Script}
    (once : (script.nodes.toList.flatMap (·.content.children)).Nodup) {parent other child : Nat}
    (named : child ∈ script.children parent) (namedToo : child ∈ script.children other) :
    other = parent := by
  have apart := List.pairwise_iff_getElem.1 (List.nodup_flatMap.1 once).2
  obtain ⟨first, stored, member⟩ := mem_children_iff.1 named
  obtain ⟨second, storedToo, memberToo⟩ := mem_children_iff.1 namedToo
  obtain ⟨bound, rfl⟩ := List.getElem?_eq_some_iff.1 stored
  obtain ⟨boundToo, rfl⟩ := List.getElem?_eq_some_iff.1 storedToo
  obtain less | same | greater := Nat.lt_trichotomy other parent
  · exact absurd member (apart other parent boundToo bound less memberToo)
  · exact same
  · exact absurd memberToo (apart parent other bound boundToo greater member)

/-- If the root is the only node without a parent, the script is a tree. -/
theorem isTree_of_tidy {script : Script} {fits : Atom → Prop}
    (root : script.root + 1 = script.nodes.size) (tidy : script.nodes.Tidy fits [script.root])
    (earlier : ∀ id, ∀ child ∈ script.children id, child < id) : script.IsTree where
  root := root
  named := by
    have counted := tidy.named
    rw [← root, List.range_succ, List.perm_append_right_iff] at counted
    have once := counted.nodup_iff.2 List.nodup_range
    intro id before
    obtain ⟨node, stored, named⟩ :=
      List.mem_flatMap.1 (counted.mem_iff.2 (List.mem_range.2 before))
    obtain ⟨parent, same⟩ := List.mem_iff_getElem?.1 stored
    have member : id ∈ script.children parent := mem_children_iff.2 ⟨node, same, named⟩
    have distinct : (script.children parent).Nodup := by
      rw [Array.getElem?_toList] at same
      rw [children, same]
      exact (List.nodup_flatMap.1 once).1 node stored
    exact ⟨parent, List.count_eq_one_of_mem distinct member,
      fun other namedToo => eq_of_mem_children once member namedToo⟩
  earlier := earlier
  shaped := tidy.shaped

section

variable {fits : Atom → Prop} {statements : List Statement}
  (composed : ∀ s ∈ statements, s.Composed fits) (length layers : Nat)

include composed

theorem tidy_ofStatements : (ofStatements statements length layers).nodes.Tidy fits
    [(ofStatements statements length layers).root] := by
  have tidy := Arena.Tidy.placeAll (fun s member => Arena.Tidy.place (composed s member)) none
    Arena.Tidy.empty
  exact tidy.add_group .sequence trivial ⟨0, length⟩

/-- A script that has been made of statements is one tree. -/
theorem isTree_ofStatements : (ofStatements statements length layers).IsTree := by
  have lays := lays_ofStatements statements length layers
  refine isTree_of_tidy ?_ (tidy_ofStatements composed length layers) ?_
  · simp [ofStatements, Arena.add]
  · intro id child member
    obtain ⟨node, stored, named⟩ := mem_children_iff.1 member
    rw [Array.getElem?_toList] at stored
    exact lays.descends id node stored child named

end

end Script

end CubeScript
