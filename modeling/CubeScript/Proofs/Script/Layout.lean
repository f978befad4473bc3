import CubeScript.Proofs.Script.Resolving
import CubeScript.Script.Statement
import Mathlib.Data.List.Forall2

/-!
# What statements stand for

A statement has a meaning of its own, by recursion on the tree. Laying it out in an arena keeps it:
the node that a statement is given stands for what the statement stands for. Nodes are only added,
behind the ones that are there, and a new node names earlier ones. So nodes go on to stand for what
they stood for, and a script that has been made of statements is ordered and lists their operations
one after the other.
-/

namespace CubeScript

namespace Statement

mutual

/-- What a statement stands for on a cube of some number of layers. -/
def meaning (layers : Nat) : Statement → Meaning
  | .atom a _ => a.meaning layers
  | .wrapped w body _ => w.meaning (meanings layers body)
  | .paired p first second _ =>
    p.meaning (.inSequence (meanings layers first)) (.inSequence (meanings layers second))

/-- What each of some statements stands for. -/
def meanings (layers : Nat) : List Statement → List Meaning
  | [] => []
  | s :: statements => meaning layers s :: meanings layers statements

end

end Statement

namespace Arena

/-- Whether an arena still has the nodes of another one. -/
def Keeps (arena larger : Arena) : Prop :=
  ∀ (id : Nat) node, arena[id]? = some node → larger[id]? = some node

/-- Whether all nodes of an arena only name earlier ones. -/
def Descends (arena : Arena) : Prop :=
  ∀ (id : Nat) node, arena[id]? = some node → ∀ child ∈ node.content.children, child < id

/-- Whether there is a node of some number and it stands for something. -/
def Stands (layers : Nat) (arena : Arena) (id : Nat) (m : Meaning) : Prop :=
  id < arena.size ∧ ∀ root, Script.meaning ⟨arena, root, layers⟩ id = m

theorem Keeps.trans {arena middle larger : Arena} (first : Keeps arena middle)
    (second : Keeps middle larger) : Keeps arena larger := by
  intro id node stored
  exact second id node (first id node stored)

/-- Nodes stand for the same in a script with more nodes and any other root. -/
theorem Keeps.meaning_eq {arena larger : Arena} (keeps : Keeps arena larger)
    (root other layers : Nat) {id : Nat} (stored : id < arena.size) :
    Script.meaning ⟨larger, root, layers⟩ id = Script.meaning ⟨arena, other, layers⟩ id := by
  induction id using Nat.strongRecOn with
  | ind id ih =>
    obtain ⟨node, known⟩ : ∃ node, arena[id]? = some node :=
      ⟨_, Array.getElem?_eq_getElem stored⟩
    rw [Script.meaning, Script.meaning, known, keeps id node known]
    cases content : node.content with
    | atom a => simp only [content]
    | group form children =>
      simp only [content]
      congr 1
      apply List.map_congr_left
      intro child _
      split
      · rename_i earlier
        exact ih child earlier (Nat.lt_trans earlier stored)
      · rfl

theorem Stands.mono {layers : Nat} {arena larger : Arena} {id : Nat} {m : Meaning}
    (stands : Stands layers arena id m) (keeps : Keeps arena larger) :
    Stands layers larger id m := by
  obtain ⟨stored, meaning⟩ := stands
  have kept := keeps id _ (Array.getElem?_eq_getElem stored)
  refine ⟨(Array.getElem?_eq_some_iff.1 kept).1, ?_⟩
  intro root
  rw [← meaning root]
  exact keeps.meaning_eq root root layers stored

theorem keeps_push (arena : Arena) (node : Node) : Keeps arena (arena.push node) := by
  intro id other stored
  obtain ⟨inside, _⟩ := Array.getElem?_eq_some_iff.1 stored
  rw [Array.getElem?_push_lt inside, ← stored, Array.getElem?_eq_getElem inside]

theorem Descends.push {arena : Arena} (descends : Descends arena) {node : Node}
    (earlier : ∀ child ∈ node.content.children, child < arena.size) :
    Descends (arena.push node) := by
  intro id other stored child member
  rw [Array.getElem?_push] at stored
  split at stored
  · rename_i last
    cases stored
    rw [last]
    exact earlier child member
  · exact descends id other stored child member

/-- Whether an arena has been made from another one by adding nodes, some of which stand for
something. -/
structure Lays (layers : Nat) (arena larger : Arena) (ids : List Nat) (ms : List Meaning) :
    Prop where
  keeps : Keeps arena larger
  descends : Descends larger
  stands : List.Forall₂ (Stands layers larger) ids ms

namespace Lays

variable {layers : Nat} {arena middle larger : Arena} {ids others : List Nat}
  {ms ns : List Meaning}

theorem nil (descends : Descends arena) : Lays layers arena arena [] [] where
  keeps _ _ stored := stored
  descends := descends
  stands := .nil

/-- Nodes go on to stand for what they stood for. -/
theorem mono (lays : Lays layers arena middle ids ms) (keeps : Keeps middle larger)
    (descends : Descends larger) : Lays layers arena larger ids ms where
  keeps := lays.keeps.trans keeps
  descends := descends
  stands := lays.stands.imp fun _ _ stands => stands.mono keeps

theorem append (first : Lays layers arena larger ids ms)
    (second : Lays layers arena larger others ns) :
    Lays layers arena larger (ids ++ others) (ms ++ ns) where
  keeps := first.keeps
  descends := first.descends
  stands := List.rel_append first.stands second.stands

theorem earlier (lays : Lays layers arena larger ids ms) : ∀ id ∈ ids, id < larger.size := by
  have stands := lays.stands
  clear lays
  induction stands with
  | nil => nofun
  | cons first _ ih =>
    intro id member
    obtain rfl | member := List.mem_cons.1 member
    · exact first.1
    · exact ih id member

theorem add_atom (descends : Descends arena) (a : Atom) (range : Range) :
    Lays layers arena (arena.add (.atom a) range).2 [(arena.add (.atom a) range).1]
      [a.meaning layers] where
  keeps := keeps_push arena _
  descends := descends.push nofun
  stands := by
    refine .cons ⟨by simp [add], ?_⟩ .nil
    intro root
    have stored : (arena.add (.atom a) range).2[(arena.add (.atom a) range).1]? =
        some ⟨.atom a, range⟩ := by
      simp [add]
    exact Script.meaning_of_atom stored rfl

/-- A group stands for what its form makes of what its children stand for. -/
theorem add_group (lays : Lays layers arena larger ids ms) (form : Form) (range : Range) :
    Lays layers arena (larger.add (.group form ids) range).2
      [(larger.add (.group form ids) range).1] [form.meaning ms] where
  keeps := lays.keeps.trans (keeps_push larger _)
  descends := lays.descends.push lays.earlier
  stands := by
    have more := keeps_push larger ⟨.group form ids, range⟩
    refine .cons ⟨by simp [add], ?_⟩ .nil
    intro root
    have stored : (larger.push ⟨.group form ids, range⟩)[larger.size]? =
        some ⟨.group form ids, range⟩ := by
      simp
    have known : List.Forall₂ (fun id m => (if id < larger.size then
        Script.meaning ⟨larger.push ⟨.group form ids, range⟩, root, layers⟩ id else .nothing) = m)
        ids ms := by
      refine lays.stands.imp ?_
      intro id m stands
      rw [if_pos stands.1]
      exact (stands.mono more).2 root
    change Script.meaning ⟨larger.push ⟨.group form ids, range⟩, root, layers⟩ larger.size = _
    rw [Script.meaning]
    simp only [stored]
    rw [← List.forall₂_map_left_iff, List.forall₂_eq_eq_eq] at known
    rw [known]

end Lays

variable {layers : Nat}

mutual

/-- The node of a statement stands for what the statement stands for. -/
theorem lays_place (given : Option Range) (s : Statement) {arena : Arena}
    (descends : Descends arena) :
    Lays layers arena (place given s arena).2 [(place given s arena).1] [s.meaning layers] := by
  match s with
  | .atom a range =>
    rw [place, Statement.meaning]
    exact .add_atom descends a _
  | .wrapped w body range =>
    rw [Statement.meaning]
    exact (lays_placeAll _ body descends).add_group (.wrapper w) _
  | .paired p first second range =>
    rw [Statement.meaning]
    have left := lays_placeAll given first descends
    have right := lays_placeAll given second left.descends
    have one := (left.mono right.keeps right.descends).add_group .sequence
      (given.getD (Range.spanning (first.map Statement.range)))
    have two := (right.mono (keeps_push _ _) one.descends).add_group .sequence
      (given.getD (Range.spanning (second.map Statement.range)))
    have both := (one.mono (keeps_push _ _) two.descends).append
      (.mk (left.keeps.trans two.keeps) two.descends two.stands)
    exact both.add_group (.pairing p) _

theorem lays_placeAll (given : Option Range) (statements : List Statement) {arena : Arena}
    (descends : Descends arena) :
    Lays layers arena (placeAll given statements arena).2 (placeAll given statements arena).1
      (Statement.meanings layers statements) := by
  match statements with
  | [] =>
    rw [placeAll, Statement.meanings]
    exact .nil descends
  | s :: statements =>
    rw [Statement.meanings]
    have first := lays_place given s descends
    have rest := lays_placeAll given statements first.descends
    exact (first.mono rest.keeps rest.descends).append
      (.mk (first.keeps.trans rest.keeps) rest.descends rest.stands)

end

end Arena

namespace Script

/-- The script made of some statements. -/
theorem lays_ofStatements (statements : List Statement) (length layers : Nat) :
    Arena.Lays layers #[] (ofStatements statements length layers).nodes
      [(ofStatements statements length layers).root]
      [.inSequence (Statement.meanings layers statements)] := by
  have empty : Arena.Descends #[] := by
    intro id node stored
    simp at stored
  exact (Arena.lays_placeAll none statements empty).add_group .sequence ⟨0, length⟩

theorem ordered_ofStatements (statements : List Statement) (length layers : Nat) :
    (ofStatements statements length layers).Ordered := by
  intro id child member
  rw [Script.children] at member
  cases stored : (ofStatements statements length layers).nodes[id]? with
  | none => simp [stored] at member
  | some node =>
    rw [stored] at member
    exact .inl ((lays_ofStatements statements length layers).descends id node stored child member)

/-- A script that has been made of statements does what they stand for, one after the other. -/
theorem toList_resolve_ofStatements (statements : List Statement) (length layers : Nat)
    (inverse : Bool) : ((ofStatements statements length layers).resolve inverse).toList =
      Meaning.inSequence (Statement.meanings layers statements) inverse false := by
  have lays := lays_ofStatements statements length layers
  cases lays.stands with
  | cons stands _ =>
    have root : (ofStatements statements length layers).meaning
        (ofStatements statements length layers).root = _ := stands.2 _
    rw [resolve, toList_resolveNode (ordered_ofStatements statements length layers), root]

end Script

end CubeScript
