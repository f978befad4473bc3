import CubeScript.Script.Resolver

/-!
# What the nodes of a script stand for

A resolver works through a stack of tasks, one step after the other. The meaning of a node is the
list of operations that come out in the end, and it is given here by recursion on the tree: a node
only looks at the meanings of the nodes it names. The two flags are arguments of a meaning, since
a group may hand them on changed.

A step of the resolver keeps the operations that its stack stands for and lowers a bound on the
steps to come. So the bound that a resolver starts with is large enough, and the operations it
lists are the meaning of the node it was made for. Scripts in which nodes name later ones have no
meaning of this kind; all statements about resolvers ask for an ordered script.
-/

namespace CubeScript

/-- What a part of a script stands for: its operations, given the two flags. -/
abbrev Meaning := (inverse reflected : Bool) → List Op

namespace Meaning

/-- The part that does nothing. -/
def nothing : Meaning := fun _ _ => []

/-- Some parts one after the other, from the last to the first if they are undone. -/
def inSequence (parts : List Meaning) : Meaning := fun inverse reflected =>
  (if inverse then parts.reverse else parts).flatMap fun part => part inverse reflected

end Meaning

/-- The operation of an atom on a cube of some number of layers. -/
def Atom.meaning (layers : Nat) : Atom → Meaning
  | .nop, _, _ => []
  | .cycle c, inverse, _ => [.cycle (if inverse then c.inverse else c)]
  | .turn t, inverse, reflected =>
    let t := if reflected then t.reflected layers else t
    [.turn (if inverse then t.inverse else t)]

/-- What a wrapper makes of the parts it encloses. -/
def Wrapper.meaning (w : Wrapper) (parts : List Meaning) : Meaning := fun inverse reflected =>
  match w with
  | .grouping | .shorthand _ => Meaning.inSequence parts inverse reflected
  | .inversion => Meaning.inSequence parts (!inverse) reflected
  | .reflection => Meaning.inSequence parts inverse (!reflected)
  | .repetition count =>
    (List.replicate count (Meaning.inSequence parts inverse reflected)).flatten

/-- What a pairing makes of its operands. Undone, it comes out as a product of three or four
operands again. -/
def Pairing.meaning (p : Pairing) (a b : Meaning) : Meaning := fun inverse reflected =>
  match p, inverse with
  | .commutation, false =>
    a false reflected ++ b false reflected ++ a true reflected ++ b true reflected
  | .commutation, true =>
    b false reflected ++ a false reflected ++ b true reflected ++ a true reflected
  | .conjugation, false => a false reflected ++ b false reflected ++ a true reflected
  | .conjugation, true => a false reflected ++ b true reflected ++ a true reflected
  | .rotation, false => a true reflected ++ b false reflected ++ a false reflected
  | .rotation, true => a true reflected ++ b true reflected ++ a false reflected

/-- What a form makes of the parts of a group. A pairing of other than two parts does nothing. -/
def Form.meaning : Form → List Meaning → Meaning
  | .sequence, parts => .inSequence parts
  | .wrapper w, parts => w.meaning parts
  | .pairing p, [a, b] => p.meaning a b
  | .pairing _, _ => .nothing

/-! ### What holds of all operations -/

/-- Whether all operations of a part have some property, whatever the flags are. -/
def Meaning.All (holds : Op → Prop) (m : Meaning) : Prop :=
  ∀ inverse reflected, ∀ op ∈ m inverse reflected, holds op

section

variable {holds : Op → Prop} {parts : List Meaning}

theorem Meaning.all_nothing : nothing.All holds := fun _ _ _ member => nomatch member

theorem Meaning.all_inSequence (each : ∀ part ∈ parts, part.All holds) :
    (inSequence parts).All holds := by
  intro inverse reflected op member
  obtain ⟨part, named, produced⟩ := List.mem_flatMap.1 member
  have listed : part ∈ parts := by
    cases inverse with
    | false => exact named
    | true => exact List.mem_reverse.1 named
  exact each part listed inverse reflected op produced

theorem Wrapper.all_meaning (w : Wrapper) (each : ∀ part ∈ parts, part.All holds) :
    (w.meaning parts).All holds := by
  have body := Meaning.all_inSequence each
  intro inverse reflected
  cases w with
  | grouping => exact body inverse reflected
  | shorthand name => exact body inverse reflected
  | inversion => exact body (!inverse) reflected
  | reflection => exact body inverse (!reflected)
  | repetition count =>
    intro op member
    obtain ⟨copy, copied, produced⟩ := List.mem_flatten.1 member
    rw [List.eq_of_mem_replicate copied] at produced
    exact body inverse reflected op produced

theorem Pairing.all_meaning (p : Pairing) {a b : Meaning} (first : a.All holds)
    (second : b.All holds) : (p.meaning a b).All holds := by
  intro inverse reflected op member
  cases p <;> cases inverse <;> simp only [Pairing.meaning, List.mem_append] at member <;>
    grind [Meaning.All]

/-- Every form hands on the operations of its parts. -/
theorem Form.all_meaning (form : Form) (each : ∀ part ∈ parts, part.All holds) :
    (form.meaning parts).All holds := by
  cases form with
  | sequence => exact Meaning.all_inSequence each
  | wrapper w => exact w.all_meaning each
  | pairing p =>
    match parts with
    | [a, b] => exact p.all_meaning (each a (by simp)) (each b (by simp))
    | [] => exact Meaning.all_nothing
    | [_] => exact Meaning.all_nothing
    | _ :: _ :: _ :: _ => exact Meaning.all_nothing

end

namespace Script

/-- What a node of a script stands for. A node that does not exist does nothing, and neither do
children that do not come before their parent. -/
def meaning (script : Script) (id : Nat) : Meaning :=
  match script.nodes[id]? with
  | none => .nothing
  | some node =>
    match node.content with
    | .atom a => a.meaning script.layers
    | .group form children =>
      form.meaning (children.map fun child =>
        if child < id then script.meaning child else .nothing)

theorem children_of_group {script : Script} {id : Nat} {node : Node} {form : Form}
    {children : List Nat} (stored : script.nodes[id]? = some node)
    (content : node.content = .group form children) : script.children id = children := by
  simp [Script.children, stored, content, Content.children]

/-- Only the nodes that exist have to be looked at. -/
theorem ordered_iff {script : Script} : script.Ordered ↔ ∀ id < script.nodes.size,
    ∀ child ∈ script.children id, child < id ∨ script.nodes.size ≤ child := by
  refine ⟨fun ordered id _ => ordered id, fun ordered id child member => ?_⟩
  by_cases stored : id < script.nodes.size
  · exact ordered id stored child member
  · simp [Script.children, Array.getElem?_eq_none (Nat.le_of_not_lt stored)] at member

instance (script : Script) : Decidable script.Ordered := decidable_of_iff' _ ordered_iff

theorem meaning_of_size_le {script : Script} {id : Nat} (h : script.nodes.size ≤ id) :
    script.meaning id = .nothing := by
  rw [meaning, Array.getElem?_eq_none h]

theorem meaning_of_atom {script : Script} {id : Nat} {node : Node} {a : Atom}
    (stored : script.nodes[id]? = some node) (content : node.content = .atom a) :
    script.meaning id = a.meaning script.layers := by
  rw [meaning, stored]
  simp only [content]

/-- In an ordered script a child that does not come before its parent does not exist, so the
meaning of a group looks at the meanings of all its children. -/
theorem meaning_of_group {script : Script} (ordered : script.Ordered) {id : Nat} {node : Node}
    {form : Form} {children : List Nat} (stored : script.nodes[id]? = some node)
    (content : node.content = .group form children) :
    script.meaning id = form.meaning (children.map script.meaning) := by
  rw [meaning, stored]
  simp only [content]
  congr 1
  apply List.map_congr_left
  intro child member
  split
  · rfl
  · rename_i later
    obtain earlier | missing := ordered id child (children_of_group stored content ▸ member)
    · exact absurd earlier later
    · exact (meaning_of_size_le missing).symm

/-- What holds of the meanings of all atoms of a script and is kept by every form holds of the
meanings of all nodes. -/
theorem meaning_induction {script : Script} (ordered : script.Ordered) {motive : Meaning → Prop}
    (nothing : motive .nothing)
    (atom : ∀ node ∈ script.nodes, ∀ a, node.content = .atom a → motive (a.meaning script.layers))
    (group : ∀ (form : Form) (parts : List Meaning),
      (∀ part ∈ parts, motive part) → motive (form.meaning parts))
    (id : Nat) : motive (script.meaning id) := by
  induction id using Nat.strongRecOn with
  | ind id ih =>
    cases stored : script.nodes[id]? with
    | none =>
      rw [meaning_of_size_le (Array.getElem?_eq_none_iff.1 stored)]
      exact nothing
    | some node =>
      cases content : node.content with
      | atom a =>
        rw [meaning_of_atom stored content]
        exact atom node (Array.mem_of_getElem? stored) a content
      | group form children =>
        rw [meaning_of_group ordered stored content]
        apply group
        intro part member
        obtain ⟨child, named, rfl⟩ := List.mem_map.1 member
        rcases ordered id child (children_of_group stored content ▸ named) with
          earlier | missing
        · exact ih child earlier
        · rw [meaning_of_size_le missing]
          exact nothing

/-- What holds of the operations of all atoms of a script holds of the operations of all nodes. -/
theorem all_meaning {script : Script} (ordered : script.Ordered) {holds : Op → Prop}
    (atom : ∀ node ∈ script.nodes, ∀ a, node.content = .atom a →
      (a.meaning script.layers).All holds) (id : Nat) : (script.meaning id).All holds :=
  meaning_induction ordered Meaning.all_nothing atom (fun form _ each => form.all_meaning each) id

end Script

end CubeScript
