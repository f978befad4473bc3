import CubeScript.Cycle
import CubeScript.Text.Range
import CubeScript.Turn

/-!
# Scripts as trees of nodes

A script is kept in an arena: a list of nodes in which every composite node names its children
by their numbers. A node is an atom, which is done at once, or a group of other nodes, whose
form says what becomes of them.

Forms come in three sorts. A sequence runs its children one after the other. A wrapper
does something to a list of children as a whole. A pairing takes two children, its operands.
The arena itself promises little: a group may name nodes that do not exist or come later, and
a pairing may have any number of children. `Script.Ordered` singles out the scripts whose
nodes only name earlier ones.
-/

namespace CubeScript

/-- A node without children: a turn, a cycle of pieces, or nothing at all. -/
inductive Atom where
  | turn (turn : Turn)
  | cycle (cycle : Cycle)
  | nop
  deriving DecidableEq, Repr

/-- A group that acts on its children as on one script. -/
inductive Wrapper where
  | grouping
  | shorthand (name : String)
  | inversion
  | reflection
  | repetition (count : Nat)
  deriving DecidableEq, Repr

/-- A group of two operands, for `A B A' B'`, `A B A'` and `A' B A`. -/
inductive Pairing where
  | commutation
  | conjugation
  | rotation
  deriving DecidableEq, Repr

/-- What a node does with its children. -/
inductive Form where
  | sequence
  | wrapper (w : Wrapper)
  | pairing (p : Pairing)
  deriving DecidableEq, Repr

namespace Atom

/-- The word for a kind of atom. -/
def label : Atom → String
  | .turn _ => "move"
  | .cycle _ => "permutation"
  | .nop => "nop"

end Atom

namespace Form

/-- The word for a form. -/
def label : Form → String
  | .sequence => "sequence"
  | .wrapper .grouping => "grouping"
  | .wrapper (.shorthand _) => "macro"
  | .wrapper .inversion => "inversion"
  | .wrapper .reflection => "reflection"
  | .wrapper (.repetition _) => "repetition"
  | .pairing .commutation => "commutation"
  | .pairing .conjugation => "conjugation"
  | .pairing .rotation => "rotation"

end Form

/-- What a node of an arena is. -/
inductive Content where
  | atom (a : Atom)
  | group (form : Form) (children : List Nat)
  deriving DecidableEq, Repr

namespace Content

/-- The numbers of the children. -/
def children : Content → List Nat
  | .atom _ => []
  | .group _ children => children

/-- The word for what a node is. -/
def label : Content → String
  | .atom a => a.label
  | .group form _ => form.label

end Content

/-- A node of an arena, with the range of the text it was read from. -/
structure Node where
  content : Content
  range : Range
  deriving DecidableEq, Repr

/-- The nodes of a script under construction. -/
abbrev Arena := Array Node

namespace Arena

/-- Forget the nodes from number `count` on. -/
def truncate (arena : Arena) (count : Nat) : Arena := arena.extract 0 count

/-- The range of a node. -/
def range? (arena : Arena) (id : Nat) : Option Range := arena[id]?.map Node.range

/-- Give a node another range. -/
def setRange (arena : Arena) (id : Nat) (range : Range) : Arena :=
  arena.modify id fun node => { node with range }

/-- Give the nodes from number `first` on another range. -/
def setRangesFrom (arena : Arena) (first : Nat) (range : Range) : Arena :=
  arena.mapIdx fun id node => if first ≤ id then { node with range } else node

end Arena

/-- A script for a cube of `layers` layers: an arena and the node it begins with. -/
structure Script where
  nodes : Arena
  root : Nat
  layers : Nat
  deriving DecidableEq, Repr

namespace Script

/-- The children of a node, none if there is no such node. -/
def children (script : Script) (id : Nat) : List Nat :=
  (script.nodes[id]?.map (·.content.children)).getD []

/-- Whether every child either has a smaller number than its parent or does not exist. -/
def Ordered (script : Script) : Prop :=
  ∀ id, ∀ child ∈ script.children id, child < id ∨ script.nodes.size ≤ child

end Script

end CubeScript
