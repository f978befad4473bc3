import CubeScript.Script.Node

/-!
# Statements

A statement is the tree that a piece of a script is read into. Unlike an arena it cannot go
wrong: its parts are there, and a pairing has exactly two operands, each a list of statements.

`Script.ofStatements` lays statements out in an arena. Parts come before what they are part of, and
the two operand sequences of a pairing come together, right before the pairing. The statements of a
shorthand were read from another text. In the script, they all stand where the shorthand does.
-/

namespace CubeScript

/-- A statement, with the range of the text it was read from. -/
inductive Statement where
  | atom (a : Atom) (range : Range)
  | wrapped (w : Wrapper) (body : List Statement) (range : Range)
  | paired (p : Pairing) (first second : List Statement) (range : Range)

namespace Statement

/-- The range of the text a statement was read from. -/
def range : Statement → Range
  | .atom _ range => range
  | .wrapped _ _ range => range
  | .paired _ _ _ range => range

end Statement

namespace Arena

/-- Add a node. Gives its number and the arena with it. -/
def add (arena : Arena) (content : Content) (range : Range) : Nat × Arena :=
  (arena.size, arena.push ⟨content, range⟩)

mutual

/-- Lay out a statement. If a range is given, it counts in place of the statement's own. Gives the
number of the statement's node and the arena with it. -/
def place (given : Option Range) : Statement → Arena → Nat × Arena
  | .atom a range, arena => arena.add (.atom a) (given.getD range)
  | .wrapped w body range, arena =>
    let range := given.getD range
    let inside := match w with
      | .shorthand _ => some range
      | _ => given
    let (ids, arena) := placeAll inside body arena
    arena.add (.group (.wrapper w) ids) range
  | .paired p first second range, arena =>
    let (firstIds, arena) := placeAll given first arena
    let (secondIds, arena) := placeAll given second arena
    let operand (statements : List Statement) (ids : List Nat) (arena : Arena) :=
      arena.add (.group .sequence ids)
        (given.getD (Range.spanning (statements.map Statement.range)))
    let (a, arena) := operand first firstIds arena
    let (b, arena) := operand second secondIds arena
    arena.add (.group (.pairing p) [a, b]) (given.getD range)

/-- Lay out some statements one after the other. Gives the numbers of their nodes. -/
def placeAll (given : Option Range) : List Statement → Arena → List Nat × Arena
  | [], arena => ([], arena)
  | s :: statements, arena =>
    let (id, arena) := place given s arena
    let (ids, arena) := placeAll given statements arena
    (id :: ids, arena)

end

end Arena

namespace Script

/-- The script made of some statements, read from a text of `length` bytes, for a cube of `layers`
layers. -/
def ofStatements (statements : List Statement) (length layers : Nat) : Script :=
  let (ids, arena) := Arena.placeAll none statements #[]
  let (root, arena) := arena.add (.group .sequence ids) ⟨0, length⟩
  ⟨arena, root, layers⟩

end Script

end CubeScript
