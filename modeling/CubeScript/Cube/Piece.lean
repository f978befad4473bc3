/-!
# Kinds of pieces

The pieces of a cube are told apart by how many faces they show. The invisible core
counts as a kind of its own, so that every piece of a cube has a number.
-/

namespace CubeScript

/-- A corner shows three faces, an edge two, a side one and the center none. -/
inductive PieceKind where
  | corner
  | edge
  | side
  | center
  deriving DecidableEq, Repr, Inhabited

namespace PieceKind

/-- All kinds, in the order in which pieces are numbered. -/
def all : List PieceKind := [.corner, .edge, .side, .center]

/-- How many ways a piece of this kind can be twisted in its place. -/
def twists : PieceKind → Nat
  | .corner => 3
  | .edge => 2
  | .side => 4
  | .center => 1

/-- How many faces a piece of this kind shows. -/
def faceCount : PieceKind → Nat
  | .corner => 3
  | .edge => 2
  | .side => 1
  | .center => 0

/-- The kind that is named by listing a given number of faces. The center has no name. -/
def ofFaceCount? : Nat → Option PieceKind
  | 3 => some .corner
  | 2 => some .edge
  | 1 => some .side
  | _ => none

/-- The English name of a kind. -/
def name : PieceKind → String
  | .corner => "corner"
  | .edge => "edge"
  | .side => "side"
  | .center => "center"

/-- The kind with a given name. -/
def ofName? (s : String) : Option PieceKind :=
  all.find? fun k => k.name == s

instance : ToString PieceKind := ⟨name⟩

theorem twists_pos (k : PieceKind) : 0 < k.twists := by
  cases k <;> decide

theorem ofFaceCount?_faceCount {k : PieceKind} (h : k ≠ .center) :
    ofFaceCount? k.faceCount = some k := by
  cases k <;> simp_all [ofFaceCount?, faceCount]

end PieceKind

end CubeScript
