/-!
# Axes and faces of a cube

A cube stands on three axes. Axis `x` runs from the left face to the right one,
`y` from the bottom to the top and `z` from the back to the front. Each axis ends
in two faces, the positive one and its opposite.

A face doubles as the direction of its outward normal. Turning the cube about an
axis therefore permutes faces, and the four faces around an axis follow one
another in a single cycle; `Face.turn` is that permutation, and
`Face.turn_turn_not` says that the two senses of turning undo each other.
-/

namespace CubeScript

/-- The three axes, numbered `0`, `1` and `2` in this order. -/
inductive Axis where
  | x
  | y
  | z
  deriving DecidableEq, Repr, Inhabited

namespace Axis

/-- All axes in the order of their numbers. -/
def all : List Axis := [.x, .y, .z]

/-- The number of an axis. -/
def index : Axis → Nat
  | .x => 0
  | .y => 1
  | .z => 2

/-- The axis with a given number, if there is one. -/
def ofIndex? : Nat → Option Axis
  | 0 => some .x
  | 1 => some .y
  | 2 => some .z
  | _ => none

@[simp] theorem ofIndex?_index (a : Axis) : ofIndex? a.index = some a := by
  cases a <;> rfl

end Axis

/-- The six faces, numbered in this order: the three positive ends of the axes,
then their opposites. -/
inductive Face where
  | right
  | up
  | front
  | left
  | down
  | back
  deriving DecidableEq, Repr, Inhabited

namespace Face

/-- All faces in the order of their numbers. -/
def all : List Face := [.right, .up, .front, .left, .down, .back]

theorem mem_all (f : Face) : f ∈ all := by
  cases f <;> decide

/-- The number of a face. -/
def index : Face → Nat
  | .right => 0
  | .up => 1
  | .front => 2
  | .left => 3
  | .down => 4
  | .back => 5

/-- The axis a face is perpendicular to. -/
def axis : Face → Axis
  | .right | .left => .x
  | .up | .down => .y
  | .front | .back => .z

/-- Whether a face is the positive end of its axis. -/
def isPositive : Face → Bool
  | .right | .up | .front => true
  | .left | .down | .back => false

/-- The face at the other end of the axis. -/
def opposite : Face → Face
  | .right => .left
  | .up => .down
  | .front => .back
  | .left => .right
  | .down => .up
  | .back => .front

/-- The lower case letter that names a face. -/
def letter : Face → Char
  | .right => 'r'
  | .up => 'u'
  | .front => 'f'
  | .left => 'l'
  | .down => 'd'
  | .back => 'b'

/-- The upper case letter that names a face. -/
def capital (f : Face) : Char := f.letter.toUpper

/-- The face named by a letter of either case. -/
def ofLetter? (c : Char) : Option Face :=
  all.find? fun f => f.letter == c.toLower

@[simp] theorem ofLetter?_letter (f : Face) : ofLetter? f.letter = some f := by
  cases f <;> decide

@[simp] theorem ofLetter?_capital (f : Face) : ofLetter? f.capital = some f := by
  cases f <;> decide

@[simp] theorem opposite_opposite (f : Face) : f.opposite.opposite = f := by
  cases f <;> rfl

/-- The letters of several faces, one after the other. -/
def letters (fs : List Face) : String := String.ofList (fs.map letter)

/-- Where a face goes under a quarter turn of the whole cube about an axis. The
turn is clockwise or not as seen from the positive end of the axis. -/
def turn : Axis → Bool → Face → Face
  | .x, true, .up => .back
  | .x, true, .back => .down
  | .x, true, .down => .front
  | .x, true, .front => .up
  | .x, false, .up => .front
  | .x, false, .front => .down
  | .x, false, .down => .back
  | .x, false, .back => .up
  | .y, true, .front => .left
  | .y, true, .left => .back
  | .y, true, .back => .right
  | .y, true, .right => .front
  | .y, false, .front => .right
  | .y, false, .right => .back
  | .y, false, .back => .left
  | .y, false, .left => .front
  | .z, true, .up => .right
  | .z, true, .right => .down
  | .z, true, .down => .left
  | .z, true, .left => .up
  | .z, false, .up => .left
  | .z, false, .left => .down
  | .z, false, .down => .right
  | .z, false, .right => .up
  | _, _, f => f

/-- Turning back undoes a quarter turn. -/
@[simp] theorem turn_turn_not (a : Axis) (clockwise : Bool) (f : Face) :
    turn a (!clockwise) (turn a clockwise f) = f := by
  cases a <;> cases clockwise <;> cases f <;> rfl

/-- A direction after one clockwise quarter turn as seen from outside the face
`normal`. -/
def spin (normal direction : Face) : Face :=
  turn normal.axis normal.isPositive direction

/-- The number of clockwise quarter turns, seen from outside the face `normal`,
that take one direction to another. Both directions lie in the plane of the face. -/
def spinsBetween (normal source target : Face) : Nat :=
  if source = target then 0
  else if spin normal source = target then 1
  else if spin normal (spin normal source) = target then 2
  else 3

/-- The direction that counts as "up" on a face: towards the back on the top, towards
the front on the bottom, and towards the top everywhere else. -/
def reference : Face → Face
  | .up => .back
  | .down => .front
  | _ => .up

end Face

end CubeScript
