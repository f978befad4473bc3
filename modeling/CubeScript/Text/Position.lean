import CubeScript.Text.Range

/-!
# Lines and columns

Ranges count bytes. For a reader they are turned into lines and columns, both from zero, the
columns in characters. An offset past the end of the text stands for its end. An offset that
cuts a character in two is in the line of that character and has no column of its own, so it
gets the first one.
-/

namespace CubeScript

/-- A place in a text, by line and column. -/
structure Position where
  line : Nat
  column : Nat
  deriving DecidableEq, Repr, Inhabited

/-- A stretch of a text between two positions, both included. -/
structure Span where
  start : Position
  stop : Position
  deriving DecidableEq, Repr

namespace Position

/-- The position after some characters, from the position before them. The characters take the
bytes from `here` on, and those that begin at `offset` or later are not looked at. -/
def walk (offset : Nat) : List Char → (here : Nat) → Position → Position
  | [], here, p => if here = offset then p else { p with column := 0 }
  | c :: cs, here, p =>
    if offset ≤ here then
      if here = offset then p else { p with column := 0 }
    else
      walk offset cs (here + c.utf8Size)
        (if c = '\n' then ⟨p.line + 1, 0⟩ else ⟨p.line, p.column + 1⟩)

/-- The position of a byte of a text. -/
def ofOffset (text : String) (offset : Nat) : Position :=
  walk (min offset text.utf8ByteSize) text.toList 0 ⟨0, 0⟩

end Position

namespace Span

/-- The lines and columns of a range of a text. -/
def ofRange (text : String) (range : Range) : Span :=
  ⟨.ofOffset text range.start, .ofOffset text range.stop⟩

/-- Whether a position is inside a span. Columns only count on the first and last line. -/
def contains (span : Span) (p : Position) : Bool :=
  if p.line < span.start.line ∨ span.stop.line < p.line then false
  else if p.line = span.start.line ∧ p.column < span.start.column then false
  else if p.line = span.stop.line ∧ span.stop.column < p.column then false
  else true

end Span

end CubeScript
