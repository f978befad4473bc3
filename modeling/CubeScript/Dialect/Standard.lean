import CubeScript.Dialect.Lexicon

/-!
# The standard dialect

In the standard dialect a turn is named by the capital letter of a face, with letters and digits
before it that tell which layers turn, counted from that face, and a mark behind it for the
angle. Every face has the same turns.

| token | layers |
|---|---|
| `R` | the outer one |
| `SR` | both outer ones |
| `CR` | all |
| `MR` | all inner ones |
| `TR` | the first two |
| `WR` | all but the last |
| `T3R` | the first three |
| `N3R` | the third |

The constructs are `(A)`, `A'`, `A~`, `A3`, `3*A`, `[A,B]`, `[A:B]`, `<A>B` and cycles of pieces
such as `(+ubr,bdr)`. A dot does nothing. Comments are `// …` and `/* … */`.
-/

namespace CubeScript

namespace Lexicon

/-- What the marks and brackets of the standard dialect mean. -/
def standardMarks : List (String × List Symbol) :=
  [(".", [.nop]),
    ("(", [.groupingBegin, .permutationBegin]),
    (")", [.groupingEnd, .permutationEnd]),
    (",", [.commutationDelimiter, .permutationDelimiter]),
    ("[", [.commutationBegin, .conjugationBegin]),
    ("]", [.commutationEnd, .conjugationEnd]),
    (":", [.conjugationDelimiter]),
    ("<", [.rotationBegin]),
    (">", [.rotationEnd]),
    ("'", [.inversionOperator]),
    ("~", [.reflectionOperator]),
    ("*", [.repetitionOperator]),
    ("+", [.permutationPlus]),
    ("-", [.permutationMinus]),
    ("++", [.permutationPlusPlus])]

/-- Where the constructs of the standard dialect have their marks. -/
def standardPlacements : List (Symbol × List Placement) :=
  [(.construct .grouping, [.around]),
    (.construct .inversion, [.after]),
    (.construct .reflection, [.after]),
    (.construct .repetition, [.after, .betweenLeft]),
    (.construct .commutation, [.around]),
    (.construct .conjugation, [.around]),
    (.construct .rotation, [.aroundFirst]),
    (.construct .permutation, [.aroundFirst])]

/-- The marks of angles, for the faces on the positive ends of the axes. -/
def standardAngles : List (String × Angle) :=
  [("", .quarter), ("'", .quarterBack), ("2", .half), ("2'", .halfBack)]

/-- The numbers from `first` up to but not including `stop`. -/
def numbersBetween (first stop : Nat) : List Nat :=
  (List.range (stop - first)).map (first + ·)

/-- The ways to choose layers on a cube of `n` layers: what is written before the face, and the
layers, where the one at the face has number one. -/
def standardDepths (n : Nat) : List (String × List Nat) :=
  [("", [1]), ("S", [1, n]), ("C", numbersBetween 1 (n + 1))] ++
  (if 3 ≤ n then [("M", numbersBetween 2 n), ("T", [1, 2]), ("W", numbersBetween 1 n)] else []) ++
  (numbersBetween 1 n).map (fun k => (s!"T{k}", numbersBetween 1 (k + 1))) ++
  (numbersBetween 1 (n + 1)).map (fun k => (s!"N{k}", [k]))

/-- The layer at some depth below a face, counted from the negative face of the axis. -/
def layerAtDepth (n : Nat) (face : Face) (depth : Nat) : Nat :=
  if face.isPositive then n - depth else depth - 1

/-- The mask of the layers at some depths below a face. -/
def maskOfDepths (n : Nat) (face : Face) (depths : List Nat) : LayerMask :=
  depths.foldl (fun mask depth => mask ||| BitVec.twoPow 32 (layerAtDepth n face depth)) 0

/-- The turns of the standard dialect that are named after a face. -/
def standardTurns (n : Nat) (face : Face) : List (String × Turn) :=
  (standardDepths n).flatMap fun (before, depths) =>
    standardAngles.map fun (after, angle) =>
      (s!"{before}{face.capital}{after}",
        { axis := face.axis
          layers := maskOfDepths n face depths
          angle := if face.isPositive then angle else angle.inverse })

/-- A lexicon without tokens. -/
def blank (size : Size) : Lexicon where
  size := size
  tokens := .empty
  turns := .empty
  placements := .ofList standardPlacements
  shorthands := .empty
  blanks := Dialect.defaultBlanks
  lineComment := some "//"
  blockComment := some ("/*", "*/")

/-- Add several meanings to a token. -/
def addMeanings (l : Lexicon) (token : String) (symbols : List Symbol) : Lexicon :=
  symbols.foldl (fun l s => l.addMeaning token s) l

/-- Add the letters and the turns of a face. -/
def addFace (l : Lexicon) (face : Face) : Lexicon :=
  let l := l.addMeaning face.letter.toString (.face face)
  let l := l.addMeaning face.capital.toString (.face face)
  (standardTurns l.size.layers face).foldl (fun l (token, t) => l.addTurn token t) l

/-- The standard dialect for cubes of some size. -/
def standard (size : Size) : Lexicon :=
  let l := standardMarks.foldl (fun l (token, symbols) => l.addMeanings token symbols) (blank size)
  Face.all.foldl addFace l

end Lexicon

end CubeScript
