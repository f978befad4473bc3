import CubeScript.Dialect.Basic
import CubeScript.Table

/-!
# Lexicons

A lexicon is a dialect one can edit: tables of tokens and their meanings, of the turns some
tokens stand for, of shorthands and of placements. `Lexicon.dialect` is the dialect that is
looked up in these tables.

The empty token cannot be read from a text. It may be given a turn or a text, but never a
meaning, so the tables can be filled without looking out for it.
-/

namespace CubeScript

/-- The tables of a dialect for cubes of some size. -/
structure Lexicon where
  size : Size
  /-- The meanings of every token. -/
  tokens : Table String SymbolSet
  /-- The turns of the tokens that mean a turn. -/
  turns : Table String Turn
  /-- The placements of every construct. -/
  placements : Table Symbol (List Placement)
  /-- The texts of the tokens that are shorthands. -/
  shorthands : Table String String
  blanks : List Char
  lineComment : Option String
  blockComment : Option (String × String)

namespace Lexicon

/-- Add a meaning to a token. -/
def addMeaning (l : Lexicon) (token : String) (s : Symbol) : Lexicon :=
  if token = "" then l
  else { l with tokens := l.tokens.update token fun set => (set.getD .empty).insert s }

/-- Let a token mean a turn. -/
def addTurn (l : Lexicon) (token : String) (t : Turn) : Lexicon :=
  { l.addMeaning token .move with turns := l.turns.set token t }

/-- Let a token mean a turn, unless the turn is of layers that cubes of the size do not have. -/
def addTurn? (l : Lexicon) (token : String) (t : Turn) : Except Cube.Fault Lexicon :=
  if t.layers.Within l.size.layers then .ok (l.addTurn token t)
  else .error (.maskOutOfRange t.layers l.size.layers)

/-- Let a construct be written with some placements and no others. -/
def setPlacements (l : Lexicon) (s : Symbol) (ps : List Placement) : Lexicon :=
  { l with placements := l.placements.set s ps }

/-- Let a token abbreviate a text. -/
def addShorthand (l : Lexicon) (token text : String) : Lexicon :=
  { l.addMeaning token .shorthand with shorthands := l.shorthands.set token text }

/-- Forget a token. -/
def eraseToken (l : Lexicon) (token : String) : Lexicon :=
  { l with
    tokens := l.tokens.erase token
    turns := l.turns.erase token
    shorthands := l.shorthands.erase token }

/-- Take a meaning from every token, and forget the tokens that have no other. A construct loses its
placements. -/
def eraseMeaning (l : Lexicon) (s : Symbol) : Lexicon :=
  { l with
    tokens := l.tokens.filterMap fun set =>
      let set := set.erase s
      if set.isEmpty then none else some set
    turns := if s = .move then .empty else l.turns
    shorthands := if s = .shorthand then .empty else l.shorthands
    placements := if s.isConstruct then l.placements.erase s else l.placements }

/-- Let some characters be skipped between tokens and no others. -/
def setBlanks (l : Lexicon) (blanks : List Char) : Lexicon := { l with blanks }

/-- Let line comments begin with a text, or let there be none. -/
def setLineComment (l : Lexicon) (start : Option String) : Lexicon :=
  { l with lineComment := start }

/-- Let block comments stand between two texts, or let there be none. -/
def setBlockComment (l : Lexicon) (delimiters : Option (String × String)) : Lexicon :=
  { l with blockComment := delimiters }

/-- The placements of a construct. -/
def placementsOf (l : Lexicon) (s : Symbol) : List Placement := (l.placements.get? s).getD []

/-- Whether a symbol can be written: a construct with some placement, any other with some token. -/
def supports (l : Lexicon) (s : Symbol) : Bool :=
  if s.isConstruct then !(l.placementsOf s).isEmpty
  else l.tokens.values.any (·.contains s)

/-- The first token that has a meaning. -/
def tokenFor? (l : Lexicon) (s : Symbol) : Option String :=
  (l.tokens.entries.find? fun (_, set) => set.contains s).map Prod.fst

/-- The dialect looked up in the tables. -/
def dialect (l : Lexicon) : Dialect where
  layers := l.size.layers
  symbols token := (l.tokens.get? token).getD .empty
  allows s p := (l.placementsOf s).contains p
  supports := l.supports
  expansion? := l.shorthands.get?
  turn? := l.turns.get?
  keywords := l.tokens.keys
  tokenFor? := l.tokenFor?
  blanks := l.blanks
  lineComment := l.lineComment
  blockComment := l.blockComment

end Lexicon

end CubeScript
