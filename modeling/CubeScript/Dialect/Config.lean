import CubeScript.Dialect.Standard

/-!
# Configured dialects

A configuration describes a dialect by how it differs from the standard one. It names symbols and
placements by their names, so reading it can fail: `Lexicon.ofConfig` reports the first thing that
is wrong, in the order in which the parts of a configuration are taken up.
-/

namespace CubeScript

/-- A turn as it is given in a configuration. -/
structure Config.TurnEntry where
  axis : Nat
  layers : LayerMask
  quarters : Int
  deriving DecidableEq, Repr

/-- The changes that make another dialect out of the standard one. -/
structure Config where
  layers : Nat := 0
  /-- Tokens to forget before others are added. -/
  removed : List String := []
  /-- More meanings of tokens, by the names of the symbols. -/
  tokens : Table String (List String) := .empty
  turns : Table String Config.TurnEntry := .empty
  /-- The placements of constructs, by their names. -/
  placements : Table String (List String) := .empty
  shorthands : Table String String := .empty
  blanks : Option String := none
  lineComment : Option String := none
  blockComment : Option (String × String) := none

/-- Why a turn cannot be added to a dialect. -/
inductive Config.TurnFault where
  | turn (fault : Turn.Fault)
  | cube (fault : Cube.Fault)
  deriving DecidableEq, Repr

/-- Why a configuration describes no dialect. -/
inductive Config.Fault where
  | cube (fault : Cube.Fault)
  | turn (token : String) (fault : Config.TurnFault)
  | unknownSymbol (name : String)
  | unknownPlacement (name : String)
  deriving DecidableEq, Repr

namespace Config

/-- The wording of a fault. -/
def TurnFault.message : TurnFault → String
  | .turn fault => fault.message
  | .cube fault => fault.message

/-- The wording of a fault. -/
def Fault.message : Fault → String
  | .cube fault => fault.message
  | .turn token fault => s!"invalid move '{token}': {fault.message}"
  | .unknownSymbol name => s!"unknown symbol '{name}'"
  | .unknownPlacement name => s!"unknown syntax '{name}'"

end Config

namespace Lexicon

/-- Let a token mean the turn with the given axis, layers and quarter turns. -/
def makeTurn? (l : Lexicon) (token : String) (axis : Nat) (layers : LayerMask) (quarters : Int) :
    Except Config.TurnFault Lexicon :=
  match Turn.make axis layers quarters with
  | .error fault => .error (.turn fault)
  | .ok t => (l.addTurn? token t).mapError .cube

/-- Add the meanings with given names to a token. -/
def addNamed? (l : Lexicon) (token : String) (names : List String) : Except Config.Fault Lexicon :=
  names.foldlM (fun l name =>
    match Symbol.ofName? name with
    | some s => .ok (l.addMeaning token s)
    | none => .error (.unknownSymbol name)) l

/-- The placements with given names. -/
def placementsNamed? (names : List String) : Except Config.Fault (List Placement) :=
  names.mapM fun name =>
    match Placement.ofName? name with
    | some p => .ok p
    | none => .error (.unknownPlacement name)

/-- Let the construct with a given name be written with the placements of given names. -/
def setNamed? (l : Lexicon) (construct : String) (names : List String) :
    Except Config.Fault Lexicon :=
  match (Symbol.ofName? construct).filter Symbol.isConstruct with
  | none => .error (.unknownSymbol construct)
  | some s => return l.setPlacements s (← placementsNamed? names)

/-- The dialect that a configuration describes. -/
def ofConfig (config : Config) : Except Config.Fault Lexicon := do
  let size ← (Size.ofNat? config.layers).mapError .cube
  let l := config.removed.foldl eraseToken (standard size)
  let l ← config.tokens.entries.foldlM (fun l (token, names) => l.addNamed? token names) l
  let l ← config.turns.entries.foldlM (fun l (token, entry) =>
    (l.makeTurn? token entry.axis entry.layers entry.quarters).mapError (.turn token)) l
  let l ← config.placements.entries.foldlM (fun l (construct, names) =>
    l.setNamed? construct names) l
  let l := config.shorthands.entries.foldl (fun l (token, text) => l.addShorthand token text) l
  let l := match config.blanks with
    | some blanks => l.setBlanks blanks.toList
    | none => l
  let l := match config.lineComment with
    | some start => l.setLineComment (if start = "" then none else some start)
    | none => l
  let l := match config.blockComment with
    | some delimiters => l.setBlockComment (some delimiters)
    | none => l
  return l

end Lexicon

end CubeScript
