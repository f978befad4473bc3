import CubeScript.Dialect.Config
import CubeScript.Json.Reader

/-!
# Configurations written in JSON

A configuration is written as a record. All its fields may be left out. Where a text assigns
something to the same token or construct twice, the place of the first and the value of the second
count. A text that is no configuration is refused without giving a reason.
-/

namespace CubeScript

namespace Config

/-- The names of the fields of a turn, in their order. -/
def turnFields : List String := ["axis", "layer_mask", "angle"]

/-- The turn that a record describes. No field may be missing. -/
def turnOfJson? (j : Json) : Option TurnEntry := do
  match ← j.fields? turnFields with
  | [some axis, some layers, some quarters] =>
    let axis ← axis.nat? 64
    let layers ← layers.nat? 32
    let quarters ← quarters.intBetween? (-0x80000000) 0x7FFFFFFF
    return ⟨axis, BitVec.ofNat 32 layers, quarters⟩
  | _ => none

/-- The two texts of an array. -/
def pairOfJson? (j : Json) : Option (String × String) := do
  match ← j.array? with
  | [first, second] => return (← first.string?, ← second.string?)
  | _ => none

/-- The table that an object describes, its values read in some way. -/
def tableOfJson? {α : Type} (read : Json → Option α) (j : Json) : Option (Table String α) := do
  return .ofList (← j.membersOf? read)

/-- The value of a field that may be left out. -/
def fieldOr {α : Type} (read : Json → Option α) (default : α) : Option Json → Option α
  | none => some default
  | some j => read j

/-- The names of the fields of a configuration, in their order. -/
def configFields : List String :=
  ["layer_count", "remove_tokens", "tokens", "moves", "syntax", "macros", "whitespace",
    "line_comment", "block_comment"]

/-- The configuration that a record describes. -/
def ofJson? (j : Json) : Option Config := do
  match ← j.fields? configFields with
  | [layers, removed, tokens, turns, placements, shorthands, blanks, lineComment, blockComment] =>
    return {
      layers := ← fieldOr (Json.nat? 64) 0 layers
      removed := ← fieldOr (Json.listOf? Json.string?) [] removed
      tokens := ← fieldOr (tableOfJson? (Json.listOf? Json.string?)) .empty tokens
      turns := ← fieldOr (tableOfJson? turnOfJson?) .empty turns
      placements := ← fieldOr (tableOfJson? (Json.listOf? Json.string?)) .empty placements
      shorthands := ← fieldOr (tableOfJson? Json.string?) .empty shorthands
      blanks := ← fieldOr (Json.nullable? Json.string?) none blanks
      lineComment := ← fieldOr (Json.nullable? Json.string?) none lineComment
      blockComment := ← fieldOr (Json.nullable? pairOfJson?) none blockComment }
  | _ => none

/-- The configuration that a text describes. -/
def read? (text : String) : Option Config := do ofJson? (← Json.read? text)

end Config

end CubeScript
