/-!
# Codes and contexts of problems

A problem with a script has a code, for programs to tell problems apart, and is described by what
was being read when it turned up.
-/

namespace CubeScript

namespace Diagnostic

/-- The kinds of problems a script can have. -/
inductive Code where
  | unexpectedToken
  | unexpectedEnd
  | numberOutOfRange
  | unclosed
  | missingOperand
  | nestedTooDeeply
  | ambiguous
  | illegalSign
  | repeatedPart
  | mixedKinds
  | noSuchPart
  | numberNotAllowed
  | secondSign
  | shorthandBody
  | shorthandTooDeep
  deriving DecidableEq, Repr, Inhabited

/-- The groups that codes fall into. -/
inductive Category where
  | token
  | structural
  | ambiguity
  | permutation
  | shorthand
  deriving DecidableEq, Repr

/-- The description of a group. -/
def Category.description : Category → String
  | .token => "token error"
  | .structural => "structural error"
  | .ambiguity => "ambiguity error"
  | .permutation => "permutation error"
  | .shorthand => "macro error"

namespace Code

/-- All codes. -/
def all : List Code :=
  [.unexpectedToken, .unexpectedEnd, .numberOutOfRange, .unclosed, .missingOperand,
    .nestedTooDeeply, .ambiguous, .illegalSign, .repeatedPart, .mixedKinds, .noSuchPart,
    .numberNotAllowed, .secondSign, .shorthandBody, .shorthandTooDeep]

/-- The code in writing. -/
def text : Code → String
  | .unexpectedToken => "E0101"
  | .unexpectedEnd => "E0102"
  | .numberOutOfRange => "E0103"
  | .unclosed => "E0201"
  | .missingOperand => "E0202"
  | .nestedTooDeeply => "E0203"
  | .ambiguous => "E0301"
  | .illegalSign => "E0401"
  | .repeatedPart => "E0402"
  | .mixedKinds => "E0403"
  | .noSuchPart => "E0404"
  | .numberNotAllowed => "E0405"
  | .secondSign => "E0406"
  | .shorthandBody => "E0501"
  | .shorthandTooDeep => "E0502"

instance : ToString Code := ⟨text⟩

/-- The code that is written in a given way. -/
def ofText? (s : String) : Option Code := all.find? fun code => code.text == s

/-- The group of a code. -/
def category : Code → Category
  | .unexpectedToken | .unexpectedEnd | .numberOutOfRange => .token
  | .unclosed | .missingOperand | .nestedTooDeeply => .structural
  | .ambiguous => .ambiguity
  | .illegalSign | .repeatedPart | .mixedKinds | .noSuchPart | .numberNotAllowed
  | .secondSign => .permutation
  | .shorthandBody | .shorthandTooDeep => .shorthand

/-- What a code means, in general words. -/
def summary : Code → String
  | .unexpectedToken => "unexpected token"
  | .unexpectedEnd => "unexpected end of input"
  | .numberOutOfRange => "number out of range"
  | .unclosed => "unclosed construct"
  | .missingOperand => "missing operand"
  | .nestedTooDeeply => "statements nested too deeply"
  | .ambiguous => "ambiguous statement"
  | .illegalSign => "illegal permutation sign"
  | .repeatedPart => "duplicate permutation item"
  | .mixedKinds => "mixed part types in permutation"
  | .noSuchPart => "faces do not name a part"
  | .numberNotAllowed => "part number not allowed"
  | .secondSign => "more than one permutation sign"
  | .shorthandBody => "error in macro"
  | .shorthandTooDeep => "macros nested too deeply"

/-- Whether a code is about a construct that is left open or incomplete. -/
def isStructural (c : Code) : Bool := c.category = .structural

/-- Whether a code is about a cycle of pieces. -/
def isPermutation (c : Code) : Bool := c.category = .permutation

end Code

/-- What was being read when a problem turned up. -/
inductive Context where
  | script
  | grouping
  | commutation
  | conjugation
  | rotation
  /-- Brackets of which it is not known yet what they enclose. -/
  | compound
  | permutation
  | operand
  | shorthand
  deriving DecidableEq, Repr, Inhabited

namespace Context

/-- Where a problem turned up. -/
def description : Context → String
  | .script => "at top level"
  | .grouping => "in grouping"
  | .commutation => "in commutation"
  | .conjugation => "in conjugation"
  | .rotation => "in rotation"
  | .compound => "in bracketed statement"
  | .permutation => "in permutation cycle"
  | .operand => "in operand"
  | .shorthand => "in macro"

/-- What could have stood there instead. -/
def expected : Context → String
  | .script | .shorthand | .operand => "a move, macro or bracketed statement"
  | .grouping | .compound => "a statement, delimiter or closing bracket"
  | .commutation | .conjugation | .rotation => "a statement or the closing bracket"
  | .permutation => "a face, part number, sign, ',' or the closing bracket"

end Context

end Diagnostic

end CubeScript
