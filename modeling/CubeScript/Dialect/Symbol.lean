import CubeScript.Cube.Face
import CubeScript.Cycle

/-!
# Symbols

A symbol is one meaning a token can have, whatever the token looks like. Most symbols are the
meaning of a bracket, a delimiter or an operator of some construct. The constructs themselves
are symbols too, so that they can be given placements.

Symbols have a rank. Where several of them compete, the one of the lowest rank is tried first,
and `Symbol.all` lists them by rank.
-/

namespace CubeScript

/-- The ways to build a statement out of others, and the cycles of pieces. -/
inductive Construct where
  | grouping
  | inversion
  | reflection
  | repetition
  | commutation
  | conjugation
  | rotation
  | permutation
  deriving DecidableEq, Repr, Inhabited

/-- One meaning of a token. -/
inductive Symbol where
  | nop
  | move
  | shorthand
  | groupingBegin
  | groupingEnd
  | inversionBegin
  | inversionEnd
  | inversionOperator
  | reflectionBegin
  | reflectionEnd
  | reflectionOperator
  | repetitionOperator
  | commutationBegin
  | commutationEnd
  | commutationDelimiter
  | conjugationBegin
  | conjugationEnd
  | conjugationDelimiter
  | rotationBegin
  | rotationEnd
  | rotationDelimiter
  | permutationBegin
  | permutationEnd
  | permutationDelimiter
  | permutationPlus
  | permutationMinus
  | permutationPlusPlus
  | face (f : Face)
  | construct (c : Construct)
  deriving DecidableEq, Repr, Inhabited

namespace Construct

/-- All constructs by rank. -/
def all : List Construct :=
  [.grouping, .inversion, .reflection, .repetition, .commutation, .conjugation, .rotation,
    .permutation]

/-- The constructs that put statements between brackets. -/
def compounds : List Construct :=
  [.grouping, .inversion, .reflection, .commutation, .conjugation, .rotation]

/-- Whether a construct has two operands. -/
def isBinary : Construct → Bool
  | .commutation | .conjugation | .rotation => true
  | _ => false

/-- The constructs that have two operands. -/
def binaries : List Construct := [.commutation, .conjugation, .rotation]

/-- The opening bracket of a construct. -/
def begin? : Construct → Option Symbol
  | .grouping => some .groupingBegin
  | .inversion => some .inversionBegin
  | .reflection => some .reflectionBegin
  | .repetition => none
  | .commutation => some .commutationBegin
  | .conjugation => some .conjugationBegin
  | .rotation => some .rotationBegin
  | .permutation => some .permutationBegin

/-- The closing bracket of a construct. -/
def end? : Construct → Option Symbol
  | .grouping => some .groupingEnd
  | .inversion => some .inversionEnd
  | .reflection => some .reflectionEnd
  | .repetition => none
  | .commutation => some .commutationEnd
  | .conjugation => some .conjugationEnd
  | .rotation => some .rotationEnd
  | .permutation => some .permutationEnd

/-- What stands between the operands of a construct, or between the items of a cycle. -/
def delimiter? : Construct → Option Symbol
  | .commutation => some .commutationDelimiter
  | .conjugation => some .conjugationDelimiter
  | .rotation => some .rotationDelimiter
  | .permutation => some .permutationDelimiter
  | _ => none

/-- What stands before or after the operand of a construct. -/
def operator? : Construct → Option Symbol
  | .inversion => some .inversionOperator
  | .reflection => some .reflectionOperator
  | .repetition => some .repetitionOperator
  | _ => none

/-- The English name of a construct. -/
def name : Construct → String
  | .grouping => "grouping"
  | .inversion => "inversion"
  | .reflection => "reflection"
  | .repetition => "repetition"
  | .commutation => "commutation"
  | .conjugation => "conjugation"
  | .rotation => "rotation"
  | .permutation => "permutation"

/-- The position of a construct among the constructs. -/
def index : Construct → Nat
  | .grouping => 0
  | .inversion => 1
  | .reflection => 2
  | .repetition => 3
  | .commutation => 4
  | .conjugation => 5
  | .rotation => 6
  | .permutation => 7

/-- The names of some constructs, for a message that leaves the choice open. -/
def oneOf (cs : List Construct) : String := " or ".intercalate (cs.map name)

end Construct

namespace Symbol

/-- All symbols by rank. -/
def all : List Symbol :=
  [.nop, .move, .shorthand, .groupingBegin, .groupingEnd, .inversionBegin, .inversionEnd,
    .inversionOperator, .reflectionBegin, .reflectionEnd, .reflectionOperator,
    .repetitionOperator, .commutationBegin, .commutationEnd, .commutationDelimiter,
    .conjugationBegin, .conjugationEnd, .conjugationDelimiter, .rotationBegin, .rotationEnd,
    .rotationDelimiter, .permutationBegin, .permutationEnd, .permutationDelimiter,
    .permutationPlus, .permutationMinus, .permutationPlusPlus] ++
  Face.all.map .face ++ Construct.all.map .construct

/-- The position of a symbol among all symbols. -/
def rank : Symbol → Nat
  | .nop => 0
  | .move => 1
  | .shorthand => 2
  | .groupingBegin => 3
  | .groupingEnd => 4
  | .inversionBegin => 5
  | .inversionEnd => 6
  | .inversionOperator => 7
  | .reflectionBegin => 8
  | .reflectionEnd => 9
  | .reflectionOperator => 10
  | .repetitionOperator => 11
  | .commutationBegin => 12
  | .commutationEnd => 13
  | .commutationDelimiter => 14
  | .conjugationBegin => 15
  | .conjugationEnd => 16
  | .conjugationDelimiter => 17
  | .rotationBegin => 18
  | .rotationEnd => 19
  | .rotationDelimiter => 20
  | .permutationBegin => 21
  | .permutationEnd => 22
  | .permutationDelimiter => 23
  | .permutationPlus => 24
  | .permutationMinus => 25
  | .permutationPlusPlus => 26
  | .face f => 27 + f.index
  | .construct c => 33 + c.index

/-- The name of a symbol. -/
def name : Symbol → String
  | .nop => "nop"
  | .move => "move"
  | .shorthand => "macro"
  | .groupingBegin => "grouping_begin"
  | .groupingEnd => "grouping_end"
  | .inversionBegin => "inversion_begin"
  | .inversionEnd => "inversion_end"
  | .inversionOperator => "inversion_operator"
  | .reflectionBegin => "reflection_begin"
  | .reflectionEnd => "reflection_end"
  | .reflectionOperator => "reflection_operator"
  | .repetitionOperator => "repetition_operator"
  | .commutationBegin => "commutation_begin"
  | .commutationEnd => "commutation_end"
  | .commutationDelimiter => "commutation_delimiter"
  | .conjugationBegin => "conjugation_begin"
  | .conjugationEnd => "conjugation_end"
  | .conjugationDelimiter => "conjugation_delimiter"
  | .rotationBegin => "rotation_begin"
  | .rotationEnd => "rotation_end"
  | .rotationDelimiter => "rotation_delimiter"
  | .permutationBegin => "permutation_begin"
  | .permutationEnd => "permutation_end"
  | .permutationDelimiter => "permutation_delimiter"
  | .permutationPlus => "permutation_plus"
  | .permutationMinus => "permutation_minus"
  | .permutationPlusPlus => "permutation_plusplus"
  | .face f => "face_" ++ Face.letters [f]
  | .construct c => c.name

/-- The symbol with a given name. -/
def ofName? (s : String) : Option Symbol := all.find? fun symbol => symbol.name == s

theorem all_getElem?_rank (s : Symbol) : all[s.rank]? = some s := by
  cases s with
  | face f => cases f <;> rfl
  | construct c => cases c <;> rfl
  | _ => rfl

theorem rank_lt (s : Symbol) : s.rank < 41 := by
  cases s with
  | face f => cases f <;> decide
  | construct c => cases c <;> decide
  | _ => decide

theorem mem_all (s : Symbol) : s ∈ all := List.mem_of_getElem? (all_getElem?_rank s)

@[simp] theorem rank_inj {s t : Symbol} : s.rank = t.rank ↔ s = t := by
  constructor
  · intro h
    have hs := all_getElem?_rank s
    rw [h, all_getElem?_rank t] at hs
    exact (Option.some.inj hs).symm
  · rintro rfl
    rfl

/-- Every number below that of all symbols is the rank of one. -/
theorem exists_rank_eq {i : Nat} (h : i < 41) : ∃ s : Symbol, s.rank = i := by
  have : ∀ i : Fin 41, ∃ s ∈ all, s.rank = i := by decide
  obtain ⟨s, _, hs⟩ := this ⟨i, h⟩
  exact ⟨s, hs⟩

/-- Whether a symbol is a construct. -/
def isConstruct : Symbol → Bool
  | .construct _ => true
  | _ => false

/-- The construct that a symbol is. -/
def construct? : Symbol → Option Construct
  | .construct c => some c
  | _ => none

/-- The face that a symbol stands for in a cycle. -/
def face? : Symbol → Option Face
  | .face f => some f
  | _ => none

end Symbol

/-- Where the tokens of a construct stand. -/
inductive Placement where
  /-- A token on its own. -/
  | alone
  /-- An operator before its operand. -/
  | before
  /-- An operator after its operand. -/
  | after
  /-- Brackets around the operand, or around two operands with a delimiter in between. -/
  | around
  /-- Brackets around the first of two operands. -/
  | aroundFirst
  /-- Brackets around the second of two operands. -/
  | aroundSecond
  /-- A count, an operator and the operand, or a delimiter between two operands. -/
  | betweenLeft
  /-- The operand, an operator and a count, or a delimiter between two operands. -/
  | betweenRight
  deriving DecidableEq, Repr, Inhabited

namespace Placement

/-- All placements. -/
def all : List Placement :=
  [.alone, .before, .after, .around, .aroundFirst, .aroundSecond, .betweenLeft, .betweenRight]

/-- The name of a placement. -/
def name : Placement → String
  | .alone => "primary"
  | .before => "prefix"
  | .after => "suffix"
  | .around => "circumfix"
  | .aroundFirst => "precircumfix"
  | .aroundSecond => "postcircumfix"
  | .betweenLeft => "preinfix"
  | .betweenRight => "postinfix"

/-- The placement with a given name. -/
def ofName? (s : String) : Option Placement := all.find? fun p => p.name == s

@[simp] theorem ofName?_name (p : Placement) : ofName? p.name = some p := by
  cases p <;> decide

end Placement

end CubeScript
