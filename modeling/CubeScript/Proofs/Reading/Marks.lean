import CubeScript.Proofs.Dialect.Standard
import CubeScript.Reading.Statement

/-!
# What readers make of standard tokens

A reader asks a dialect many questions about a token: how a statement may begin with it, what it
makes of the statement before it, which brackets it closes. In the standard dialect each has a short
answer that only depends on the lexeme of the token, and the answers are given here.
-/

namespace CubeScript

open Lexeme (mark)

namespace Lexeme

/-- The ways in which a statement may begin with a lexeme of the standard dialect. -/
def starts (size : Size) (l : Lexeme) : List Start :=
  if l.kind = .number then [.repetition]
  else if l = mark "." then [.nop]
  else if l = mark "(" then [.compound [.grouping], .cycle]
  else if l = mark "[" then [.compound [.commutation, .conjugation]]
  else if l = mark "<" then [.compound [.rotation]]
  else if l.kind = .keyword ∧ (Lexicon.standardTurn? size l.text).isSome then [.turn]
  else []

/-- Whether a lexeme is one that a statement begins with in some way. -/
inductive Begins (size : Size) (l : Lexeme) : Start → Prop where
  | count (number : l.kind = .number) : Begins size l .repetition
  | nop (dot : l = mark ".") : Begins size l .nop
  | group (opens : l = mark "(") : Begins size l (.compound [.grouping])
  | cycle (opens : l = mark "(") : Begins size l .cycle
  | square (opens : l = mark "[") : Begins size l (.compound [.commutation, .conjugation])
  | angle (opens : l = mark "<") : Begins size l (.compound [.rotation])
  | turn {turn : Turn} (keyword : l.kind = .keyword)
    (known : Lexicon.standardTurn? size l.text = some turn) : Begins size l .turn

@[simp] theorem starts_dot (size : Size) : (mark ".").starts size = [.nop] := by
  simp [starts, mark]

@[simp] theorem starts_parenthesis (size : Size) :
    (mark "(").starts size = [.compound [.grouping], .cycle] := by
  simp [starts, mark]

@[simp] theorem starts_square (size : Size) :
    (mark "[").starts size = [.compound [.commutation, .conjugation]] := by
  simp [starts, mark]

@[simp] theorem starts_angle (size : Size) :
    (mark "<").starts size = [.compound [.rotation]] := by
  simp [starts, mark]

theorem starts_turn {size : Size} {name : String} {turn : Turn}
    (known : Lexicon.standardTurn? size name = some turn) : (mark name).starts size = [.turn] := by
  have other : ∀ w ∈ Lexicon.standardMarks.map Prod.fst, name ≠ w := by
    rintro w isMark rfl
    rw [Lexicon.standardTurn?_mark isMark] at known
    cases known
  have dot := other "." (by decide)
  have round := other "(" (by decide)
  have square := other "[" (by decide)
  have angled := other "<" (by decide)
  simp [starts, mark, known, dot, round, square, angled]

theorem begins_of_mem_starts {size : Size} {l : Lexeme} {start : Start}
    (member : start ∈ l.starts size) : l.Begins size start := by
  rw [starts] at member
  split at member
  · rename_i number
    obtain rfl := List.mem_singleton.1 member
    exact .count number
  · split at member
    · rename_i dot
      obtain rfl := List.mem_singleton.1 member
      exact .nop dot
    · split at member
      · rename_i opens
        obtain rfl | member := List.mem_cons.1 member
        · exact .group opens
        · obtain rfl := List.mem_singleton.1 member
          exact .cycle opens
      · split at member
        · rename_i opens
          obtain rfl := List.mem_singleton.1 member
          exact .square opens
        · split at member
          · rename_i opens
            obtain rfl := List.mem_singleton.1 member
            exact .angle opens
          · split at member
            · rename_i known
              obtain rfl := List.mem_singleton.1 member
              obtain ⟨turn, found⟩ := Option.isSome_iff_exists.1 known.2
              exact .turn known.1 found
            · cases member

/-- What a lexeme of the standard dialect makes of the statement before it. -/
def behind? (l next : Lexeme) : Option Reader.Behind :=
  if l = mark "'" then some (.wrap .inversion)
  else if l = mark "~" then some (.wrap .reflection)
  else if l.kind = .number then (if next = mark "*" then none else some .count)
  else none

/-- The marks that open brackets. -/
def openers : List String := ["(", "[", "<"]

/-- The marks that end a sequence of statements somewhere. -/
def closers : List String := [")", "]", ",", ":", ">"]

end Lexeme

namespace Dialect

/-- Whether a sequence of statements ends at some marks and nowhere else. -/
def EndsAt (d : Dialect) (stop : SymbolSet) (marks : List String) : Prop :=
  ∀ t : Token, (d.symbolsOf t).intersects stop ↔ ∃ w ∈ marks, t.lexeme = mark w

namespace IsStandard

variable {d : Dialect} {size : Size} (standard : d.IsStandard size)

include standard

theorem opened (t : Token) : d.opened t =
    if t.lexeme = mark "(" then [.grouping]
    else if t.lexeme = mark "[" then [.commutation, .conjugation]
    else if t.lexeme = mark "<" then [.rotation]
    else [] := by
  rw [Dialect.opened, Construct.compounds]
  simp only [List.filter_cons, List.filter_nil]
  simp only [Reader.has, Construct.begin?, Option.any_some, standard.means, Lexeme.means,
    standard.accepts, Construct.placements, Construct.isBinary]
  by_cases round : t.lexeme = mark "("
  · simp [round, Lexeme.mark_inj]
  · by_cases square : t.lexeme = mark "["
    · simp [square, Lexeme.mark_inj]
    · by_cases angled : t.lexeme = mark "<"
      · simp [angled, Lexeme.mark_inj]
      · simp [round, square, angled]

theorem sign? (t : Token) : (d.symbolsOf t).sign? =
    if t.lexeme = mark "++" then some .plusPlus
    else if t.lexeme = mark "+" then some .plus
    else if t.lexeme = mark "-" then some .minus
    else none := by
  simp only [SymbolSet.sign?, standard.means, Lexeme.means, decide_eq_true_eq]

theorem starts (t : Token) : d.starts t = t.lexeme.starts size := by
  have kind : t.lexeme.kind = t.kind := rfl
  have text : t.lexeme.text = t.text := rfl
  rw [Dialect.starts, Lexeme.starts]
  have supported : d.supports (.construct .permutation) = true := by
    have accepted := standard.accepts .permutation .aroundFirst
    rw [Dialect.accepts] at accepted
    exact (Bool.and_eq_true_iff.1 accepted).1
  simp only [kind, text, supported, standard.opened, standard.sign?, standard.turn?,
    standard.means, Lexeme.means, standard.accepts, Construct.placements]
  split
  · rfl
  · have noTurn : ∀ w ∈ Lexicon.standardMarks.map Prod.fst, t.lexeme = mark w →
        Lexicon.standardTurn? size t.text = none := by
      intro w isMark same
      rw [← text, same]
      exact Lexicon.standardTurn?_mark isMark
    by_cases dot : t.lexeme = mark "."
    · simp [dot, noTurn "." (by decide) dot, Lexeme.mark_inj]
    by_cases round : t.lexeme = mark "("
    · simp [round, noTurn "(" (by decide) round, Lexeme.mark_inj]
    by_cases square : t.lexeme = mark "["
    · simp [square, noTurn "[" (by decide) square, Lexeme.mark_inj]
    by_cases angled : t.lexeme = mark "<"
    · simp [angled, noTurn "<" (by decide) angled, Lexeme.mark_inj]
    · simp [dot, round, square, angled]

end IsStandard

/-! ### Brackets -/

namespace IsStandard

theorem endsAt_ofList {d : Dialect} {size : Size} (standard : d.IsStandard size)
    {symbols : List Symbol} {marks : List String}
    (meant : ∀ l : Lexeme, (∃ s ∈ symbols, l.means size s) ↔ ∃ w ∈ marks, l = mark w) :
    d.EndsAt (.ofList symbols) marks := by
  intro t
  rw [SymbolSet.intersects_iff, ← meant]
  simp only [standard.means, SymbolSet.contains_ofList, decide_eq_true_eq]
  exact exists_congr fun s => and_comm

variable {r : Reader} {size : Size} (standard : r.dialect.IsStandard size)

include standard

theorem endsAt_allClosings : r.dialect.EndsAt Reader.allClosings Lexeme.closers := by
  refine standard.endsAt_ofList ?_
  intro l
  simp only [Construct.compounds, Construct.end?, Construct.delimiter?, List.flatMap_cons,
    List.flatMap_nil, Option.toList_some, Option.toList_none, List.cons_append, List.nil_append,
    List.append_nil, List.mem_cons, List.not_mem_nil, or_false, exists_eq_or_imp, exists_eq_left,
    Lexeme.means, Bool.false_eq_true, false_or, decide_eq_true_eq, Lexeme.closers]
  -- some of the marks belong to several constructs
  grind

theorem endsAt_parenthesis : r.dialect.EndsAt (r.firstStops [.grouping]) [")"] := by
  refine standard.endsAt_ofList ?_
  intro l
  simp [Construct.end?, Construct.delimiter?, Lexeme.means, standard.accepts,
    Construct.placements]

theorem endsAt_first : r.dialect.EndsAt (r.firstStops [.commutation, .conjugation])
    ["]", ",", ":"] := by
  refine standard.endsAt_ofList ?_
  intro l
  simp [Construct.end?, Construct.delimiter?, Lexeme.means, standard.accepts,
    Construct.placements, or_left_comm]

theorem endsAt_angle : r.dialect.EndsAt (r.firstStops [.rotation]) [">"] := by
  refine standard.endsAt_ofList ?_
  intro l
  simp [Construct.end?, Construct.delimiter?, Lexeme.means, standard.accepts,
    Construct.placements]

theorem endsAt_second {c : Construct} (square : c = .commutation ∨ c = .conjugation) :
    r.dialect.EndsAt (Reader.closings [c]) ["]"] := by
  refine standard.endsAt_ofList ?_
  intro l
  obtain rfl | rfl := square <;> simp [Construct.end?, Lexeme.means]

theorem endsAt_empty : r.dialect.EndsAt .empty [] := by
  have none : r.dialect.EndsAt (.ofList []) [] := standard.endsAt_ofList fun l => by simp
  exact none

/-- What a token may separate in brackets. -/
theorem delimitedBy (t : Token) : r.delimitedBy t [.commutation, .conjugation] =
    if t.lexeme = mark "," then [.commutation]
    else if t.lexeme = mark ":" then [.conjugation]
    else [] := by
  simp only [Reader.delimitedBy, List.filter_cons, List.filter_nil]
  simp only [Reader.has, Construct.delimiter?, Option.any_some, standard.means, Lexeme.means,
    standard.accepts, Construct.placements, Construct.isBinary]
  by_cases comma : t.lexeme = mark ","
  · simp [comma, Lexeme.mark_inj]
  · simp [comma]

omit standard in
theorem delimitedBy_grouping (t : Token) : r.delimitedBy t [.grouping] = [] := rfl

theorem delimitedBy_rotation (t : Token) : r.delimitedBy t [.rotation] = [] := by
  simp [Reader.delimitedBy, standard.accepts, Construct.placements]

theorem closedBy_grouping (t : Token) : r.closedBy t false [.grouping] =
    if t.lexeme = mark ")" then [.grouping] else [] := by
  simp [Reader.closedBy, List.filter_cons, Reader.has, Construct.end?, standard.means,
    Lexeme.means, standard.accepts, Construct.placements, Construct.isBinary]

theorem closedBy_rotation (t : Token) : r.closedBy t false [.rotation] =
    if t.lexeme = mark ">" then [.rotation] else [] := by
  simp [Reader.closedBy, List.filter_cons, Reader.has, Construct.end?, standard.means,
    Lexeme.means, standard.accepts, Construct.placements, Construct.isBinary]

/-- Square brackets are not closed after one operand. -/
theorem closedBy_first (t : Token) : r.closedBy t false [.commutation, .conjugation] = [] := by
  simp [Reader.closedBy, standard.accepts, Construct.placements, Construct.isBinary]

theorem closedBy_second {c : Construct} (square : c = .commutation ∨ c = .conjugation)
    (t : Token) : r.closedBy t true [c] = if t.lexeme = mark "]" then [c] else [] := by
  obtain rfl | rfl := square <;>
    simp [Reader.closedBy, List.filter_cons, Reader.has, Construct.end?, standard.means,
      Lexeme.means]

/-! ### Behind a statement -/

theorem countsNext (t : Token) : r.countsNext t = decide (t.lexeme = mark "*") := by
  simp [Reader.countsNext, standard.means, Lexeme.means, standard.accepts, Construct.placements]

theorem behind? (t next : Token) : r.behind? t next = t.lexeme.behind? next.lexeme := by
  have opened : r.openedBehind t = [] := by
    simp [Reader.openedBehind, Construct.binaries, standard.accepts, Construct.placements]
  have delimited : r.delimitedBehind t = [] := by
    simp [Reader.delimitedBehind, Construct.binaries, standard.accepts, Construct.placements]
  have kind : t.lexeme.kind = t.kind := rfl
  simp only [Reader.behind?, standard.countsNext, opened, delimited, standard.means,
    Lexeme.means, standard.accepts, Construct.placements, Lexeme.behind?, kind]
  simp

end IsStandard

end Dialect

end CubeScript
