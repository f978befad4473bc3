import CubeScript.Proofs.Script.Layout

/-!
# Outlines of statements

The outline of a statement is what is left of it when ranges do not matter. If some wrappers are not
to be told apart either, a function says as what each of them is seen. Two statements are alike if
they have the same outline.

Statements that only differ in their ranges are laid out as the same nodes, again up to the ranges
(`Script.contents_ofStatements`). A shorthand does what brackets around its text would do, so
statements that only differ in where shorthands are spelt out stand for the same
(`Statement.meanings_eq_of_alike`).
-/

namespace CubeScript

/-- A wrapper as it is seen if shorthands are spelt out between brackets. -/
def Wrapper.speltOut : Wrapper → Wrapper
  | .shorthand _ => .grouping
  | w => w

namespace Statement

mutual

/-- A statement without ranges, with its wrappers as they are seen. -/
def outline (seen : Wrapper → Wrapper) : Statement → Statement
  | .atom a _ => .atom a ⟨0, 0⟩
  | .wrapped w body _ => .wrapped (seen w) (outlines seen body) ⟨0, 0⟩
  | .paired p first second _ => .paired p (outlines seen first) (outlines seen second) ⟨0, 0⟩

/-- Statements without ranges, with their wrappers as they are seen. -/
def outlines (seen : Wrapper → Wrapper) : List Statement → List Statement
  | [] => []
  | s :: statements => outline seen s :: outlines seen statements

end

/-- Whether two statements have the same outline. -/
def Alike (seen : Wrapper → Wrapper) (s t : Statement) : Prop := s.outline seen = t.outline seen

/-- Whether statements have the same outlines, one by one. -/
def AllAlike (seen : Wrapper → Wrapper) (ss ts : List Statement) : Prop :=
  outlines seen ss = outlines seen ts

section

variable {seen : Wrapper → Wrapper}

theorem Alike.atom (a : Atom) (range other : Range) :
    Alike seen (.atom a range) (.atom a other) := by
  rw [Alike, outline, outline]

theorem Alike.wrapped {v w : Wrapper} (same : seen v = seen w) {body other : List Statement}
    (inside : AllAlike seen body other) (range place : Range) :
    Alike seen (.wrapped v body range) (.wrapped w other place) := by
  rw [Alike, outline, outline, same, inside]

theorem Alike.paired (p : Pairing) {first second left right : List Statement}
    (ofFirst : AllAlike seen first left) (ofSecond : AllAlike seen second right)
    (range place : Range) :
    Alike seen (.paired p first second range) (.paired p left right place) := by
  rw [Alike, outline, outline, ofFirst, ofSecond]

theorem AllAlike.nil : AllAlike seen [] [] := rfl

theorem AllAlike.cons {s t : Statement} {ss ts : List Statement} (first : Alike seen s t)
    (rest : AllAlike seen ss ts) : AllAlike seen (s :: ss) (t :: ts) := by
  rw [AllAlike, outlines, outlines, first, rest]

theorem AllAlike.singleton {s t : Statement} (one : Alike seen s t) : AllAlike seen [s] [t] :=
  .cons one .nil

/-! ### What outlines stand for -/

variable {layers : Nat}

mutual

theorem meaning_outline (same : ∀ w ms, (seen w).meaning ms = w.meaning ms) (s : Statement) :
    (s.outline seen).meaning layers = s.meaning layers := by
  match s with
  | .atom a range => rw [outline, meaning, meaning]
  | .wrapped w body range =>
    rw [outline, meaning, meaning, meanings_outlines same body, same]
  | .paired p first second range =>
    rw [outline, meaning, meaning, meanings_outlines same first, meanings_outlines same second]

theorem meanings_outlines (same : ∀ w ms, (seen w).meaning ms = w.meaning ms)
    (statements : List Statement) :
    meanings layers (outlines seen statements) = meanings layers statements := by
  match statements with
  | [] => rw [outlines]
  | s :: statements =>
    rw [outlines, meanings, meanings, meaning_outline same s, meanings_outlines same statements]

end

/-- Statements stand for the same if they only differ in where shorthands are spelt out. -/
theorem meanings_eq_of_alike {ss ts : List Statement} (alike : AllAlike Wrapper.speltOut ss ts) :
    meanings layers ss = meanings layers ts := by
  have same (w : Wrapper) (ms : List Meaning) : w.speltOut.meaning ms = w.meaning ms := by
    cases w <;> rfl
  rw [← meanings_outlines same ss, ← meanings_outlines same ts, alike]

end

end Statement

/-! ### Laying out outlines -/

namespace Arena

/-- What the nodes of an arena are, one by one. -/
def contents (arena : Arena) : Array Content := arena.map Node.content

section

variable {arena other : Arena} (same : arena.contents = other.contents)

include same

theorem size_eq_of_contents : arena.size = other.size := by
  have sizes := congrArg Array.size same
  rwa [contents, contents, Array.size_map, Array.size_map] at sizes

theorem contents_add {content again : Content} (equal : content = again) (range place : Range) :
    (arena.add content range).1 = (other.add again place).1 ∧
      (arena.add content range).2.contents = (other.add again place).2.contents := by
  subst equal
  refine ⟨size_eq_of_contents same, ?_⟩
  have pushed (arena : Arena) (range : Range) :
      contents (arena.push ⟨content, range⟩) = arena.contents.push content := Array.map_push
  rw [add, add, pushed, pushed, same]

end

mutual

/-- A statement is laid out like its outline. -/
theorem contents_place (given placed : Option Range) (s : Statement) {arena other : Arena}
    (same : arena.contents = other.contents) :
    (place given s arena).1 = (place placed (s.outline id) other).1 ∧
      (place given s arena).2.contents = (place placed (s.outline id) other).2.contents := by
  match s with
  | .atom a range =>
    rw [Statement.outline]
    exact contents_add same rfl _ _
  | .wrapped w body range =>
    rw [Statement.outline]
    obtain ⟨ids, inside⟩ := contents_placeAll _ _ body same
    exact contents_add inside (congrArg (Content.group (.wrapper w)) ids) _ _
  | .paired p first second range =>
    rw [Statement.outline]
    obtain ⟨firstIds, afterFirst⟩ := contents_placeAll given placed first same
    obtain ⟨secondIds, afterSecond⟩ := contents_placeAll given placed second afterFirst
    obtain ⟨one, afterOne⟩ := contents_add afterSecond
      (congrArg (Content.group .sequence) firstIds) _ _
    obtain ⟨two, afterTwo⟩ := contents_add afterOne
      (congrArg (Content.group .sequence) secondIds) _ _
    exact contents_add afterTwo
      (congrArg₂ (fun a b => Content.group (.pairing p) [a, b]) one two) _ _

theorem contents_placeAll (given placed : Option Range) (statements : List Statement)
    {arena other : Arena} (same : arena.contents = other.contents) :
    (placeAll given statements arena).1 =
        (placeAll placed (Statement.outlines id statements) other).1 ∧
      (placeAll given statements arena).2.contents =
        (placeAll placed (Statement.outlines id statements) other).2.contents := by
  match statements with
  | [] =>
    rw [Statement.outlines]
    exact ⟨rfl, same⟩
  | s :: statements =>
    rw [Statement.outlines]
    obtain ⟨first, afterFirst⟩ := contents_place given placed s same
    obtain ⟨rest, afterRest⟩ := contents_placeAll given placed statements afterFirst
    exact ⟨congrArg₂ List.cons first rest, afterRest⟩

end

end Arena

namespace Script

/-- Statements that only differ in their ranges make scripts that only differ in their ranges. -/
theorem contents_ofStatements {ss ts : List Statement} (alike : Statement.AllAlike id ss ts)
    (length other layers : Nat) :
    (ofStatements ss length layers).root = (ofStatements ts other layers).root ∧
      (ofStatements ss length layers).nodes.contents =
        (ofStatements ts other layers).nodes.contents := by
  have empty : Arena.contents #[] = Arena.contents #[] := rfl
  obtain ⟨ids, nodes⟩ := Arena.contents_placeAll none none ss empty
  obtain ⟨otherIds, otherNodes⟩ := Arena.contents_placeAll none none ts empty
  rw [alike] at ids nodes
  exact Arena.contents_add (nodes.trans otherNodes.symm)
    (congrArg (Content.group .sequence) (ids.trans otherIds.symm)) _ _

end Script

end CubeScript
