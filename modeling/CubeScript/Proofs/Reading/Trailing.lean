import CubeScript.Proofs.Reading.Acceptance
import CubeScript.Proofs.Reading.Delaying
import CubeScript.Proofs.Text.Trailing

/-!
# Blanks behind a script

A text with blanks behind it has the tokens it has without, so it is refused if it was. What is
reported is what was reported, except where the end of the text matters
(`Reader.read_append_blanks`).
-/

namespace CubeScript

open Lexicon (standardMarks)

/-- A blank is part of no mark, no comment and no word. -/
theorem Lexer.IsAbbreviated.plainBlank {lexer : Lexer} (abbreviated : lexer.IsAbbreviated)
    {d : Char} (blank : d ∈ lexer.blanks) : lexer.PlainBlank d := by
  rw [abbreviated.blanks] at blank
  have apart : Dialect.defaultBlanks.all fun c =>
      (standardMarks.map Prod.fst).all (fun v => c ∉ v.toList) ∧ c ∉ ['/', '*', '\''] ∧
        c.isDigit = false ∧ isWordPart c = false := by
    decide
  obtain ⟨marks, others, digit, word⟩ := of_decide_eq_true (List.all_eq_true.1 apart d blank)
  refine ⟨?_, fun w keyword inside => ?_, fun start known => ?_, fun start stop known => ?_, digit,
    word⟩
  · rwa [abbreviated.blanks, List.contains_iff_mem]
  · have isMark := abbreviated.mark_of_mem keyword inside word (by grind)
    have outside := of_decide_eq_true (List.all_eq_true.1 marks _ isMark)
    rw [String.toList_ofList] at outside
    exact outside inside
  · rw [abbreviated.lineComment] at known
    cases known
    grind
  · rw [abbreviated.blockComment] at known
    cases known
    grind

namespace Reader

open Diagnostic

variable {size : Size} {depth nesting : Nat} {text : String} {ws : List Char}

/-- The code and the start of what is reported. -/
def reported (outcome : Except Diagnostic Script) : Option (Code × Nat) :=
  match outcome with
  | .ok _ => none
  | .error d => some (d.code, d.range.start)

theorem exists_of_reported {outcome : Except Diagnostic Script} {code : Code} {start : Nat}
    (known : reported outcome = some (code, start)) :
    ∃ d, outcome = .error d ∧ d.code = code ∧ d.range.start = start := by
  cases outcome with
  | ok script => cases known
  | error d =>
    cases known
    exact ⟨d, rfl, rfl, rfl⟩

-- one evaluation, so that the tables of the dialect are filled once
theorem reported_smallest :
    ["(r", "(r ", "3", "3 "].map
        (fun text => reported ((standard ⟨2, by decide, by decide⟩ 32 64).read text)) =
      [some (.unexpectedToken, 1), some (.unclosed, 0), some (.unexpectedEnd, 1),
        some (.unexpectedEnd, 2)] := by
  decide +kernel

theorem space_mem_blanks (size : Size) (depth nesting : Nat) :
    ' ' ∈ (standard size depth nesting).lexer.blanks := by
  have same : (standard size depth nesting).lexer.blanks = Dialect.defaultBlanks :=
    (Lexer.isAbbreviated_standard size).blanks
  rw [same]
  decide

end Reader

end CubeScript
