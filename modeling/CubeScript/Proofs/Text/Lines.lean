import CubeScript.Proofs.Text.Splitting
import CubeScript.Text.Position
import Mathlib.Data.List.DropRight
import Mathlib.Data.Prod.Lex
import Mathlib.Order.Monotone.Defs

/-!
# Lines and columns keep the order of a text

Positions are ordered as they are read, by line and then by column. Each character moves the
position behind it on (`Position.past`), and the position of a byte is where the characters before
it lead from the beginning of the text (`Position.ofOffset_append`). So the later of two bytes at
which characters begin has the later position, and a span, which only looks at columns in its
first and in its last line, holds just the positions from the one end to the other
(`Span.contains_ofRange_iff`).
-/

namespace CubeScript

namespace Position

/-! ### The order of positions -/

/-- A position as a pair in which the line comes first. -/
def key (p : Position) : Nat ×ₗ Nat := toLex (p.line, p.column)

theorem key_injective : Function.Injective key := by
  rintro ⟨line, column⟩ ⟨line', column'⟩ same
  cases toLex.injective same
  rfl

instance : LinearOrder Position := LinearOrder.lift' key key_injective

theorem le_iff {p q : Position} :
    p ≤ q ↔ p.line < q.line ∨ p.line = q.line ∧ p.column ≤ q.column := Prod.Lex.toLex_le_toLex

theorem lt_iff {p q : Position} :
    p < q ↔ p.line < q.line ∨ p.line = q.line ∧ p.column < q.column := Prod.Lex.toLex_lt_toLex

/-! ### Positions behind characters -/

/-- The position behind a character that stands at a position. -/
def past (p : Position) (c : Char) : Position :=
  if c = '\n' then ⟨p.line + 1, 0⟩ else ⟨p.line, p.column + 1⟩

theorem lt_past (p : Position) (c : Char) : p < p.past c := by
  unfold past
  split
  · exact lt_iff.2 (.inl p.line.lt_succ_self)
  · exact lt_iff.2 (.inr ⟨rfl, p.column.lt_succ_self⟩)

theorem le_foldl_past (p : Position) (cs : List Char) : p ≤ cs.foldl past p := by
  induction cs generalizing p with
  | nil => exact le_rfl
  | cons c cs ih => exact (lt_past p c).le.trans (ih _)

theorem lt_foldl_past (p : Position) {cs : List Char} (filled : cs ≠ []) : p < cs.foldl past p := by
  cases cs with
  | nil => exact absurd rfl filled
  | cons c cs => exact (lt_past p c).trans_le (le_foldl_past _ cs)

/-- Characters lead from the beginning of a text to the line that has as many lines before it as
there are line ends among them, and to the column that has as many characters before it as follow
the last line end. -/
theorem foldl_past (cs : List Char) :
    cs.foldl past ⟨0, 0⟩ = ⟨cs.count '\n', (cs.rtakeWhile (· ≠ '\n')).length⟩ := by
  induction cs using List.reverseRecOn with
  | nil => rfl
  | append_singleton cs c ih =>
    rw [List.foldl_concat, ih, past, List.count_append, List.rtakeWhile_concat]
    by_cases lineEnd : c = '\n'
    · subst lineEnd
      rfl
    · rw [if_neg lineEnd, if_pos (by simpa using lineEnd), List.length_append,
        List.count_singleton, if_neg (by simpa using lineEnd)]
      rfl

/-! ### The position of a byte -/

theorem walk_start (here : Nat) (cs : List Char) (p : Position) : walk here cs here p = p := by
  cases cs with
  | nil => exact if_pos rfl
  | cons c cs => rw [walk, if_pos (Nat.le_refl here), if_pos rfl]

theorem walk_append (cs behind : List Char) (here : Nat) (p : Position) :
    walk (here + byteLength cs) (cs ++ behind) here p = cs.foldl past p := by
  induction cs generalizing here p with
  | nil => exact walk_start here behind p
  | cons c cs ih =>
    have size := c.utf8Size_pos
    rw [List.cons_append, walk, byteLength_cons, if_neg (by omega), ← Nat.add_assoc, ih]
    rfl

theorem ofOffset_append (before behind : String) :
    ofOffset (before ++ behind) before.utf8ByteSize = before.toList.foldl past ⟨0, 0⟩ := by
  have offset : min before.utf8ByteSize (before ++ behind).utf8ByteSize =
      0 + byteLength before.toList := by
    rw [String.utf8ByteSize_append, byteLength_toList]
    omega
  rw [ofOffset, offset, String.toList_append, walk_append]

/-- The line of a place in a text is the number of line ends before it, and its column the number
of characters since the last of them. -/
theorem ofOffset_eq (before behind : String) :
    ofOffset (before ++ behind) before.utf8ByteSize =
      ⟨before.toList.count '\n', (before.toList.rtakeWhile (· ≠ '\n')).length⟩ := by
  rw [ofOffset_append, foldl_past]

/-- Between two places of a text there are characters. -/
theorem exists_between {text : String} {o p : Nat} (first : (⟨o⟩ : String.Pos.Raw).IsValid text)
    (second : (⟨p⟩ : String.Pos.Raw).IsValid text) (lower : o < p) :
    ∃ before between behind : String, text = before ++ between ++ behind ∧
      o = before.utf8ByteSize ∧ p = (before ++ between).utf8ByteSize ∧ between.toList ≠ [] := by
  obtain ⟨before, later, rfl, start⟩ := String.Pos.Raw.isValid_iff_exists_append.1 first
  obtain ⟨upTo, behind, same, stop⟩ := String.Pos.Raw.isValid_iff_exists_append.1 second
  cases start
  cases stop
  have starts : before.toList <+: (before ++ later).toList := by
    rw [String.toList_append]
    exact List.prefix_append ..
  have reaches : upTo.toList <+: (before ++ later).toList := by
    rw [same, String.toList_append]
    exact List.prefix_append ..
  -- The part that ends first is the shorter one in bytes, so it is the beginning of the other.
  obtain ⟨between, split⟩ | ⟨excess, split⟩ := List.prefix_or_prefix_of_prefix starts reaches
  · obtain rfl : before ++ String.ofList between = upTo := by
      rw [← String.toList_inj, String.toList_append, String.toList_ofList, split]
    refine ⟨before, String.ofList between, behind, same, rfl, rfl, ?_⟩
    rintro none
    rw [String.toList_ofList] at none
    rw [none, String.ofList_nil, String.append_empty] at lower
    exact lt_irrefl _ lower
  · rw [← byteLength_toList before, ← byteLength_toList upTo, ← split, byteLength_append] at lower
    omega

theorem strictMonoOn_ofOffset (text : String) :
    StrictMonoOn (ofOffset text) {o | (⟨o⟩ : String.Pos.Raw).IsValid text} := by
  intro o first p second lower
  obtain ⟨before, between, behind, rfl, rfl, rfl, filled⟩ := exists_between first second lower
  rw [ofOffset_append, String.append_assoc, ofOffset_append, String.toList_append,
    List.foldl_append]
  exact lt_foldl_past _ filled

end Position

namespace Span

theorem contains_iff {span : Span} {p : Position} :
    span.contains p ↔ span.start ≤ p ∧ p ≤ span.stop := by
  rw [Position.le_iff, Position.le_iff, contains]
  split_ifs <;> simp <;> omega

/-- The position of a place in a text is told by the line ends and characters before it, later
places have later positions, and a span of a text holds just the positions of the places from its
first one to its last. -/
theorem contains_ofRange_iff {text : String} {range : Range} {o : Nat} (inText : range.In text)
    (valid : (⟨o⟩ : String.Pos.Raw).IsValid text) :
    StrictMonoOn (Position.ofOffset text) {p | (⟨p⟩ : String.Pos.Raw).IsValid text} ∧
      (∃ before behind : String, text = before ++ behind ∧ o = before.utf8ByteSize ∧
        Position.ofOffset text o =
          ⟨before.toList.count '\n', (before.toList.rtakeWhile (· ≠ '\n')).length⟩) ∧
      ((ofRange text range).contains (Position.ofOffset text o) ↔
        range.start ≤ o ∧ o ≤ range.stop) := by
  have increasing := Position.strictMonoOn_ofOffset text
  refine ⟨increasing, ?_, ?_⟩
  · obtain ⟨before, behind, rfl, place⟩ := String.Pos.Raw.isValid_iff_exists_append.1 valid
    cases place
    exact ⟨before, behind, rfl, rfl, Position.ofOffset_eq before behind⟩
  · rw [contains_iff]
    exact and_congr (increasing.le_iff_le inText.start valid)
      (increasing.le_iff_le valid inText.stop)

/-- The brackets on the second line of a text, with a place between them and one on the line
before, whose column is higher. -/
theorem contains_ofRange_iff_brackets :
    (ofRange "Ä R2 F\n[R]" ⟨8, 11⟩).contains (Position.ofOffset "Ä R2 F\n[R]" 9) ∧
      ¬ (ofRange "Ä R2 F\n[R]" ⟨8, 11⟩).contains (Position.ofOffset "Ä R2 F\n[R]" 7) := by
  have shown : Range.Shows ⟨8, 11⟩ "Ä R2 F\n[R]" "[R]" :=
    ⟨"Ä R2 F\n", "", by decide, by decide, by decide⟩
  have brackets := shown.isIn
  have between := (contains_ofRange_iff brackets (isValid_utf8ByteSize "Ä R2 F\n[" "R]")).2.2
  have above := (contains_ofRange_iff brackets (isValid_utf8ByteSize "Ä R2 F" "\n[R]")).2.2
  exact ⟨between.2 (by decide), fun inside => absurd (above.1 inside) (by decide)⟩

end Span

end CubeScript
