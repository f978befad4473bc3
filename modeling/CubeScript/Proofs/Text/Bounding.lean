import CubeScript.Proofs.Text.Replaying
import CubeScript.Text.Narrow

/-!
# Texts whose offsets have 32 bits

A narrow tokenizer does on a text what a tokenizer does as long as no offset loses bits
(`Tokenizer.narrow`). An offset is at most the length of the text, so this is so on all texts whose
length fits (`Tokenizer.read_narrow`). Then the answers to any sequence of calls are the same. On a
longer text they are not: the end of the text is never handed out, as no offset that is kept is that
of the end. The tokens may then go on for ever (`NarrowTokenizer.nth_blanksBefore`).
-/

namespace CubeScript

variable {lexer : Lexer} {text : String}

/-! ### Offsets -/

theorem Range.narrow_of_lt {start length : Nat} (short : start + length < offsetBound) :
    Range.narrow start length = some ⟨start, start + length⟩ := by
  have startFits : start % offsetBound = start := Nat.mod_eq_of_lt (by omega)
  have lengthFits : length % offsetBound = length := Nat.mod_eq_of_lt (by omega)
  rw [narrow, startFits, lengthFits]
  exact if_pos short

theorem Range.stop_lt_of_narrow {start length : Nat} {range : Range}
    (kept : Range.narrow start length = some range) : range.stop < offsetBound := by
  rw [narrow] at kept
  split at kept
  · cases kept
    assumption
  · cases kept

namespace Cursor

theorem seekFrom_append (offset : Nat) (before behind : List Char) :
    seekFrom offset (before ++ behind) (byteLength before) = some ⟨offset, behind⟩ := by
  induction before with
  | nil =>
    rw [List.nil_append, byteLength_nil]
    cases behind <;> rfl
  | cons c before ih =>
    obtain ⟨size, positive⟩ := Nat.exists_eq_succ_of_ne_zero c.utf8Size_pos.ne'
    have left : c.utf8Size + byteLength before = (size + byteLength before) + 1 := by omega
    rw [List.cons_append, byteLength_cons, left, seekFrom, if_pos (by omega), ← ih]
    congr 1
    omega

/-- Whether a place is one of a text. -/
def IsOf (text : String) (p : Cursor) : Prop := ∃ before, (start text).Passes before p

/-- A place of a text is found again by its offset. -/
theorem seek?_offset {p : Cursor} (isOf : p.IsOf text) : seek? text p.offset = some p := by
  obtain ⟨before, passes⟩ := isOf
  have offset : p.offset = byteLength before := passes.offset.trans (Nat.zero_add _)
  have rest : text.toList = before ++ p.rest := passes.rest
  rw [seek?, rest, offset, seekFrom_append, ← offset]

end Cursor

theorem Lexer.range_tokenAt (lexer : Lexer) (p : Cursor) :
    (lexer.tokenAt p).range =
      ⟨p.offset, p.offset + (lexer.tokenAt p).text.utf8ByteSize⟩ := by
  rw [tokenAt]
  split
  · rfl
  · rw [utf8ByteSize_ofList]
    rfl

theorem Lexer.offset_pastToken (lexer : Lexer) (p : Cursor) :
    (lexer.pastToken p).offset = (lexer.tokenAt p).range.stop := by
  rw [tokenAt]
  split
  · rename_i none
    rw [pastToken, Cursor.advance, none, List.take_nil]
    rfl
  · rfl

namespace Tokenizer

/-! ### What is kept of a tokenizer -/

/-- The tokenizer that has got to the same place with offsets of 32 bits. -/
def narrow (text : String) (z : Tokenizer) : NarrowTokenizer :=
  ⟨z.lexer, text, z.cursor.offset, z.last, z.pushedBack⟩

variable {z : Tokenizer}

theorem isOf_read (reads : z.cursor.IsOf text) : z.read.2.cursor.IsOf text := by
  obtain ⟨before, passes⟩ := reads
  obtain ⟨gap, past, _⟩ := z.lexer.exists_gap_skip z.cursor
  exact ⟨_, (passes.append past).append (.advance _ _)⟩

theorem isOf_next (reads : z.cursor.IsOf text) : z.next.2.cursor.IsOf text := by
  rw [next]
  split
  · exact reads
  · exact isOf_read reads

theorem isOf_pushBack (reads : z.cursor.IsOf text) : z.pushBack.cursor.IsOf text := by
  rw [pushBack]
  split <;> exact reads

/-- Reading a token goes up to its end. -/
theorem offset_read (z : Tokenizer) : z.read.2.cursor.offset = z.read.1.range.stop :=
  z.lexer.offset_pastToken _

/-- If the length of the text fits in 32 bits, no offset loses bits when a token is read. -/
theorem read_narrow (short : text.utf8ByteSize < offsetBound) (reads : z.cursor.IsOf text) :
    (z.narrow text).read = some (z.read.1, z.read.2.narrow text) := by
  obtain ⟨later, along⟩ := isOf_read reads
  have found : Cursor.seek? text z.cursor.offset = some z.cursor := Cursor.seek?_offset reads
  have inside : z.read.2.cursor.offset ≤ text.utf8ByteSize := by
    rw [← textEnd_start z.lexer, textEnd, start, ← along.textEnd_eq]
    exact Nat.le_add_right ..
  have range := z.lexer.range_tokenAt (z.lexer.skip z.cursor)
  rw [offset_read, read, range] at inside
  have fits := Range.narrow_of_lt (Nat.lt_of_le_of_lt inside short)
  rw [← range] at fits
  have token : { z.lexer.tokenAt (z.lexer.skip z.cursor) with
      range := (z.lexer.tokenAt (z.lexer.skip z.cursor)).range } = z.read.1 := rfl
  rw [NarrowTokenizer.read, narrow, found]
  simp only [Option.bind_eq_bind, Option.bind_some, fits, token]
  rw [narrow, offset_read]
  rfl

theorem next_narrow (short : text.utf8ByteSize < offsetBound) (reads : z.cursor.IsOf text) :
    (z.narrow text).next = some (z.next.1, z.next.2.narrow text) := by
  obtain ⟨lexer, cursor, last, again⟩ := z
  cases again with
  | false => exact read_narrow short reads
  | true =>
    cases last with
    | none => exact read_narrow short reads
    | some token => rfl

theorem pushBack_narrow (text : String) (z : Tokenizer) :
    (z.narrow text).pushBack = z.pushBack.narrow text := by
  rw [NarrowTokenizer.pushBack, pushBack, narrow]
  split <;> rfl

theorem peek_narrow (short : text.utf8ByteSize < offsetBound) (reads : z.cursor.IsOf text) :
    (z.narrow text).peek = some (z.peek.1, z.peek.2.narrow text) := by
  rw [NarrowTokenizer.peek, next_narrow short reads]
  exact congrArg (fun z => some (_, z)) (pushBack_narrow text z.next.2)

end Tokenizer

/-- The checkpoint with an offset of 32 bits. -/
def Checkpoint.narrow (c : Checkpoint) : NarrowCheckpoint := ⟨c.cursor.offset, c.last, c.pushedBack⟩

/-! ### Any sequence of calls -/

namespace NarrowTokenizer

/-- What a call does to a tokenizer and the checkpoints that have been taken. -/
def call (z : NarrowTokenizer) (kept : List NarrowCheckpoint) :
    Source.Call → Option (Option Token × NarrowTokenizer × List NarrowCheckpoint)
  | .next => z.next.map fun (token, z) => (some token, z, kept)
  | .peek => z.peek.map fun (token, z) => (some token, z, kept)
  | .pushBack => some (none, z.pushBack, kept)
  | .checkpoint => some (none, z, kept ++ [z.checkpoint])
  | .restore number => some (none, kept[number]?.elim z z.restore, kept)

/-- The answers to some calls, one after the other, unless the tokenizer gives up. -/
def answers : NarrowTokenizer → List NarrowCheckpoint → List Source.Call →
    Option (List Source.Answer)
  | _, _, [] => some []
  | z, kept, c :: calls => do
    let (token, z, kept) ← z.call kept c
    return ⟨token, z.startPosition, z.endPosition⟩ :: (← answers z kept calls)

/-- The tokenizer after some tokens have been asked for. -/
def after (z : NarrowTokenizer) : Nat → Option NarrowTokenizer
  | 0 => some z
  | n + 1 => do return (← (← z.after n).next).2

/-- The token that is handed out after some others. -/
def nth (z : NarrowTokenizer) (n : Nat) : Option Token := do
  return (← (← z.after n).next).1

theorem nth_of_after {z reached later : NarrowTokenizer} {n : Nat} {t : Token}
    (before : z.after n = some reached) (taken : reached.next = some (t, later)) :
    z.nth n = some t ∧ z.after (n + 1) = some later := by
  constructor
  · rw [nth, before]
    simp only [Option.bind_eq_bind, Option.bind_some, taken]
    rfl
  · rw [after, before]
    simp only [Option.bind_eq_bind, Option.bind_some, taken]
    rfl

end NarrowTokenizer

namespace Tokenizer

variable {z : Tokenizer}

/-- A call leads to the same place with offsets of 32 bits. -/
theorem call_narrow (short : text.utf8ByteSize < offsetBound) (reads : z.cursor.IsOf text)
    {kept : List Checkpoint} (keptReads : ∀ c ∈ kept, c.cursor.IsOf text)
    (c : Source.Call) :
    (z.narrow text).call (kept.map Checkpoint.narrow) c =
      some ((source.call z kept c).1, (source.call z kept c).2.1.narrow text,
        (source.call z kept c).2.2.map Checkpoint.narrow) ∧
    (source.call z kept c).2.1.cursor.IsOf text ∧
    ∀ d ∈ (source.call z kept c).2.2, d.cursor.IsOf text := by
  cases c with
  | next =>
    rw [NarrowTokenizer.call, next_narrow short reads]
    exact ⟨rfl, isOf_next reads, keptReads⟩
  | peek =>
    rw [NarrowTokenizer.call, peek_narrow short reads]
    exact ⟨rfl, isOf_pushBack (isOf_next reads), keptReads⟩
  | pushBack =>
    rw [NarrowTokenizer.call, pushBack_narrow]
    exact ⟨rfl, isOf_pushBack reads, keptReads⟩
  | checkpoint =>
    rw [NarrowTokenizer.call]
    refine ⟨?_, reads, ?_⟩
    · simp [source, Source.call, NarrowTokenizer.checkpoint, checkpoint, narrow, Checkpoint.narrow]
    · intro d member
      obtain before | last := List.mem_append.1 member
      · exact keptReads d before
      · rw [List.mem_singleton.1 last]
        exact reads
  | restore number =>
    rw [NarrowTokenizer.call, List.getElem?_map]
    simp only [Source.call]
    cases known : kept[number]? with
    | none => exact ⟨rfl, reads, keptReads⟩
    | some d => exact ⟨rfl, keptReads d (List.mem_of_getElem? known), keptReads⟩

/-- The answers to any calls are the same with offsets of 32 bits. -/
theorem answers_narrow (short : text.utf8ByteSize < offsetBound) (reads : z.cursor.IsOf text)
    {kept : List Checkpoint} (keptReads : ∀ c ∈ kept, c.cursor.IsOf text)
    (calls : List Source.Call) :
    (z.narrow text).answers (kept.map Checkpoint.narrow) calls =
      some (source.answers z kept calls) := by
  induction calls generalizing z kept with
  | nil => rfl
  | cons c calls ih =>
    obtain ⟨same, later, keptLater⟩ := call_narrow short reads keptReads c
    rw [NarrowTokenizer.answers, same]
    simp only [Option.bind_eq_bind, Option.bind_some, ih later keptLater]
    rfl

theorem after_narrow (short : text.utf8ByteSize < offsetBound) (reads : z.cursor.IsOf text)
    (n : Nat) : (z.narrow text).after n = some ((z.after n).narrow text) ∧
      (z.after n).cursor.IsOf text := by
  induction n with
  | zero => exact ⟨rfl, reads⟩
  | succ n ih =>
    obtain ⟨same, later⟩ := ih
    exact ⟨(NarrowTokenizer.nth_of_after same (next_narrow short later)).2, isOf_next later⟩

theorem nth_narrow (short : text.utf8ByteSize < offsetBound) (reads : z.cursor.IsOf text)
    (n : Nat) : (z.narrow text).nth n = some (z.nth n) := by
  obtain ⟨same, later⟩ := after_narrow short reads n
  exact (NarrowTokenizer.nth_of_after same (next_narrow short later)).1

theorem isOf_start (lexer : Lexer) (text : String) : (start lexer text).cursor.IsOf text :=
  ⟨[], .nil _⟩

/-- Whatever is asked of the tokenizer of a text whose length fits, the answers are the same with
offsets of 32 bits. -/
theorem answers_start (lexer : Lexer) (short : text.utf8ByteSize < offsetBound)
    (calls : List Source.Call) :
    (NarrowTokenizer.start lexer text).answers [] calls =
      some (source.answers (start lexer text) [] calls) := by
  have none : ∀ c ∈ ([] : List Checkpoint), c.cursor.IsOf text := nofun
  exact answers_narrow short (isOf_start lexer text) none calls

end Tokenizer

namespace NarrowTokenizer

/-! ### Texts that are too long -/

variable {z : NarrowTokenizer} {t : Token}

theorem pushedBack_after (lexer : Lexer) (text : String) (n : Nat)
    (reached : (start lexer text).after n = some z) : z.pushedBack = false := by
  cases n with
  | zero =>
    cases reached
    rfl
  | succ n =>
    obtain ⟨earlier, _, given⟩ := Option.bind_eq_some_iff.1 reached
    obtain ⟨⟨token, later⟩, taken, same⟩ := Option.bind_eq_some_iff.1 given
    cases same
    rw [next] at taken
    split at taken
    · cases taken
      rfl
    · obtain ⟨p, _, taken⟩ := Option.bind_eq_some_iff.1 taken
      obtain ⟨range, _, taken⟩ := Option.bind_eq_some_iff.1 taken
      cases taken
      rfl

/-- The offsets of a token that is read fit in 32 bits. -/
theorem stop_lt_of_read {later : NarrowTokenizer} (taken : z.read = some (t, later)) :
    t.range.stop < offsetBound := by
  obtain ⟨p, _, taken⟩ := Option.bind_eq_some_iff.1 taken
  obtain ⟨range, kept, taken⟩ := Option.bind_eq_some_iff.1 taken
  cases taken
  exact Range.stop_lt_of_narrow kept

theorem next_of_not (fresh : z.pushedBack = false) : z.next = z.read := by
  rw [next, fresh]

theorem stop_lt_of_nth {n : Nat} (given : (start lexer text).nth n = some t) :
    t.range.stop < offsetBound := by
  obtain ⟨z, reached, found⟩ := Option.bind_eq_some_iff.1 given
  obtain ⟨⟨token, later⟩, taken, same⟩ := Option.bind_eq_some_iff.1 found
  cases same
  rw [next_of_not (pushedBack_after lexer text n reached)] at taken
  exact stop_lt_of_read taken

/-- The tokens of a text are handed out with offsets of 32 bits, and then its end for ever, exactly
if the length of the text fits. -/
theorem nth_start_iff (lexer : Lexer) (text : String) :
    (∀ n, (start lexer text).nth n =
      some ((lexer.tokens text)[n]?.getD (.atEnd text.utf8ByteSize))) ↔
    text.utf8ByteSize < offsetBound := by
  constructor
  · intro given
    have ends := given (lexer.tokens text).length
    rw [List.getElem?_eq_none (Nat.le_refl _)] at ends
    exact stop_lt_of_nth ends
  · intro short n
    rw [← Tokenizer.nth_start]
    exact Tokenizer.nth_narrow short (Tokenizer.isOf_start lexer text) n

/-! ### Blanks up to the bound -/

section

variable {c : Char} {count : Nat}

theorem byteLength_blanks (count : Nat) : byteLength (List.replicate count ' ') = count := by
  induction count with
  | zero => rfl
  | succ count ih =>
    rw [List.replicate_succ, byteLength_cons, ih]
    exact Nat.add_comm ..

/-- Some blanks with one character behind them. -/
def blanksBefore (count : Nat) (c : Char) : String := .ofList (List.replicate count ' ' ++ [c])

theorem seek?_blanksBefore {offset : Nat} (inside : offset ≤ count) :
    Cursor.seek? (blanksBefore count c) offset =
      some ⟨offset, List.replicate (count - offset) ' ' ++ [c]⟩ := by
  have split : List.replicate count ' ' =
      List.replicate offset ' ' ++ List.replicate (count - offset) ' ' := by
    rw [List.replicate_append_replicate, Nat.add_sub_of_le inside]
  rw [Cursor.seek?, blanksBefore, String.toList_ofList, split, List.append_assoc]
  have found := Cursor.seekFrom_append offset (List.replicate offset ' ')
    (List.replicate (count - offset) ' ' ++ [c])
  rwa [byteLength_blanks] at found

variable (blank : ' ' ∈ lexer.blanks) (filled : c ∉ lexer.blanks)
  (plain : lexer.commentLength? [c] = none)

include blank filled plain

theorem skip_blanks (offset : Nat) :
    lexer.skip ⟨offset, List.replicate count ' ' ++ [c]⟩ = ⟨offset + count, [c]⟩ := by
  have taken : (List.replicate count ' ' ++ [c]).takeWhile (lexer.blanks.contains ·) =
      List.replicate count ' ' := by
    rw [List.takeWhile_append_of_pos]
    · simp [filled]
    · intro d member
      rw [List.eq_of_mem_replicate member]
      exact List.contains_iff_mem.2 blank
  have past : lexer.skipBlanks ⟨offset, List.replicate count ' ' ++ [c]⟩ =
      ⟨offset + count, [c]⟩ := by
    rw [Lexer.skipBlanks, taken, Cursor.advance, List.take_left, List.drop_left, byteLength_blanks]
  rw [Lexer.skip, past, plain]

variable (single : c.utf8Size = 1) (alone : lexer.classify [c] = (.keyword, 1))

include single alone

/-- If the number of the blanks loses all its bits, the keyword behind them is put at the beginning
of the text, and reading goes on among the blanks. -/
theorem read_blanksBefore (lost : count % offsetBound = 0) {offset : Nat} (inside : offset ≤ count)
    (last : Option Token) :
    read ⟨lexer, blanksBefore count c, offset, last, false⟩ =
      some (⟨.keyword, .ofList [c], ⟨0, 1⟩⟩, ⟨lexer, blanksBefore count c, 1,
        some ⟨.keyword, .ofList [c], ⟨0, 1⟩⟩, false⟩) := by
  have size : (String.ofList [c]).utf8ByteSize = 1 := by
    rw [utf8ByteSize_ofList, byteLength_cons, single]
    rfl
  have token : lexer.tokenAt ⟨count, [c]⟩ = ⟨.keyword, .ofList [c], ⟨count, count + 1⟩⟩ := by
    simp [Lexer.tokenAt, alone, Cursor.advance, single]
  have range : Range.narrow count 1 = some ⟨0, 1⟩ := by
    rw [Range.narrow, lost]
    rfl
  have there : offset + (count - offset) = count := Nat.add_sub_of_le inside
  rw [read, seek?_blanksBefore inside]
  simp only [Option.bind_eq_bind, Option.bind_some, skip_blanks blank filled plain, there, token,
    size, range]
  rfl

theorem nth_blanksBefore (lost : count % offsetBound = 0) (filledBlanks : count ≠ 0) (n : Nat) :
    (start lexer (blanksBefore count c)).nth n = some ⟨.keyword, .ofList [c], ⟨0, 1⟩⟩ := by
  have again (offset : Nat) (inside : offset ≤ 1) (last : Option Token) :=
    read_blanksBefore blank filled plain single alone lost
      (Nat.le_trans inside (Nat.pos_of_ne_zero filledBlanks)) last
  have reached : ∃ offset last, offset ≤ 1 ∧ (start lexer (blanksBefore count c)).after n =
      some ⟨lexer, blanksBefore count c, offset, last, false⟩ := by
    induction n with
    | zero => exact ⟨0, none, Nat.zero_le 1, rfl⟩
    | succ n ih =>
      obtain ⟨offset, last, inside, before⟩ := ih
      exact ⟨1, _, Nat.le_refl 1, (nth_of_after before (again offset inside last)).2⟩
  obtain ⟨offset, last, inside, before⟩ := reached
  exact (nth_of_after before (again offset inside last)).1

end

end NarrowTokenizer

namespace Lexer

/-- Skipping ends wherever it begins. A text is finitely many tokens with blanks and comments between
them. They lie one behind the other, none is empty, and each is the piece of the text at its range.
With offsets of 32 bits these tokens are handed out, and then the end of the text for ever, exactly
if the length of the text fits. -/
theorem lossless (lexer : Lexer) (advances : lexer.Advances) (text : String) :
    (∀ p, lexer.Skips p (lexer.skip p)) ∧
    lexer.Splits 0 text.toList (lexer.tokens text) ∧
    Placed (lexer.tokens text) ∧
    (∀ t ∈ lexer.tokens text, t.kind ≠ .eof ∧ t.text ≠ "" ∧ t.range.In text ∧
      t.range.Shows text t.text) ∧
    ((∀ n, (NarrowTokenizer.start lexer text).nth n =
      some ((lexer.tokens text)[n]?.getD (.atEnd text.utf8ByteSize))) ↔
      text.utf8ByteSize < offsetBound) := by
  refine ⟨lexer.skips_skip advances, lexer.splits_tokens text, lexer.placed_tokens text, ?_,
    NarrowTokenizer.nth_start_iff lexer text⟩
  intro t member
  obtain ⟨kind, filled, shows⟩ := lexer.shows_tokens text t member
  exact ⟨kind, filled, shows.isIn, shows⟩

/-- Delimiters that begin alike, a character of two bytes, and a comment that is not closed. -/
theorem lossless_comments :
    let lexer : Lexer := {
      keywords := .ofList ["R", "R'", "/"]
      blanks := [' ']
      lineComment := some ['/', '/']
      blockComment := some (['/', '*'], ['*', '/']) }
    let text := "R'é/*/ é*/R2_a//R\n/ /*R"
    lexer.Advances ∧
    (lexer.tokens text).map (fun t => (t.kind, t.text)) =
      [(.keyword, "R'"), (.special, "é"), (.keyword, "R"), (.number, "2"), (.word, "_a"),
        (.special, "\n"), (.keyword, "/")] ∧
    ∀ n, (NarrowTokenizer.start lexer text).nth n =
      some ((lexer.tokens text)[n]?.getD (.atEnd 25)) := by
  intro lexer text
  have advances : lexer.Advances := by
    rintro start ⟨⟩
    decide
  exact ⟨advances, by decide +kernel, (lossless lexer advances text).2.2.2.2.2 (by decide)⟩

/-- Behind as many blanks as there are offsets, the same token is handed out again and again, and
the end of the text never. -/
theorem exists_nth_eq_again : ∃ (lexer : Lexer) (text : String), lexer.Advances ∧
    ∀ n, (NarrowTokenizer.start lexer text).nth n = some ⟨.keyword, "R", ⟨0, 1⟩⟩ := by
  refine ⟨{ keywords := .ofList ["R"], blanks := [' '] },
    NarrowTokenizer.blanksBefore offsetBound 'R', nofun, ?_⟩
  exact NarrowTokenizer.nth_blanksBefore (by decide) (by decide) rfl rfl (by decide)
    (Nat.mod_self offsetBound) (by decide)

end Lexer

end CubeScript
