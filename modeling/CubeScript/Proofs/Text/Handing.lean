import CubeScript.Proofs.Text.Splitting
import CubeScript.Text.Tokenizer

/-!
# Handing out tokens one by one

What a tokenizer will hand out is a list of tokens and then the end of the text for ever
(`Tokenizer.remaining`). A token that is asked for is the first of the list, and a token that is
only looked at stays there. The tokenizer of a text begins with all its tokens, so it hands out
those that the text falls apart into (`Tokenizer.nth_start`).
-/

namespace CubeScript

namespace Lexer

theorem kind_tokenAt_ne_eof (lexer : Lexer) {p : Cursor} (filled : p.rest ≠ []) :
    (lexer.tokenAt p).kind ≠ .eof := by
  obtain ⟨w, leads, _⟩ := lexer.exists_leads_classify filled
  rw [tokenAt, if_neg filled]
  exact leads.kind_ne_eof

end Lexer

namespace Tokenizer

variable {z : Tokenizer} {t : Token} {ts : List Token}

/-! ### What does not change -/

@[simp] theorem lexer_next (z : Tokenizer) : z.next.2.lexer = z.lexer := by
  rw [next]
  split <;> rfl

@[simp] theorem pushedBack_next (z : Tokenizer) : z.next.2.pushedBack = false := by
  rw [next]
  split <;> rfl

@[simp] theorem last_next (z : Tokenizer) : z.next.2.last = some z.next.1 := by
  rw [next]
  split
  · assumption
  · rfl

@[simp] theorem textEnd_next (z : Tokenizer) : z.next.2.textEnd = z.textEnd := by
  rw [next]
  split
  · rfl
  · obtain ⟨gap, passes, _⟩ := z.lexer.exists_gap_skip z.cursor
    exact (Cursor.Passes.advance _ _).textEnd_eq.trans passes.textEnd_eq

@[simp] theorem peek_fst (z : Tokenizer) : z.peek.1 = z.next.1 := rfl

theorem peek_snd (z : Tokenizer) :
    z.peek.2 = ⟨z.lexer, z.next.2.cursor, some z.next.1, true⟩ := by
  change z.next.2.pushBack = _
  rw [pushBack, last_next, lexer_next]
  rfl

/-- Looking at a token twice is looking at it once. -/
theorem peek_peek (z : Tokenizer) : z.peek.2.peek.2 = z.peek.2 := by
  rw [peek_snd z, peek_snd]
  rfl

/-! ### What is still to be handed out -/

/-- Whether the end of the text, if it is to be handed out again, is that of this text. -/
def Sound (z : Tokenizer) : Prop :=
  ∀ t, z.pushedBack = true → z.last = some t → t.isEnd →
    t = .atEnd z.textEnd ∧ z.lexer.tokensFrom z.cursor = []

theorem sound_of_not (fresh : z.pushedBack = false) : z.Sound := by
  intro t again
  rw [fresh] at again
  cases again

theorem remaining_of_not (fresh : z.pushedBack = false) :
    z.remaining = z.lexer.tokensFrom z.cursor := by
  rw [remaining, fresh]

theorem remaining_of_last (again : z.pushedBack = true) (last : z.last = some t) :
    z.remaining = if t.isEnd then [] else t :: z.lexer.tokensFrom z.cursor := by
  rw [remaining, again, last]

/-- Reading on gives the next token of the text. -/
theorem read_cons (unread : z.lexer.tokensFrom z.cursor = t :: ts) :
    z.read.1 = t ∧ z.read.2.remaining = ts ∧ t.isEnd = false := by
  rw [Lexer.tokensFrom] at unread
  split at unread
  · cases unread
  · rename_i filled
    obtain ⟨rfl, later⟩ := List.cons.inj unread
    refine ⟨rfl, later, ?_⟩
    exact decide_eq_false (z.lexer.kind_tokenAt_ne_eof filled)

/-- Reading on at the end of the text gives the end of the text. -/
theorem read_nil (unread : z.lexer.tokensFrom z.cursor = []) :
    z.read.1 = .atEnd z.textEnd ∧ z.read.2.remaining = [] := by
  obtain ⟨gap, passes, _⟩ := z.lexer.exists_gap_skip z.cursor
  rw [Lexer.tokensFrom] at unread
  split at unread
  · rename_i none
    have stop : (z.lexer.skip z.cursor).offset = z.textEnd := by
      rw [textEnd, ← passes.textEnd_eq, Cursor.textEnd, none]
      rfl
    have left : (z.lexer.pastToken (z.lexer.skip z.cursor)).rest = [] := by
      rw [Lexer.pastToken, Cursor.advance, none, List.drop_nil]
    refine ⟨?_, z.lexer.tokensFrom_of_nil left⟩
    rw [← stop]
    exact if_pos none
  · cases unread

/-- A token that is asked for is the first that is left. -/
theorem next_cons (left : z.remaining = t :: ts) :
    z.next.1 = t ∧ z.next.2.remaining = ts ∧ t.isEnd = false := by
  rw [next]
  rw [remaining] at left
  split at left
  · rename_i token again last
    simp only [last]
    split at left
    · cases left
    · rename_i noEnd
      obtain ⟨rfl, rfl⟩ := List.cons.inj left
      exact ⟨rfl, remaining_of_not rfl, Bool.eq_false_iff.2 noEnd⟩
  · exact read_cons left

theorem next_nil (sound : z.Sound) (left : z.remaining = []) :
    z.next.1 = .atEnd z.textEnd ∧ z.next.2.remaining = [] := by
  rw [next]
  rw [remaining] at left
  split at left
  · rename_i token again last
    simp only [last]
    split at left
    · rename_i isEnd
      obtain ⟨same, unread⟩ := sound token again last isEnd
      exact ⟨same, (remaining_of_not rfl).trans unread⟩
    · cases left
  · exact read_nil left

theorem sound_next (z : Tokenizer) : z.next.2.Sound := sound_of_not z.pushedBack_next

theorem next_eq_headD (sound : z.Sound) : z.next.1 = z.remaining.headD (.atEnd z.textEnd) := by
  cases left : z.remaining with
  | nil => exact (next_nil sound left).1
  | cons t ts => exact (next_cons left).1

theorem remaining_next (sound : z.Sound) : z.next.2.remaining = z.remaining.tail := by
  cases left : z.remaining with
  | nil => exact (next_nil sound left).2
  | cons t ts => exact (next_cons left).2.1

theorem unread_next (sound : z.Sound) :
    z.lexer.tokensFrom z.next.2.cursor = z.remaining.tail := by
  rw [← remaining_next sound, remaining_of_not z.pushedBack_next, lexer_next]

/-- A token that is looked at stays. -/
theorem remaining_peek (sound : z.Sound) : z.peek.2.remaining = z.remaining := by
  have unread := unread_next sound
  rw [peek_snd, remaining_of_last rfl rfl]
  cases left : z.remaining with
  | nil =>
    rw [(next_nil sound left).1]
    rfl
  | cons t ts =>
    obtain ⟨same, _, noEnd⟩ := next_cons left
    rw [left] at unread
    rw [same, noEnd]
    exact congrArg (t :: ·) unread

theorem sound_peek (sound : z.Sound) : z.peek.2.Sound := by
  rw [peek_snd]
  intro t _ last isEnd
  cases last
  have unread := unread_next sound
  cases left : z.remaining with
  | nil =>
    rw [left] at unread
    exact ⟨(next_nil sound left).1.trans (congrArg Token.atEnd z.textEnd_next.symm), unread⟩
  | cons t ts =>
    obtain ⟨same, _, noEnd⟩ := next_cons left
    rw [same, noEnd] at isEnd
    cases isEnd

/-! ### Asking for one token after the other -/

/-- The tokenizer after some tokens have been asked for. -/
def after (z : Tokenizer) : Nat → Tokenizer
  | 0 => z
  | n + 1 => (after z n).next.2

/-- The token that is handed out after some others. -/
def nth (z : Tokenizer) (n : Nat) : Token := (z.after n).next.1

theorem sound_after (sound : z.Sound) (n : Nat) : (z.after n).Sound := by
  cases n with
  | zero => exact sound
  | succ n => exact sound_next _

theorem textEnd_after (z : Tokenizer) (n : Nat) : (z.after n).textEnd = z.textEnd := by
  induction n with
  | zero => rfl
  | succ n ih => rw [after, textEnd_next, ih]

theorem remaining_after (sound : z.Sound) (n : Nat) :
    (z.after n).remaining = z.remaining.drop n := by
  induction n with
  | zero => rfl
  | succ n ih => rw [after, remaining_next (sound_after sound n), ih, List.tail_drop]

/-- First the tokens are handed out that are left, and then the end of the text for ever. -/
theorem nth_eq (sound : z.Sound) (n : Nat) :
    z.nth n = z.remaining[n]?.getD (.atEnd z.textEnd) := by
  rw [nth, next_eq_headD (sound_after sound n), remaining_after sound, textEnd_after,
    List.headD_eq_head?_getD, List.head?_drop]

theorem textEnd_start (lexer : Lexer) (text : String) :
    (start lexer text).textEnd = text.utf8ByteSize := by
  rw [← byteLength_toList]
  exact Nat.zero_add _

theorem nth_start (lexer : Lexer) (text : String) (n : Nat) :
    (start lexer text).nth n = (lexer.tokens text)[n]?.getD (.atEnd text.utf8ByteSize) := by
  rw [nth_eq (sound_of_not rfl), textEnd_start]
  rfl

end Tokenizer

end CubeScript
