import CubeScript.Proofs.Text.Handing
import Mathlib.Data.List.Forall2

/-!
# A tokenizer as a place in a list of tokens

Between the calls a tokenizer keeps a cursor, the last token and whether that is to be handed out
again. It might as well keep one number: how many of its tokens it has handed out. The tokens are
those that a new tokenizer gives when it is asked for one after the other.

A `Source` is anything that tokens can be asked of. A tokenizer is one, and so is a place in a list
of tokens (`Head`). They answer all calls alike, as each call leads from a tokenizer that has got to
some place to one that has got to the place after the call (`Tokenizer.alike`). So the answers to
any sequence of calls are the same.
-/

namespace CubeScript

/-- What can be asked of a source of tokens. Checkpoints are numbered as they are taken. -/
inductive Source.Call where
  | next
  | peek
  | pushBack
  | checkpoint
  | restore (number : Nat)
  deriving DecidableEq, Repr

/-- Something with states `σ` that hands out tokens and can go back to checkpoints `γ`. -/
structure Source (σ γ : Type) where
  next : σ → Token × σ
  peek : σ → Token × σ
  pushBack : σ → σ
  checkpoint : σ → γ
  restore : σ → γ → σ
  startPosition : σ → Nat
  stopPosition : σ → Nat

namespace Source

/-- The answer to a call: the token if one was asked for, and where the last token starts and ends
after the call. -/
structure Answer where
  token : Option Token
  start : Nat
  stop : Nat
  deriving DecidableEq, Repr

variable {σ γ τ δ : Type}

/-- What a call does to a state and the checkpoints that have been taken. -/
def call (source : Source σ γ) (s : σ) (kept : List γ) : Call → Option Token × σ × List γ
  | .next => (some (source.next s).1, (source.next s).2, kept)
  | .peek => (some (source.peek s).1, (source.peek s).2, kept)
  | .pushBack => (none, source.pushBack s, kept)
  | .checkpoint => (none, s, kept ++ [source.checkpoint s])
  | .restore number =>
    match kept[number]? with
    | some c => (none, source.restore s c, kept)
    | none => (none, s, kept)

/-- The answers to some calls, one after the other. -/
def answers (source : Source σ γ) : σ → List γ → List Call → List Answer
  | _, _, [] => []
  | s, kept, c :: calls =>
    let (token, s, kept) := source.call s kept c
    ⟨token, source.startPosition s, source.stopPosition s⟩ :: answers source s kept calls

/-- Whether two sources answer alike as long as their states and checkpoints are related. -/
structure Alike (a : Source σ γ) (b : Source τ δ) (R : σ → τ → Prop) (S : γ → δ → Prop) :
    Prop where
  next : ∀ {s t}, R s t → (a.next s).1 = (b.next t).1 ∧ R (a.next s).2 (b.next t).2
  peek : ∀ {s t}, R s t → (a.peek s).1 = (b.peek t).1 ∧ R (a.peek s).2 (b.peek t).2
  pushBack : ∀ {s t}, R s t → R (a.pushBack s) (b.pushBack t)
  checkpoint : ∀ {s t}, R s t → S (a.checkpoint s) (b.checkpoint t)
  restore : ∀ {s t c d}, R s t → S c d → R (a.restore s c) (b.restore t d)
  startPosition : ∀ {s t}, R s t → a.startPosition s = b.startPosition t
  stopPosition : ∀ {s t}, R s t → a.stopPosition s = b.stopPosition t

namespace Alike

variable {a : Source σ γ} {b : Source τ δ} {R : σ → τ → Prop} {S : γ → δ → Prop}

/-- One call. -/
theorem call (alike : Alike a b R S) {s : σ} {t : τ} {kept : List γ} {saved : List δ}
    (states : R s t) (checkpoints : List.Forall₂ S kept saved) (c : Call) :
    (a.call s kept c).1 = (b.call t saved c).1 ∧
      R (a.call s kept c).2.1 (b.call t saved c).2.1 ∧
      List.Forall₂ S (a.call s kept c).2.2 (b.call t saved c).2.2 := by
  cases c with
  | next =>
    obtain ⟨same, later⟩ := alike.next states
    exact ⟨congrArg some same, later, checkpoints⟩
  | peek =>
    obtain ⟨same, later⟩ := alike.peek states
    exact ⟨congrArg some same, later, checkpoints⟩
  | pushBack => exact ⟨rfl, alike.pushBack states, checkpoints⟩
  | checkpoint =>
    exact ⟨rfl, states, List.rel_append checkpoints (.cons (alike.checkpoint states) .nil)⟩
  | restore number =>
    have related := List.forall₂_iff_get.1 checkpoints
    simp only [Source.call]
    cases known : kept[number]? with
    | none =>
      have missing : saved[number]? = none := by
        rw [List.getElem?_eq_none_iff] at known ⊢
        omega
      rw [missing]
      exact ⟨rfl, states, checkpoints⟩
    | some c =>
      obtain ⟨inside, same⟩ := List.getElem?_eq_some_iff.1 known
      have other : number < saved.length := by omega
      rw [List.getElem?_eq_getElem other]
      have kept := related.2 number inside other
      rw [List.get_eq_getElem, List.get_eq_getElem, same] at kept
      exact ⟨rfl, alike.restore states kept, checkpoints⟩

/-- Any number of calls. -/
theorem answers_eq (alike : Alike a b R S) {s : σ} {t : τ} {kept : List γ} {saved : List δ}
    (states : R s t) (checkpoints : List.Forall₂ S kept saved) (calls : List Call) :
    a.answers s kept calls = b.answers t saved calls := by
  induction calls generalizing s t kept saved with
  | nil => rfl
  | cons c calls ih =>
    obtain ⟨token, later, taken⟩ := alike.call states checkpoints c
    simp only [answers]
    rw [token, alike.startPosition later, alike.stopPosition later, ih later taken]

end Alike

end Source

/-- A place in a list of tokens: how many have been handed out, and whether the last of these is to
be handed out again. -/
structure Head where
  count : Nat
  again : Bool
  deriving DecidableEq, Repr

namespace Head

/-- The next token, or the last one if it is to be handed out again. -/
def next (tokens : Nat → Token) : Head → Token × Head
  | ⟨count + 1, true⟩ => (tokens count, ⟨count + 1, false⟩)
  | ⟨count, _⟩ => (tokens count, ⟨count + 1, false⟩)

/-- Hand out the last token again. This changes nothing before the first token, nor if it is to be
handed out again already. -/
def pushBack : Head → Head
  | ⟨0, again⟩ => ⟨0, again⟩
  | ⟨count + 1, _⟩ => ⟨count + 1, true⟩

/-- Something about the last token that has been handed out, and zero if there is none. -/
def ofLast (tokens : Nat → Token) (position : Token → Nat) : Head → Nat
  | ⟨0, _⟩ => 0
  | ⟨count + 1, _⟩ => position (tokens count)

/-- Places in a list of tokens as a source of tokens. -/
def source (tokens : Nat → Token) : Source Head Head where
  next := next tokens
  peek head := ((next tokens head).1, (next tokens head).2.pushBack)
  pushBack := pushBack
  checkpoint head := head
  restore _ head := head
  startPosition := ofLast tokens (·.range.start)
  stopPosition := ofLast tokens (·.range.stop)

end Head

namespace Tokenizer

/-- Tokenizers as a source of tokens. -/
def source : Source Tokenizer Checkpoint where
  next := next
  peek := peek
  pushBack := pushBack
  checkpoint := checkpoint
  restore := restore
  startPosition := startPosition
  stopPosition := endPosition

/-- The tokenizer of a text at some place in the list of its tokens. -/
def reached (lexer : Lexer) (text : String) (head : Head) : Tokenizer :=
  { (start lexer text).after head.count with pushedBack := head.again }

/-- Whether a tokenizer has got to some place. -/
structure Reaches (lexer : Lexer) (text : String) (z : Tokenizer) (head : Head) : Prop where
  eq : z = reached lexer text head
  counted : head.again = true → head.count ≠ 0

variable {lexer : Lexer} {text : String} {z : Tokenizer} {head : Head}

theorem pushedBack_after (lexer : Lexer) (text : String) (n : Nat) :
    ((start lexer text).after n).pushedBack = false := by
  cases n with
  | zero => rfl
  | succ n => exact pushedBack_next _

theorem last_after (lexer : Lexer) (text : String) (n : Nat) :
    ((start lexer text).after (n + 1)).last = some ((start lexer text).nth n) :=
  last_next _

theorem Reaches.lexer_eq (reaches : Reaches lexer text z head) : z.lexer = lexer := by
  obtain ⟨rfl, _⟩ := reaches
  change ((start lexer text).after head.count).lexer = lexer
  induction head.count with
  | zero => rfl
  | succ n ih => rw [after, lexer_next, ih]

theorem reaches_after (lexer : Lexer) (text : String) (n : Nat) :
    Reaches lexer text ((start lexer text).after n) ⟨n, false⟩ where
  eq := by rw [reached, ← pushedBack_after lexer text n]
  counted := nofun

theorem Reaches.next (reaches : Reaches lexer text z head) :
    z.next.1 = (head.next (start lexer text).nth).1 ∧
      Reaches lexer text z.next.2 (head.next (start lexer text).nth).2 := by
  obtain ⟨rfl, counted⟩ := reaches
  obtain ⟨count, again⟩ := head
  cases again with
  | false =>
    rw [← (reaches_after lexer text count).eq]
    cases count with
    | zero => exact ⟨rfl, reaches_after lexer text 1⟩
    | succ count => exact ⟨rfl, reaches_after lexer text (count + 2)⟩
  | true =>
    cases count with
    | zero => exact absurd rfl (counted rfl)
    | succ count =>
      have replayed : (reached lexer text ⟨count + 1, true⟩).next =
          ((start lexer text).nth count, reached lexer text ⟨count + 1, false⟩) := by
        rw [Tokenizer.next]
        simp only [reached, last_after]
      rw [replayed]
      refine ⟨rfl, rfl, fun replays => ?_⟩
      cases replays

theorem Reaches.last (reaches : Reaches lexer text z head) (position : Token → Nat) :
    (z.last.map position).getD 0 = head.ofLast (start lexer text).nth position := by
  obtain ⟨rfl, _⟩ := reaches
  obtain ⟨count, again⟩ := head
  cases count with
  | zero => rfl
  | succ count =>
    have same : (reached lexer text ⟨count + 1, again⟩).last =
        some ((start lexer text).nth count) := last_after lexer text count
    rw [same]
    rfl

theorem Reaches.pushBack (reaches : Reaches lexer text z head) :
    Reaches lexer text z.pushBack head.pushBack := by
  obtain ⟨rfl, counted⟩ := reaches
  obtain ⟨count, again⟩ := head
  cases count with
  | zero => exact ⟨rfl, counted⟩
  | succ count =>
    have same : (reached lexer text ⟨count + 1, again⟩).last =
        some ((start lexer text).nth count) := last_after lexer text count
    refine ⟨?_, fun _ => Nat.succ_ne_zero count⟩
    rw [Tokenizer.pushBack, if_pos (by rw [same]; rfl)]
    rfl

/-- A tokenizer and a place in the list of its tokens answer alike. -/
theorem alike (lexer : Lexer) (text : String) :
    source.Alike (Head.source (start lexer text).nth) (Reaches lexer text)
      (fun c head => ∃ z, Reaches lexer text z head ∧ c = z.checkpoint) where
  next := Reaches.next
  peek reaches := ⟨reaches.next.1, reaches.next.2.pushBack⟩
  pushBack := Reaches.pushBack
  checkpoint reaches := ⟨_, reaches, rfl⟩
  restore := by
    rintro z head c kept reaches ⟨earlier, taken, rfl⟩
    have same : z.restore earlier.checkpoint = earlier := by
      rw [restore, reaches.lexer_eq, ← taken.lexer_eq]
      rfl
    rwa [← same] at taken
  startPosition reaches := reaches.last _
  stopPosition reaches := reaches.last _

end Tokenizer

end CubeScript
