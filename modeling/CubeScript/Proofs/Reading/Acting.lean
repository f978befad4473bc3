import CubeScript.Proofs.Script.Placing
import CubeScript.Proofs.Text.Handing
import CubeScript.Reading.InPlace

/-!
# What actions leave as it was

Reading adds nodes and takes tokens, and comes back from every statement and every shorthand that it
has gone into, whether it succeeds or stops (`Session.Grows`). It does the same whether the size of
the cube has been looked up before or not. Both are kept when actions are put together, so that an
action is `Steady` if its parts are. Relations between actions may be kept in the same way
(`Action.Congruence`).
-/

namespace CubeScript

namespace Session

variable {layers : Nat} {s t u : Session}

/-- The session with the size of the cube looked up, if there is such a cube. -/
def fill (layers : Nat) (s : Session) : Session :=
  { s with size? := s.size?.or (Size.ofNat? layers).toOption }

theorem fill_fill (s : Session) : (s.fill layers).fill layers = s.fill layers := by
  simp only [fill]
  cases s.size? <;> simp

/-- Whether two sessions are the same but for the size of the cube, which may have been looked
up. -/
structure Alike (s t : Session) : Prop where
  tokens : s.tokens = t.tokens
  arena : s.arena = t.arena
  nesting : s.nesting = t.nesting
  depth : s.depth = t.depth

theorem alike_fill (s : Session) : (s.fill layers).Alike s := ⟨rfl, rfl, rfl, rfl⟩

/-- A later session, with the tokens taken back to where they were before and the nodes forgotten
that have been added since. -/
def undo (s t : Session) : Session :=
  { t with
    tokens := t.tokens.restore s.tokens.checkpoint
    arena := t.arena.truncate s.arena.size }

/-- Whether reading can have come from one session to another one. -/
structure Grows (layers : Nat) (s t : Session) : Prop where
  arena : s.arena.Keeps t.arena
  nesting : t.nesting = s.nesting
  depth : t.depth = s.depth
  lexer : t.tokens.lexer = s.tokens.lexer
  size? : t.size? = s.size? ∨ t.size? = (s.fill layers).size?

namespace Grows

theorem refl (s : Session) : s.Grows layers s :=
  ⟨.refl _, rfl, rfl, rfl, .inl rfl⟩

theorem trans (first : s.Grows layers t) (second : t.Grows layers u) : s.Grows layers u where
  arena := first.arena.trans second.arena
  nesting := second.nesting.trans first.nesting
  depth := second.depth.trans first.depth
  lexer := second.lexer.trans first.lexer
  size? := by
    obtain once | once := second.size?
    · rw [once]
      exact first.size?
    · right
      rw [once]
      obtain kept | filled := first.size?
      · rw [fill, kept]
        rfl
      · rw [← fill_fill s, fill, filled]
        rfl

theorem of_same (same : t = s ∨ t = s.fill layers) : s.Grows layers t := by
  obtain rfl | rfl := same
  · exact refl t
  · exact ⟨.refl _, rfl, rfl, rfl, .inr rfl⟩

/-- Going back undoes everything but looking up the size of the cube. -/
theorem undo (grows : s.Grows layers t) : s.undo t = s ∨ s.undo t = s.fill layers := by
  have back : t.tokens.restore s.tokens.checkpoint = s.tokens := by
    rw [Tokenizer.restore, Tokenizer.checkpoint, grows.lexer]
  rw [Session.undo, back, grows.arena.truncate, grows.nesting, grows.depth]
  obtain kept | filled := grows.size?
  · left
    rw [kept]
  · right
    rw [filled]
    rfl

end Grows

end Session

namespace Action

variable {α β : Type} {layers : Nat}

theorem bind_on (m : Action α) (f : α → Action β) (s : Session) :
    (m >>= f) s = match m s with
      | (.ok a, t) => f a t
      | (.error halt, t) => (.error halt, t) := by
  have begun : (m >>= f) s = ExceptT.bindCont f (m s).1 (m s).2 := rfl
  rw [begun]
  rcases m s with ⟨halt | a, t⟩ <;> rfl

theorem gatherAt_on (range : Range) (m : Action α) (s : Session) :
    gatherAt range m s = match m s with
      | (.ok a, t) => (.ok a, { t with arena := t.arena.setRangesFrom s.arena.size range })
      | (.error halt, t) => (.error halt, t) :=
  bind_on m _ s

theorem cubeSize_on (layers : Nat) (range : Range) (s : Session) :
    cubeSize layers range s = match s.size?, Size.ofNat? layers with
      | some size, _ => (.ok size, s)
      | none, .ok size => (.ok size, { s with size? := some size })
      | none, .error fault => (.error (.problem { problem := .noCube fault, range }), s) := by
  rw [cubeSize, bind_on]
  obtain ⟨tokens, arena, nesting, depth, size | size⟩ := s
  · cases Size.ofNat? layers <;> rfl
  · rfl

/-- Whether an action only goes on, and does so whether or not the size of the cube has been looked
up before. -/
structure Steady (layers : Nat) (m : Action α) : Prop where
  grows : ∀ s : Session, s.Grows layers (m s).2
  same : ∀ s : Session, m (s.fill layers) = ((m s).1, (m s).2.fill layers)

namespace Steady

/-! ### Actions one after the other -/

theorem pure (a : α) : Steady layers (Pure.pure a : Action α) := ⟨.refl, fun _ => rfl⟩

theorem halt (halt : Halt) : Steady layers (throw halt : Action α) := ⟨.refl, fun _ => rfl⟩

theorem fail (d : Diagnostic) : Steady layers (fail d : Action α) := halt (.problem d)

theorem bind {m : Action α} {f : α → Action β} (first : Steady layers m)
    (next : ∀ a, Steady layers (f a)) : Steady layers (m >>= f) where
  grows s := by
    have begun := first.grows s
    rw [bind_on]
    rcases outcome : m s with ⟨halt | a, t⟩
    · rw [outcome] at begun
      exact begun
    · rw [outcome] at begun
      exact begun.trans ((next a).grows t)
  same s := by
    rw [bind_on, bind_on, first.same s]
    rcases m s with ⟨halt | a, t⟩
    · rfl
    · exact (next a).same t

/-- What is done may depend on the session, but not on the size of the cube in it. -/
theorem get_bind {f : Session → Action β} (blind : ∀ s, f (s.fill layers) = f s)
    (next : ∀ s, Steady layers (f s)) : Steady layers (get >>= f) where
  grows s := (next s).grows s
  same s := by
    change f (s.fill layers) (s.fill layers) = _
    rw [blind]
    exact (next s).same s

theorem ite {p : Prop} [Decidable p] {m n : Action α} (yes : Steady layers m)
    (no : Steady layers n) : Steady layers (if p then m else n) := by
  split
  · exact yes
  · exact no

theorem check (checked : Except Diagnostic α) : Steady layers (check checked) := by
  cases checked with
  | ok a => exact pure a
  | error d => exact fail d

theorem range (start stop : Nat) : Steady layers (range start stop) :=
  ite (pure _) (halt _)

/-! ### Tokens and nodes -/

theorem next : Steady layers next where
  grows s := ⟨.refl _, rfl, rfl, s.tokens.lexer_next, .inl rfl⟩
  same _ := rfl

theorem peek : Steady layers peek where
  grows s := ⟨.refl _, rfl, rfl, by
    change s.tokens.peek.2.lexer = _
    rw [Tokenizer.peek_snd], .inl rfl⟩
  same _ := rfl

theorem peekIf (matters : Bool) (other : Token) : Steady layers (peekIf matters other) :=
  ite peek (pure other)

theorem checkpoint : Steady layers checkpoint := get_bind (fun _ => rfl) fun _ => pure _

theorem restore (c : Checkpoint) : Steady layers (restore c) where
  grows _ := ⟨.refl _, rfl, rfl, rfl, .inl rfl⟩
  same _ := rfl

theorem scope : Steady layers scope :=
  get_bind (fun _ => rfl) fun _ => get_bind (fun _ => rfl) fun _ => pure _

theorem add (content : Content) (range : Range) : Steady layers (add content range) where
  grows s := ⟨Arena.keeps_push s.arena _, rfl, rfl, rfl, .inl rfl⟩
  same _ := rfl

theorem rangeOf (id : Nat) : Steady layers (rangeOf id) :=
  get_bind (fun _ => rfl) fun _ => pure _

theorem cover (range : Range) (id : Nat) : Steady layers (cover range id) :=
  (rangeOf id).bind fun _ => pure _

theorem wrap (ids : List Nat) : Steady layers (wrap ids) :=
  get_bind (fun _ => rfl) fun _ => add _ _

theorem gatherAt (range : Range) {m : Action α} (inner : Steady layers m) :
    Steady layers (gatherAt range m) where
  grows s := by
    have grows := inner.grows s
    rw [gatherAt_on]
    rcases outcome : m s with ⟨halt | a, t⟩
    · rw [outcome] at grows
      exact grows
    · rw [outcome] at grows
      exact { grows with arena := grows.arena.setRangesFrom range }
  same s := by
    rw [gatherAt_on, gatherAt_on, inner.same s]
    rcases m s with ⟨halt | a, t⟩ <;> rfl

/-! ### Inside something -/

theorem nest {m : Action α} (inner : Steady layers m) : Steady layers (nest m) where
  grows s := by
    have grows := inner.grows { s with nesting := s.nesting + 1 }
    exact ⟨grows.arena, congrArg (· - 1) grows.nesting, grows.depth, grows.lexer, grows.size?⟩
  same s := by
    have same := inner.same { s with nesting := s.nesting + 1 }
    rw [Action.nest, Action.nest]
    exact congrArg (fun o => (o.1, { o.2 with nesting := o.2.nesting - 1 })) same

theorem inside (tokens : Tokenizer) {m : Action α} (inner : Steady layers m) :
    Steady layers (inside tokens m) where
  grows s := by
    have grows := inner.grows { s with tokens, depth := s.depth + 1 }
    exact ⟨grows.arena, grows.nesting, congrArg (· - 1) grows.depth, rfl, grows.size?⟩
  same s := by
    have same := inner.same { s with tokens, depth := s.depth + 1 }
    rw [Action.inside, Action.inside]
    exact congrArg (fun o => (o.1, { o.2 with tokens := s.tokens, depth := o.2.depth - 1 })) same

theorem mapProblem (f : Diagnostic → Diagnostic) {m : Action α} (inner : Steady layers m) :
    Steady layers (mapProblem f m) where
  grows s := by
    have grows := inner.grows s
    rw [Action.mapProblem]
    split
    · rename_i outcome
      rw [outcome] at grows
      exact grows
    · exact grows
  same s := by
    rw [Action.mapProblem, Action.mapProblem, inner.same s]
    rcases m s with ⟨(d | _ | _) | a, t⟩ <;> rfl

theorem cubeSize (range : Range) : Steady layers (cubeSize layers range) where
  grows s := by
    rw [cubeSize_on]
    cases known : s.size? with
    | some size => exact .refl s
    | none =>
      cases found : Size.ofNat? layers with
      | error fault => exact .refl s
      | ok size =>
        refine ⟨.refl _, rfl, rfl, rfl, .inr ?_⟩
        rw [Session.fill, known, found]
        rfl
  same s := by
    rw [cubeSize_on, cubeSize_on, Session.fill]
    cases known : s.size? with
    | some size => simp [Session.fill, known]
    | none =>
      cases found : Size.ofNat? layers <;> simp [Session.fill, known, found, Except.toOption]

theorem loop {step : α → Action (α ⊕ β)} (steps : ∀ a, Steady layers (step a)) (a : α) :
    Steady layers (loop step a) where
  grows s := by
    fun_induction Action.loop step a s with
    | case1 a s halt t outcome =>
      have grows := (steps a).grows s
      rwa [outcome] at grows
    | case2 a s b t outcome =>
      have grows := (steps a).grows s
      rwa [outcome] at grows
    | case3 a s next t outcome shorter ih =>
      have grows := (steps a).grows s
      rw [outcome] at grows
      exact grows.trans ih
    | case4 a s next t outcome longer =>
      have grows := (steps a).grows s
      rwa [outcome] at grows
  same s := by
    fun_induction Action.loop step a s with
    | case1 a s halt t outcome => rw [Action.loop, (steps a).same s, outcome]
    | case2 a s b t outcome => rw [Action.loop, (steps a).same s, outcome]
    | case3 a s next t outcome shorter ih =>
      rw [Action.loop, (steps a).same s, outcome]
      exact (if_pos shorter).trans ih
    | case4 a s next t outcome longer =>
      rw [Action.loop, (steps a).same s, outcome]
      exact if_neg longer

end Steady

/-! ### Relations between actions -/

/-- A relation between actions that is kept when actions are put together. Everything steady is
related to itself. -/
structure Congruence (layers : Nat) where
  Rel : {α : Type} → Action α → Action α → Prop
  of_steady : ∀ {α : Type} {m : Action α}, Steady layers m → Rel m m
  bind : ∀ {α β : Type} {m n : Action α} {f g : α → Action β}, Rel m n →
    (∀ a, Rel (f a) (g a)) → Rel (m >>= f) (n >>= g)
  loop : ∀ {α β : Type} {step other : α → Action (α ⊕ β)}, (∀ a, Rel (step a) (other a)) →
    ∀ a, Rel (Action.loop step a) (Action.loop other a)

namespace Congruence

variable (R : Congruence layers)

/-- First do something steady. -/
theorem after {m : Action α} {f g : α → Action β} (first : Steady layers m)
    (next : ∀ a, R.Rel (f a) (g a)) : R.Rel (m >>= f) (m >>= g) :=
  R.bind (R.of_steady first) next

/-- Then do something steady. -/
theorem before {m n : Action α} {f : α → Action β} (first : R.Rel m n)
    (next : ∀ a, Steady layers (f a)) : R.Rel (m >>= f) (n >>= f) :=
  R.bind first fun a => R.of_steady (next a)

theorem ite {p : Prop} [Decidable p] {m n k l : Action α} (yes : R.Rel m n) (no : R.Rel k l) :
    R.Rel (if p then m else k) (if p then n else l) := by
  split
  · exact yes
  · exact no

/-- To be steady is a relation to whatever it may be. -/
def steady (layers : Nat) : Congruence layers where
  Rel m _ := Steady layers m
  of_steady := id
  bind := Steady.bind
  loop := Steady.loop

end Congruence

end Action

end CubeScript
