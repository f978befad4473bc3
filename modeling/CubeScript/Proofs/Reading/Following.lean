import CubeScript.Proofs.Reading.Backtracking
import CubeScript.Proofs.Reading.Outcomes

/-!
# Actions that follow readings

A session is about to read some tokens if its tokenizer has them left (`Session.At`). An action
follows a reading of these tokens if it comes to the same: it stops with the same problem, or it
goes on to a session that is about to read the tokens which the reading has left, with a value that
agrees with what has been read (`Follows`). A statement agrees with the number of its node in the
arena that it is laid out in. What follows is put together from smaller actions that follow smaller
readings, and from steps on the session that a reading does not need.
-/

namespace CubeScript

open Reading

/-- Whether a session is about to read some tokens of a text, and there may be so many more levels
of statements. -/
structure Session.At (r : Reader) (scope : Scope) (levels : Nat) (ts : List Token) (s : Session) :
    Prop where
  lexer : s.tokens.lexer = r.lexer
  sound : s.tokens.Sound
  remaining : s.tokens.remaining = ts
  textEnd : s.tokens.textEnd = scope.textEnd
  depth : s.depth = scope.depth
  nesting : s.nesting + levels = r.maxNesting
  size? : ∀ size ∈ s.size?, Size.ofNat? r.dialect.layers = .ok size

namespace Session.At

variable {r : Reader} {scope : Scope} {levels : Nat} {s t : Session} {ts us : List Token}

theorem next_fst (now : s.At r scope levels ts) : s.tokens.next.1 = scope.peek ts := by
  rw [Tokenizer.next_eq_headD now.sound, now.remaining, now.textEnd]
  rfl

theorem next_snd (now : s.At r scope levels ts) :
    { s with tokens := s.tokens.next.2 }.At r scope levels ts.tail :=
  { now with
    lexer := s.tokens.lexer_next.trans now.lexer
    sound := s.tokens.sound_next
    remaining := (Tokenizer.remaining_next now.sound).trans (congrArg List.tail now.remaining)
    textEnd := s.tokens.textEnd_next.trans now.textEnd }

theorem peek_snd (now : s.At r scope levels ts) :
    { s with tokens := s.tokens.peek.2 }.At r scope levels ts :=
  { now with
    lexer := by
      rw [Tokenizer.peek_snd]
      exact now.lexer
    sound := Tokenizer.sound_peek now.sound
    remaining := (Tokenizer.remaining_peek now.sound).trans now.remaining
    textEnd := by
      rw [Tokenizer.peek_snd]
      exact s.tokens.textEnd_next.trans now.textEnd }

theorem restore (before : s.At r scope levels ts) (now : t.At r scope levels us) :
    { t with tokens := t.tokens.restore s.tokens.checkpoint }.At r scope levels ts := by
  have back : t.tokens.restore s.tokens.checkpoint = s.tokens := by
    rw [Tokenizer.restore, Tokenizer.checkpoint, now.lexer, ← before.lexer]
  rw [back]
  exact ⟨before.lexer, before.sound, before.remaining, before.textEnd, now.depth, now.nesting,
    now.size?⟩

theorem add (now : s.At r scope levels ts) (arena : Arena) :
    { s with arena }.At r scope levels ts := { now with }

theorem fill (now : s.At r scope levels ts) :
    (s.fill r.dialect.layers).At r scope levels ts :=
  { now with
    size? := by
      intro size known
      cases looked : s.size? with
      | some found =>
        rw [Session.fill, looked] at known
        exact now.size? size (looked.trans known)
      | none =>
        rw [Session.fill, looked] at known
        cases found : Size.ofNat? r.dialect.layers with
        | error fault =>
          rw [found] at known
          cases known
        | ok other =>
          rw [found] at known
          cases known
          rfl }

/-- A session begins with the tokens of the whole text. -/
theorem start (r : Reader) (text : String) :
    Session.At r ⟨text.utf8ByteSize, 0⟩ r.maxNesting (r.lexer.tokens text)
      { tokens := .start r.lexer text } :=
  ⟨rfl, Tokenizer.sound_of_not rfl, rfl, Tokenizer.textEnd_start .., rfl, Nat.zero_add _, nofun⟩

/-- The text of a shorthand is read from its beginning. -/
theorem inside (now : s.At r scope levels ts) (body : String) :
    { s with tokens := .start r.lexer body, depth := s.depth + 1 }.At r
      ⟨body.utf8ByteSize, scope.depth + 1⟩ levels (r.lexer.tokens body) :=
  ⟨rfl, Tokenizer.sound_of_not rfl, rfl, Tokenizer.textEnd_start ..,
    congrArg (· + 1) now.depth, now.nesting, now.size?⟩

/-- Behind a shorthand the text around it goes on. -/
theorem outside (before : s.At r scope levels ts) {length : Nat}
    (now : t.At r ⟨length, scope.depth + 1⟩ levels us) :
    { t with tokens := s.tokens, depth := t.depth - 1 }.At r scope levels ts :=
  ⟨before.lexer, before.sound, before.remaining, before.textEnd, congrArg (· - 1) now.depth,
    now.nesting, now.size?⟩

/-- A token that is left is not the end of the text. -/
theorem isEnd_peek_cons {t : Token} (now : s.At r scope levels (t :: ts)) : t.isEnd = false :=
  (Tokenizer.next_cons now.remaining).2.2

end Session.At

/-- Whether what an action does to a session comes to the same as a reading. -/
def Follows (r : Reader) (scope : Scope) (levels : Nat) {α β : Type} {ts : List Token}
    (Agrees : α → β → Arena → Prop) (s : Session) (m : Action β) (reading : Reading α ts) : Prop :=
  match reading with
  | .error d => (m s).1 = .error (.problem d)
  | .ok (a, rest) =>
    ∃ b t, m s = (.ok b, t) ∧ t.At r scope levels rest.1 ∧ Agrees a b t.arena

namespace Follows

open CubeScript.Action

variable {r : Reader} {scope : Scope} {levels : Nat} {α β γ δ : Type} {ts us vs : List Token}
  {Agrees : α → β → Arena → Prop} {Meets : γ → δ → Arena → Prop} {s : Session}

/-! ### Values and problems -/

theorem pure {a : α} {b : β} {rest : Suffix ts} (now : s.At r scope levels rest.1)
    (agrees : Agrees a b s.arena) :
    Follows r scope levels Agrees s (Pure.pure b) (.ok (a, rest)) :=
  ⟨b, s, rfl, now, agrees⟩

theorem fail (d : Diagnostic) :
    Follows r scope levels Agrees s (fail d) (.error d : Reading α ts) := rfl

theorem add {a : α} {rest : Suffix ts} {content : Content} {range : Range}
    {Agrees : α → Nat → Arena → Prop} (now : s.At r scope levels rest.1)
    (agrees : Agrees a (s.arena.add content range).1 (s.arena.add content range).2) :
    Follows r scope levels Agrees s (add content range) (.ok (a, rest)) :=
  ⟨_, _, rfl, now.add _, agrees⟩

/-! ### One after the other -/

/-- Whether an action follows a reading depends only on what it does to the session. -/
theorem of_eq {m n : Action β} {t : Session} {reading : Reading α ts} (same : m s = n t)
    (goes : Follows r scope levels Agrees t n reading) :
    Follows r scope levels Agrees s m reading := by
  unfold Follows at goes ⊢
  rwa [same]

theorem bind {m : Action δ} {f : δ → Action β} {first : Reading γ us}
    {next : γ × Suffix us → Reading α ts} (begins : Follows r scope levels Meets s m first)
    (goes : ∀ c rest d t, Gives first c rest.1 → t.At r scope levels rest.1 → Meets c d t.arena →
      Follows r scope levels Agrees t (f d) (next (c, rest))) :
    Follows r scope levels Agrees s (m >>= f) (first >>= next) := by
  cases outcome : first with
  | error e =>
    rw [outcome] at begins
    change ((m >>= f) s).1 = _
    have failed : (m s).1 = .error (.problem e) := begins
    rw [bind_on]
    rcases went : m s with ⟨result, t⟩
    rw [went] at failed
    obtain rfl : result = .error (.problem e) := failed
    rfl
  | ok a =>
    obtain ⟨c, rest⟩ := a
    rw [outcome] at begins
    obtain ⟨d, t, done, now, meets⟩ := begins
    have after := goes c rest d t (eq_ok_iff.1 outcome) now meets
    exact .of_eq (by rw [bind_on, done]) after

/-- A step on the session that a reading does not need. -/
theorem step {m : Action δ} {f : δ → Action β} {reading : Reading α ts} {d : δ} {t : Session}
    (done : m s = (.ok d, t)) (goes : Follows r scope levels Agrees t (f d) reading) :
    Follows r scope levels Agrees s (m >>= f) reading :=
  .of_eq (by rw [bind_on, done]) goes

/-- What has been read last is put into something larger. -/
theorem last {m : Action β} {first : Reading γ us} {next : γ × Suffix us → Reading α ts}
    {Meets : γ → β → Arena → Prop} (begins : Follows r scope levels Meets s m first)
    (goes : ∀ c rest b t, Gives first c rest.1 → t.At r scope levels rest.1 → Meets c b t.arena →
      Follows r scope levels Agrees t (Pure.pure b) (next (c, rest))) :
    Follows r scope levels Agrees s m (first >>= next) := by
  rw [← bind_pure m]
  exact begins.bind goes

/-- What an action gives is put into something larger, but what has been read is not. -/
theorem into {m : Action δ} {f : δ → Action β} {reading : Reading α ts}
    {Meets : α → δ → Arena → Prop} (begins : Follows r scope levels Meets s m reading)
    (goes : ∀ a rest d t, Gives reading a rest.1 → t.At r scope levels rest.1 →
      Meets a d t.arena → Follows r scope levels Agrees t (f d) (.ok (a, rest) : Reading α ts)) :
    Follows r scope levels Agrees s (m >>= f) reading := by
  rw [← bind_pure reading]
  exact begins.bind goes

theorem check {f : γ → Action β} {checked : Except Diagnostic γ} {next : γ → Reading α ts}
    (goes : ∀ c, checked = .ok c → Follows r scope levels Agrees s (f c) (next c)) :
    Follows r scope levels Agrees s (check checked >>= f) (checked >>= next) := by
  cases outcome : checked with
  | error e => rfl
  | ok c => exact goes c outcome

theorem yes {p : Prop} [Decidable p] {m n : Action β} {reading : Reading α ts} (holds : p)
    (goes : Follows r scope levels Agrees s m reading) :
    Follows r scope levels Agrees s (if p then m else n) reading := by
  rwa [if_pos holds]

theorem no {p : Prop} [Decidable p] {m n : Action β} {reading : Reading α ts} (fails : ¬ p)
    (goes : Follows r scope levels Agrees s n reading) :
    Follows r scope levels Agrees s (if p then m else n) reading := by
  rwa [if_neg fails]

/-- A choice that both make in the same way. -/
theorem ite {p : Prop} [Decidable p] {m n : Action β} {a b : Reading α ts}
    (onYes : p → Follows r scope levels Agrees s m a)
    (onNo : ¬ p → Follows r scope levels Agrees s n b) :
    Follows r scope levels Agrees s (if p then m else n) (if p then a else b) := by
  by_cases h : p
  · rw [if_pos h, if_pos h]
    exact onYes h
  · rw [if_neg h, if_neg h]
    exact onNo h

/-! ### Tokens -/

theorem next_cons {u : Token} {f : Token → Action β} {reading : Reading α ts}
    (now : s.At r scope levels (u :: us))
    (goes : ∀ t, t.At r scope levels us → t.arena = s.arena → u.isEnd ≠ true →
      Follows r scope levels Agrees t (f u) reading) :
    Follows r scope levels Agrees s (next >>= f) reading := by
  refine step rfl ?_
  rw [now.next_fst]
  exact goes _ now.next_snd rfl (Bool.eq_false_iff.1 now.isEnd_peek_cons)

theorem next_nil {f : Token → Action β} {reading : Reading α ts} (now : s.At r scope levels [])
    (goes : ∀ t, t.At r scope levels [] → t.arena = s.arena →
      Follows r scope levels Agrees t (f (.atEnd scope.textEnd)) reading) :
    Follows r scope levels Agrees s (next >>= f) reading := by
  refine step rfl ?_
  rw [now.next_fst]
  exact goes _ now.next_snd rfl

theorem peek {f : Token → Action β} {reading : Reading α ts} (now : s.At r scope levels us)
    (goes : ∀ t, t.At r scope levels us → t.arena = s.arena →
      Follows r scope levels Agrees t (f (scope.peek us)) reading) :
    Follows r scope levels Agrees s (peek >>= f) reading := by
  refine step rfl ?_
  rw [Tokenizer.peek_fst, now.next_fst]
  exact goes _ now.peek_snd rfl

theorem peek_cons {u : Token} {f : Token → Action β} {reading : Reading α ts}
    (now : s.At r scope levels (u :: us))
    (goes : ∀ t, t.At r scope levels (u :: us) → t.arena = s.arena → u.isEnd ≠ true →
      Follows r scope levels Agrees t (f u) reading) :
    Follows r scope levels Agrees s (Action.peek >>= f) reading :=
  peek now fun t later same => goes t later same (Bool.eq_false_iff.1 now.isEnd_peek_cons)

/-- A token that may have been looked at matters only if it has. -/
theorem peekIf {matters : Bool} {other : Token} {f : Token → Action β} {reading : Reading α ts}
    (now : s.At r scope levels us)
    (goes : ∀ t u, (matters → u = scope.peek us) → t.At r scope levels us → t.arena = s.arena →
      Follows r scope levels Agrees t (f u) reading) :
    Follows r scope levels Agrees s (peekIf matters other >>= f) reading := by
  cases matters with
  | true => exact peek now fun t later same => goes t _ (fun _ => rfl) later same
  | false => exact step rfl (goes s other nofun now rfl)

theorem checkpoint {f : Checkpoint → Action β} {reading : Reading α ts}
    (goes : Follows r scope levels Agrees s (f s.tokens.checkpoint) reading) :
    Follows r scope levels Agrees s (checkpoint >>= f) reading :=
  step rfl goes

theorem restore {before : Session} {f : Unit → Action β} {reading : Reading α ts}
    (kept : before.At r scope levels vs) (now : s.At r scope levels us)
    (goes : ∀ t, t.At r scope levels vs → t.arena = s.arena →
      Follows r scope levels Agrees t (f ()) reading) :
    Follows r scope levels Agrees s (restore before.tokens.checkpoint >>= f) reading :=
  step rfl (goes _ (kept.restore now) rfl)

theorem scope' {f : Scope → Action β} {reading : Reading α ts} (now : s.At r scope levels us)
    (goes : Follows r scope levels Agrees s (f scope) reading) :
    Follows r scope levels Agrees s (Action.scope >>= f) reading := by
  refine step rfl ?_
  rwa [now.textEnd, now.depth]

/-! ### Ranges and nodes -/

theorem range {start stop : Nat} {f : Range → Action β} {reading : Reading α ts}
    (ordered : start ≤ stop) (goes : Follows r scope levels Agrees s (f ⟨start, stop⟩) reading) :
    Follows r scope levels Agrees s (range start stop >>= f) reading := by
  rw [Action.range, if_pos ordered]
  exact step rfl goes

theorem rangeOf {id : Nat} {f : Option Range → Action β} {reading : Reading α ts}
    (goes : Follows r scope levels Agrees s (f (s.arena.range? id)) reading) :
    Follows r scope levels Agrees s (rangeOf id >>= f) reading :=
  step rfl goes

theorem cover {range own : Range} {id : Nat} {f : Range → Action β} {reading : Reading α ts}
    (known : s.arena.range? id = some own)
    (goes : Follows r scope levels Agrees s (f (range.cover own)) reading) :
    Follows r scope levels Agrees s (cover range id >>= f) reading := by
  refine step rfl ?_
  rwa [known]

theorem wrap {ids : List Nat} {ranges : List Range} {f : Nat → Action β} {reading : Reading α ts}
    (known : ids.filterMap s.arena.range? = ranges) (now : s.At r scope levels us)
    (goes : ∀ t, t.At r scope levels us →
      t.arena = (s.arena.add (.group .sequence ids) (.spanning ranges)).2 →
      Follows r scope levels Agrees t
        (f (s.arena.add (.group .sequence ids) (.spanning ranges)).1) reading) :
    Follows r scope levels Agrees s (wrap ids >>= f) reading := by
  subst known
  exact step rfl (goes _ (now.add _) rfl)

/-! ### Inside something -/

theorem nest {m : Action β} {reading : Reading α ts} (now : s.At r scope (levels + 1) us)
    (goes : ∀ t, t.At r scope levels us → t.arena = s.arena →
      Follows r scope levels Agrees t m reading) :
    Follows r scope (levels + 1) Agrees s (nest m) reading := by
  have nesting := now.nesting
  have deeper : { s with nesting := s.nesting + 1 }.At r scope levels us :=
    { now with nesting := by dsimp only; omega }
  have went := goes _ deeper rfl
  match reading with
  | .error d => exact went
  | .ok (a, rest) =>
    obtain ⟨b, t, done, later, agrees⟩ := went
    refine ⟨b, { t with nesting := t.nesting - 1 }, ?_, ?_, agrees⟩
    · rw [Action.nest, done]
    · have := later.nesting
      exact { later with nesting := by dsimp only; omega }

/-- What is read of the text of a shorthand is put where the shorthand stands. -/
theorem expand (Meets : γ → δ → Arena → Prop) {body : String} {range : Range}
    {because : Diagnostic → Diagnostic} {m : Action δ} {f : δ → Action β} (reading : Reading γ vs)
    {whole : Reading α ts} (now : s.At r scope levels us)
    (inner : ∀ t, t.At r ⟨body.utf8ByteSize, scope.depth + 1⟩ levels (r.lexer.tokens body) →
      t.arena = s.arena →
        Follows r ⟨body.utf8ByteSize, scope.depth + 1⟩ levels Meets t m reading)
    (fails : ∀ cause, reading = .error cause → whole = .error (because cause))
    (goes : ∀ c rest d larger t, reading = .ok (c, rest) → Meets c d larger →
      t.At r scope levels us → t.arena = larger.setRangesFrom s.arena.size range →
        Follows r scope levels Agrees t (f d) whole) :
    Follows r scope levels Agrees s
      (gatherAt range (mapProblem because (inside (.start r.lexer body) m)) >>= f) whole := by
  have entered := inner _ (now.inside body) rfl
  cases outcome : reading with
  | error cause =>
    rw [outcome] at entered
    have failed : (m { s with tokens := .start r.lexer body, depth := s.depth + 1 }).1 =
        .error (.problem cause) := entered
    rw [fails cause outcome]
    change ((gatherAt range (mapProblem because (inside (.start r.lexer body) m)) >>= f) s).1 = _
    rw [bind_on, gatherAt_on, mapProblem, Action.inside]
    rcases went : m { s with tokens := .start r.lexer body, depth := s.depth + 1 } with ⟨result, t⟩
    rw [went] at failed
    obtain rfl : result = .error (.problem cause) := failed
    rfl
  | ok read =>
    obtain ⟨c, rest⟩ := read
    rw [outcome] at entered
    obtain ⟨d, t, done, later, meets⟩ := entered
    have back := (now.outside later).add (t.arena.setRangesFrom s.arena.size range)
    refine step ?_ (goes c rest d t.arena _ outcome meets back rfl)
    rw [gatherAt_on, mapProblem, Action.inside, done]

theorem cubeSize {range : Range} {f : Size → Action β} {next : Size → Reading α ts}
    (now : s.At r scope levels us)
    (goes : ∀ size t, t.At r scope levels us → t.arena = s.arena →
      Follows r scope levels Agrees t (f size) (next size)) :
    Follows r scope levels Agrees s (cubeSize r.dialect.layers range >>= f)
      (match Size.ofNat? r.dialect.layers with
        | .error fault => .error { problem := .noCube fault, range }
        | .ok size => next size) := by
  cases looked : s.size? with
  | some size =>
    rw [now.size? size looked]
    exact step (by rw [cubeSize_on, looked]) (goes size s now rfl)
  | none =>
    cases found : Size.ofNat? r.dialect.layers with
    | error fault =>
      change ((Action.cubeSize r.dialect.layers range >>= f) s).1 = _
      rw [bind_on, cubeSize_on, looked, found]
    | ok size =>
      have filled : { s with size? := some size }.At r scope levels us :=
        { now with
          size? := by
            rintro _ ⟨⟩
            exact found }
      exact step (by rw [cubeSize_on, looked, found]) (goes size _ filled rfl)

/-! ### Loops -/

/-- A step that gives a result, or stops, ends the loop. -/
theorem loop_last {step : γ → Action (γ ⊕ β)} {c : γ} {reading : Reading α ts}
    (ends : Follows r scope levels (fun a way arena => ∃ b, way = .inr b ∧ Agrees a b arena) s
      (step c) reading) : Follows r scope levels Agrees s (loop step c) reading := by
  match reading with
  | .error d =>
    have failed : (step c s).1 = .error (.problem d) := ends
    change (loop step c s).1 = _
    rw [loop]
    rcases went : step c s with ⟨result, t⟩
    rw [went] at failed
    obtain rfl : result = .error (.problem d) := failed
    rfl
  | .ok (a, rest) =>
    obtain ⟨_, t, done, now, b, rfl, agrees⟩ := ends
    refine ⟨b, t, ?_, now, agrees⟩
    rw [loop, done]

/-- A loop follows a reading that begins with what a step follows and goes on as the loop does. -/
theorem loop_more (Meets : δ → γ → Arena → Prop) {step : γ → Action (γ ⊕ β)} {c : γ}
    {first : Reading δ us} {next : δ × Suffix us → Reading α ts}
    (now : s.At r scope levels vs) (shorter : us.length < vs.length)
    (begins : Follows r scope levels (fun d way arena => ∃ c, way = .inl c ∧ Meets d c arena) s
      (step c) first)
    (goes : ∀ d rest c t, Gives first d rest.1 → t.At r scope levels rest.1 → Meets d c t.arena →
      Follows r scope levels Agrees t (loop step c) (next (d, rest))) :
    Follows r scope levels Agrees s (loop step c) (first >>= next) := by
  cases outcome : first with
  | error e =>
    rw [outcome] at begins
    have stops : Follows r scope levels (fun a way arena => ∃ b, way = .inr b ∧ Agrees a b arena) s
        (step c) (.error e : Reading α ts) := begins
    exact loop_last stops
  | ok a =>
    obtain ⟨d, rest⟩ := a
    rw [outcome] at begins
    obtain ⟨_, t, done, later, c', rfl, meets⟩ := begins
    have after := goes d rest c' t (eq_ok_iff.1 outcome) later meets
    have fewer : t.tokens.remaining.length < s.tokens.remaining.length := by
      rw [later.remaining, now.remaining]
      exact Nat.lt_of_le_of_lt rest.2.length_le shorter
    have went : loop step c s = loop step c' t := by
      rw [loop, done]
      exact if_pos fewer
    exact .of_eq went after

end Follows

end CubeScript
