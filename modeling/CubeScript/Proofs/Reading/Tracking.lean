import CubeScript.Proofs.Reading.Stopping
import CubeScript.Proofs.Script.Outlines
import CubeScript.Proofs.Text.Scanning

/-!
# Readers that go side by side

Two readers of one language read two lists of tokens. The lists are the same up to where the tokens
stand, and from some place on they may be swapped for one another. Both readers then come to the
same decisions all the way, as long as what is read at a swap is the same and the tokens there mean
nothing to the statement before them (`Reader.Inert`).

The first reader may stop at errors of some kind where the second one goes on. If limits are among
them, the second reader may have more room. All this is in `Agrees`, and it is shown once for each
function: whenever the readers inside agree, so does the function (`Reader.agrees_readStatement`).

Where a token stands only gets into the ranges of statements and errors. No decision depends on it,
except which of several errors is reported.
-/

namespace CubeScript

/-- Whether two outcomes agree: they are related, or both are errors, or the first one stops. -/
inductive Agrees (stops : Diagnostic → Bool) {α β : Type} (related : α → β → Prop) :
    Except Diagnostic α → Except Diagnostic β → Prop where
  | ok {a : α} {b : β} (same : related a b) : Agrees stops related (.ok a) (.ok b)
  | errors (d e : Diagnostic) : Agrees stops related (.error d) (.error e)
  | stopped {d : Diagnostic} (stopped : stops d) (outcome : Except Diagnostic β) :
      Agrees stops related (.error d) outcome

namespace Agrees

variable {stops : Diagnostic → Bool} {α β γ δ : Type} {related : α → β → Prop}
  {relatedToo : γ → δ → Prop}

theorem bind {a : Except Diagnostic α} {b : Except Diagnostic β} {f : α → Except Diagnostic γ}
    {g : β → Except Diagnostic δ} (first : Agrees stops related a b)
    (second : ∀ x y, related x y → Agrees stops relatedToo (f x) (g y)) :
    Agrees stops relatedToo (a >>= f) (b >>= g) := by
  cases first with
  | ok same => exact second _ _ same
  | errors d e => exact .errors d e
  | stopped yes outcome => exact .stopped yes _

/-- A decision that both make in the same way. -/
theorem ite {a c : Except Diagnostic α} {b d : Except Diagnostic β} {p q : Prop} [Decidable p]
    [Decidable q] (same : p ↔ q) (yes : p → Agrees stops related a b)
    (no : ¬ p → Agrees stops related c d) :
    Agrees stops related (if p then a else c) (if q then b else d) := by
  by_cases h : p
  · rw [if_pos h, if_pos (same.1 h)]
    exact yes h
  · rw [if_neg h, if_neg fun hq => h (same.2 hq)]
    exact no h

/-- The first reader has not stopped, so the second one finds something if the first one does. -/
theorem ok_of_ok {a : α} {b : Except Diagnostic β} (agrees : Agrees stops related (.ok a) b) :
    ∃ x, b = .ok x ∧ related a x := by
  cases agrees with
  | ok same => exact ⟨_, rfl, same⟩

theorem error_of_error {d : Diagnostic} {b : Except Diagnostic β}
    (agrees : Agrees stops related (.error d) b) (goes : ¬ stops d) : ∃ e, b = .error e := by
  cases agrees with
  | errors _ e => exact ⟨e, rfl⟩
  | stopped yes => exact absurd yes goes

end Agrees

/-- Whether two lists of tokens are the same up to where the tokens stand, or are so up to a place
from which on they may be swapped. -/
inductive Tracks (Swaps : List Token → List Token → Prop) : List Token → List Token → Prop where
  | nil : Tracks Swaps [] []
  | cons {t u : Token} {ts us : List Token} (same : t.lexeme = u.lexeme)
    (later : Tracks Swaps ts us) : Tracks Swaps (t :: ts) (u :: us)
  | swap {ts us : List Token} (swap : Swaps ts us) : Tracks Swaps ts us

namespace Tracks

variable {Swaps : List Token → List Token → Prop}

theorem of_lexemes {ts us : List Token} (same : ts.map Token.lexeme = us.map Token.lexeme) :
    Tracks Swaps ts us := by
  induction ts generalizing us with
  | nil =>
    obtain rfl := List.map_eq_nil_iff.1 same.symm
    exact .nil
  | cons t ts ih =>
    obtain ⟨u, us, rfl, first, rest⟩ := List.map_eq_cons_iff.1 same.symm
    exact .cons first.symm (ih rest.symm)

theorem refl (ts : List Token) : Tracks Swaps ts ts := .of_lexemes rfl

/-- Behind the same tokens. -/
theorem append {as bs ts us : List Token} (before : as.map Token.lexeme = bs.map Token.lexeme)
    (tracks : Tracks Swaps ts us) : Tracks Swaps (as ++ ts) (bs ++ us) := by
  induction as generalizing bs with
  | nil =>
    obtain rfl := List.map_eq_nil_iff.1 before.symm
    exact tracks
  | cons a as ih =>
    obtain ⟨b, bs, rfl, first, rest⟩ := List.map_eq_cons_iff.1 before.symm
    exact .cons first.symm (ih rest.symm)

end Tracks

theorem Token.exists_eq_of_lexeme {t u : Token} (same : t.lexeme = u.lexeme) :
    ∃ range, u = { t with range } := by
  obtain ⟨kind, text, range⟩ := t
  obtain ⟨otherKind, otherText, place⟩ := u
  cases same
  exact ⟨place, rfl⟩

theorem Dialect.symbolsOf_eq_of_lexeme (d : Dialect) {t u : Token} (same : t.lexeme = u.lexeme) :
    d.symbolsOf u = d.symbolsOf t := by
  obtain ⟨range, rfl⟩ := Token.exists_eq_of_lexeme same
  rfl

namespace Reader

/-! ### Tokens that mean nothing to the statement before them -/

/-- Whether a token ends no statements, goes on with none and has no place in a cycle. -/
structure Inert (r : Reader) (t : Token) : Prop where
  kind : t.kind ≠ .number
  closes : (r.dialect.symbolsOf t).intersects allClosings = false
  counts : r.countsNext t = false
  behind : ∀ next, r.behind? t next = none
  sign : (r.dialect.symbolsOf t).sign? = none
  face : ∀ face, (r.dialect.symbolsOf t).contains (.face face) = false
  unsigned : r.dialect.accepts .permutation .before = false

/-- Whether readers tell two tokens apart, other than as the beginnings of statements. -/
def SameHead (r : Reader) (t u : Token) : Prop := t.lexeme = u.lexeme ∨ r.Inert t ∧ r.Inert u

/-- Whether a set only has symbols that end a sequence of statements somewhere. -/
def Closing (stop : SymbolSet) : Prop := ∀ s, stop.contains s → allClosings.contains s

section

variable {r : Reader}

theorem contains_allClosings_end {c : Construct} {s : Symbol} (ends : c.end? = some s) :
    allClosings.contains s := by
  cases c <;> cases ends <;> decide

theorem contains_allClosings_delimiter {c : Construct} {s : Symbol}
    (separates : c.delimiter? = some s) : allClosings.contains s := by
  cases c <;> cases separates <;> decide

theorem closing_empty : Closing .empty := by
  intro s member
  rw [SymbolSet.contains_empty] at member
  cases member

theorem closing_closings (candidates : List Construct) : Closing (closings candidates) := by
  intro s member
  rw [closings, SymbolSet.contains_ofList, decide_eq_true_iff, List.mem_filterMap] at member
  obtain ⟨c, _, ends⟩ := member
  exact contains_allClosings_end ends

theorem closing_firstStops (candidates : List Construct) : Closing (r.firstStops candidates) := by
  intro s member
  rw [firstStops, SymbolSet.contains_ofList, decide_eq_true_iff, List.mem_flatMap] at member
  obtain ⟨c, _, member⟩ := member
  obtain ends | separates := List.mem_append.1 member
  · exact contains_allClosings_end (Option.mem_toList.1 ends)
  · split at separates
    · exact contains_allClosings_delimiter (Option.mem_toList.1 separates)
    · cases separates

namespace Inert

variable {t : Token} (inert : r.Inert t)

include inert

theorem contains {s : Symbol} (closes : allClosings.contains s) :
    (r.dialect.symbolsOf t).contains s = false := by
  rw [Bool.eq_false_iff]
  intro means
  have intersects := SymbolSet.intersects_iff.2 ⟨s, means, closes⟩
  rw [inert.closes] at intersects
  cases intersects

theorem faces : (r.dialect.symbolsOf t).faces.head? = none := by
  rw [List.head?_eq_none_iff, SymbolSet.faces, List.filterMap_eq_nil_iff]
  intro s member
  cases s with
  | face face =>
    rw [SymbolSet.mem_toList, inert.face] at member
    cases member
  | _ => rfl

theorem intersects {stop : SymbolSet} (closing : Closing stop) :
    (r.dialect.symbolsOf t).intersects stop = false := by
  rw [Bool.eq_false_iff]
  intro intersects
  obtain ⟨s, means, member⟩ := SymbolSet.intersects_iff.1 intersects
  rw [inert.contains (closing s member)] at means
  cases means

theorem has_end (c : Construct) : has (r.dialect.symbolsOf t) c.end? = false := by
  cases ends : c.end? with
  | none => rfl
  | some s => exact inert.contains (contains_allClosings_end ends)

theorem has_delimiter (c : Construct) : has (r.dialect.symbolsOf t) c.delimiter? = false := by
  cases separates : c.delimiter? with
  | none => rfl
  | some s => exact inert.contains (contains_allClosings_delimiter separates)

theorem delimitedBy (candidates : List Construct) : r.delimitedBy t candidates = [] := by
  rw [Reader.delimitedBy, List.filter_eq_nil_iff]
  intro c _
  simp [inert.has_delimiter c]

theorem closedBy (hasSecond : Bool) (candidates : List Construct) :
    r.closedBy t hasSecond candidates = [] := by
  rw [Reader.closedBy, List.filter_eq_nil_iff]
  intro c _
  simp [inert.has_end c]

end Inert

namespace SameHead

variable {t u : Token} (same : r.SameHead t u)

include same

theorem intersects {stop : SymbolSet} (closing : Closing stop) :
    (r.dialect.symbolsOf t).intersects stop = (r.dialect.symbolsOf u).intersects stop := by
  obtain equal | ⟨inert, inertToo⟩ := same
  · rw [r.dialect.symbolsOf_eq_of_lexeme equal]
  · rw [inert.intersects closing, inertToo.intersects closing]

theorem contains {s : Symbol} (closes : allClosings.contains s) :
    (r.dialect.symbolsOf t).contains s = (r.dialect.symbolsOf u).contains s := by
  obtain equal | ⟨inert, inertToo⟩ := same
  · rw [r.dialect.symbolsOf_eq_of_lexeme equal]
  · rw [inert.contains closes, inertToo.contains closes]

theorem countsNext : r.countsNext t = r.countsNext u := by
  obtain equal | ⟨inert, inertToo⟩ := same
  · obtain ⟨range, rfl⟩ := Token.exists_eq_of_lexeme equal
    rfl
  · rw [inert.counts, inertToo.counts]

theorem delimitedBy (candidates : List Construct) :
    r.delimitedBy t candidates = r.delimitedBy u candidates := by
  obtain equal | ⟨inert, inertToo⟩ := same
  · obtain ⟨range, rfl⟩ := Token.exists_eq_of_lexeme equal
    rfl
  · rw [inert.delimitedBy, inertToo.delimitedBy]

theorem closedBy (hasSecond : Bool) (candidates : List Construct) :
    r.closedBy t hasSecond candidates = r.closedBy u hasSecond candidates := by
  obtain equal | ⟨inert, inertToo⟩ := same
  · obtain ⟨range, rfl⟩ := Token.exists_eq_of_lexeme equal
    rfl
  · rw [inert.closedBy, inertToo.closedBy]

theorem behind? {next other : Token} (sameNext : r.SameHead next other) :
    r.behind? t next = r.behind? u other := by
  obtain equal | ⟨inert, inertToo⟩ := same
  · obtain ⟨range, rfl⟩ := Token.exists_eq_of_lexeme equal
    simp only [Reader.behind?, sameNext.countsNext]
    rfl
  · rw [inert.behind, inertToo.behind]

end SameHead

/-! ### What both lists begin with -/

/-- Whether all swaps are made at inert tokens. -/
def InertSwaps (r : Reader) (Swaps : List Token → List Token → Prop) : Prop :=
  ∀ ts us, Swaps ts us →
    ∃ t left u right, ts = t :: left ∧ us = u :: right ∧ r.Inert t ∧ r.Inert u

variable {Swaps : List Token → List Token → Prop} (swaps : r.InertSwaps Swaps)

include swaps

theorem eq_nil_of_tracks {us : List Token} (tracks : Tracks Swaps [] us) : us = [] := by
  cases tracks with
  | nil => rfl
  | swap swap =>
    obtain ⟨_, _, _, _, none, _⟩ := swaps _ _ swap
    cases none

/-- Whether two lists of tokens begin with the same token and go on tracking each other, or begin
with inert ones. -/
def Goes (r : Reader) (Swaps : List Token → List Token → Prop) (t : Token) (ts : List Token)
    (u : Token) (us : List Token) : Prop :=
  t.lexeme = u.lexeme ∧ Tracks Swaps ts us ∨ r.Inert t ∧ r.Inert u

omit swaps in
theorem Goes.sameHead {t u : Token} {ts us : List Token} (goes : r.Goes Swaps t ts u us) :
    r.SameHead t u :=
  goes.imp And.left id

theorem exists_goes {t : Token} {ts us : List Token} (tracks : Tracks Swaps (t :: ts) us) :
    ∃ u right, us = u :: right ∧ r.Goes Swaps t ts u right := by
  cases tracks with
  | cons same later => exact ⟨_, _, rfl, .inl ⟨same, later⟩⟩
  | swap swap =>
    obtain ⟨_, _, u, right, first, rfl, inert, inertToo⟩ := swaps _ _ swap
    cases first
    exact ⟨u, right, rfl, .inr ⟨inert, inertToo⟩⟩

theorem sameHead_peek {ts us : List Token} (tracks : Tracks Swaps ts us) (scope outer : Scope) :
    r.SameHead (scope.peek ts) (outer.peek us) := by
  cases ts with
  | nil =>
    obtain rfl := eq_nil_of_tracks swaps tracks
    exact .inl rfl
  | cons t ts =>
    obtain ⟨u, us, rfl, goes⟩ := exists_goes swaps tracks
    exact goes.sameHead

end

end Reader

/-- Whether two readings give something related and go on with tokens that track each other. -/
def Beside {α β : Type} (related : α → β → Prop) (Swaps : List Token → List Token → Prop)
    {ts us : List Token} (a : α × Suffix ts) (b : β × Suffix us) : Prop :=
  related a.1 b.1 ∧ Tracks Swaps a.2.1 b.2.1

end CubeScript
