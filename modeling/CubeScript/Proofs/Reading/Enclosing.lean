import CubeScript.Proofs.Dialect.Shorthands
import CubeScript.Proofs.Reading.Drafting
import CubeScript.Proofs.Reading.Outcomes

/-!
# Putting a text between parentheses

A text that is read by itself is read in the same way in front of a closing parenthesis. No
statement takes the parenthesis, whatever stands in front of it, so each one is read there as it is
read where the text ends (`Reader.exchanges_readStatement`).

It has to be shown of attempts that fail, too. Where a cycle is read because no group can be, none
must be possible in front of other tokens either. There is no opening bracket in a cycle, so a group
could not have got beyond the closing parenthesis of the cycle (`Reader.within_readStatement`), and
what it takes up to there is taken in front of all tokens or none.
-/

namespace CubeScript

open Lexeme (mark)

/-- Whether a token opens no bracket. -/
def Token.IsPlain (t : Token) : Prop := ∀ w ∈ Lexeme.openers, t.lexeme ≠ mark w

namespace Reader

open Reading

/-! ### In front of other tokens -/

/-- Whether no statement goes on with some tokens: there are none, or a closing parenthesis is the
first of them. -/
def Ended (ts : List Token) : Prop := ∀ t ∈ ts.head?, t.lexeme = mark ")"

/-- Whether a statement that is read in front of some tokens is read in front of others, too. -/
def Exchanges (nested : Nested) (rest left : List Token) : Prop :=
  ∀ scope context other t xs ys s, Gives (nested scope context t (xs ++ rest)) s (ys ++ rest) →
    Gives (nested scope other t (xs ++ left)) s (ys ++ left)

theorem ended_nil : Ended [] := nofun

theorem ended_cons {t : Token} (closes : t.lexeme = mark ")") (ts : List Token) :
    Ended (t :: ts) := by
  rintro _ ⟨⟩
  exact closes

/-- A token is none of those behind if all of these are left. -/
theorem exists_cons_of_suffix {t : Token} {xs ys us rest : List Token}
    (whole : xs ++ rest = t :: us) (suffix : ys ++ rest <:+ us) :
    ∃ zs, xs = t :: zs ∧ us = zs ++ rest := by
  cases xs with
  | nil =>
    have long := suffix.length_le
    rw [List.nil_append] at whole
    rw [whole, List.length_append, List.length_cons] at long
    omega
  | cons x xs =>
    obtain ⟨rfl, rfl⟩ := List.cons.inj whole
    exact ⟨xs, rfl, rfl⟩

theorem exists_append_of_suffix {ys rest ts : List Token} (suffix : ys ++ rest <:+ ts) :
    ∃ zs, ts = zs ++ rest := by
  obtain ⟨as, rfl⟩ := suffix
  exact ⟨as ++ ys, (List.append_assoc ..).symm⟩

theorem ne_nil_of_suffix {y : Token} {xs ys rest : List Token}
    (suffix : y :: (ys ++ rest) <:+ xs ++ rest) : xs ≠ [] := by
  rintro rfl
  have long := suffix.length_le
  rw [List.nil_append, List.length_cons, List.length_append] at long
  omega

section

variable {r : Reader} {nested : Nested} {rest left : List Token}
  (inner : Exchanges nested rest left) {scope : Scope} {context other : Diagnostic.Context}
  {xs ys : List Token} {s : Statement}

/-- A reading that takes nothing. -/
theorem exchange_ok {a : Statement} (given : Gives (.ok (a, .all (xs ++ rest))) s (ys ++ rest)) :
    Gives (.ok (a, .all (xs ++ left))) s (ys ++ left) := by
  obtain ⟨same, whole⟩ := gives_ok_iff.1 given
  exact gives_ok_iff.2 ⟨same, congrArg (· ++ left) (List.append_cancel_right whole)⟩

include inner

theorem exchange_readSequence {stop : SymbolSet} {ss : List Statement} {y : Token}
    (given : Gives (r.readSequence nested scope context stop (xs ++ rest)) ss
      (y :: (ys ++ rest))) :
    Gives (r.readSequence nested scope other stop (xs ++ left)) ss (y :: (ys ++ left)) := by
  induction ss generalizing xs with
  | nil =>
    obtain ⟨t, xs, rfl⟩ := List.exists_cons_of_ne_nil (ne_nil_of_suffix given.suffix)
    rw [List.cons_append, gives_readSequence_cons] at given ⊢
    split at given
    · rename_i stops
      obtain ⟨rfl, behind⟩ := List.cons.inj given.2
      rw [if_pos stops, List.append_cancel_right behind]
      exact ⟨rfl, rfl⟩
    · obtain ⟨_, _, _, _, _, none⟩ := given
      cases none
  | cons s ss ih =>
    obtain ⟨t, xs, rfl⟩ := List.exists_cons_of_ne_nil (ne_nil_of_suffix given.suffix)
    rw [List.cons_append, gives_readSequence_cons] at given ⊢
    split at given
    · cases given.1
    · rename_i goes
      obtain ⟨_, middle, _, first, second, same⟩ := given
      cases same
      have behind : (y :: ys) ++ rest <:+ middle := second.suffix
      obtain ⟨zs, rfl⟩ := exists_append_of_suffix behind
      rw [if_neg goes]
      exact ⟨s, zs ++ left, ss, inner _ _ _ _ _ _ _ first, ih second, rfl⟩

theorem exchange_readWrapped {w : Wrapper} {operator : Range}
    (given : Gives (readWrapped nested scope w operator (xs ++ rest)) s (ys ++ rest)) :
    Gives (readWrapped nested scope w operator (xs ++ left)) s (ys ++ left) := by
  obtain ⟨t, us, operand, whole, first, same⟩ := gives_readWrapped.1 given
  obtain ⟨zs, rfl, rfl⟩ := exists_cons_of_suffix whole first.suffix
  exact gives_readWrapped.2 ⟨t, zs ++ left, operand, rfl, inner _ _ _ _ _ _ _ first, same⟩

theorem exchange_readSecond {construct : Construct} {first : List Statement} {closed : Range}
    (given : Gives (r.readSecond nested scope construct first closed (xs ++ rest)) s
      (ys ++ rest)) :
    Gives (r.readSecond nested scope construct first closed (xs ++ left)) s (ys ++ left) := by
  obtain ⟨t, us, second, whole, goes, read, same⟩ := gives_readSecond.1 given
  obtain ⟨zs, rfl, rfl⟩ := exists_cons_of_suffix whole read.suffix
  exact gives_readSecond.2
    ⟨t, zs ++ left, second, rfl, goes, inner _ _ _ _ _ _ _ read, same⟩

theorem exchange_closeCompound {candidates : List Construct} {opening closing : Token}
    {first : List Statement} {second : Option (List Statement)}
    (given : Gives (r.closeCompound nested scope candidates context opening first second closing
      (xs ++ rest)) s (ys ++ rest)) :
    Gives (r.closeCompound nested scope candidates other opening first second closing
      (xs ++ left)) s (ys ++ left) := by
  obtain ⟨construct, closed, closes⟩ := gives_closeCompound.1 given
  refine gives_closeCompound.2 ⟨construct, closed, ?_⟩
  have done {a : Statement} (same : s = a ∧ ys ++ rest = xs ++ rest) :
      s = a ∧ ys ++ left = xs ++ left :=
    ⟨same.1, congrArg (· ++ left) (List.append_cancel_right same.2)⟩
  cases construct <;> cases second <;> first
    | exact done closes
    | exact exchange_readSecond inner closes

theorem exchange_readCompound {candidates : List Construct} {opening : Token}
    (given : Gives (r.readCompound nested scope candidates opening (xs ++ rest)) s
      (ys ++ rest)) :
    Gives (r.readCompound nested scope candidates opening (xs ++ left)) s (ys ++ left) := by
  obtain ⟨first, t, middle, begun, went⟩ := gives_readCompound.1 given
  split at went
  · rename_i single
    obtain ⟨zs, rfl⟩ := exists_append_of_suffix went.suffix
    refine gives_readCompound.2 ⟨first, t, zs ++ left, exchange_readSequence inner begun, ?_⟩
    rw [if_pos single]
    exact exchange_closeCompound inner went
  · rename_i delimited
    obtain ⟨second, u, right, more, closes⟩ := went
    obtain ⟨zs, rfl⟩ := exists_append_of_suffix closes.suffix
    have behind : (u :: zs) ++ rest <:+ middle := more.suffix
    obtain ⟨vs, rfl⟩ := exists_append_of_suffix behind
    refine gives_readCompound.2 ⟨first, t, vs ++ left, exchange_readSequence inner begun, ?_⟩
    rw [if_neg delimited]
    exact ⟨second, u, zs ++ left, exchange_readSequence inner more,
      exchange_closeCompound inner closes⟩

omit inner in
theorem exchange_readShorthand {t : Token}
    (given : Gives (r.readShorthand nested scope context t (xs ++ rest)) s (ys ++ rest)) :
    Gives (r.readShorthand nested scope other t (xs ++ left)) s (ys ++ left) := by
  obtain ⟨text, body, ending, found, fits, read, same, whole⟩ := gives_readShorthand.1 given
  exact gives_readShorthand.2 ⟨text, body, ending, found, fits, read, same,
    congrArg (· ++ left) (List.append_cancel_right whole)⟩

end

section

variable {r : Reader} {size : Size} {names : List String}
  (abbreviated : r.dialect.IsAbbreviated size names) {rest left : List Token} {scope : Scope}
  {context other : Diagnostic.Context} {xs ys : List Token} {s : Statement}

include abbreviated

/-! ### Cycles -/

/-- A cycle has its sign at the front, so the token behind one does not matter. -/
theorem extendCycle_next {draft : CycleDraft} {size : Size} (t next another : Token) :
    r.extendCycle size draft t next = r.extendCycle size draft t another := by
  simp [extendCycle, addSign, signAllowed, abbreviated.accepts, Construct.placements]

theorem exchange_readParts {size : Size} {bracket : Token} {draft : CycleDraft}
    {result : CycleDraft × Nat}
    (given : Gives (r.readParts scope size bracket draft (xs ++ rest)) result (ys ++ rest)) :
    Gives (r.readParts scope size bracket draft (xs ++ left)) result (ys ++ left) := by
  generalize whole : xs ++ rest = ts at given
  induction ts generalizing xs draft with
  | nil => exact absurd given gives_readParts_nil
  | cons t us ih =>
    obtain ⟨next, ended, extended, went⟩ := gives_readParts_cons.1 given
    have short : ys ++ rest <:+ us := by
      split at went
      · exact went.2 ▸ List.suffix_rfl
      · exact went.suffix
    obtain ⟨zs, rfl, rfl⟩ := exists_cons_of_suffix whole short
    rw [extendCycle_next abbreviated t _ (scope.peek (zs ++ left))] at extended
    refine gives_readParts_cons.2 ⟨next, ended, extended, ?_⟩
    split at went
    · rename_i ends
      rw [if_pos ends, List.append_cancel_right went.2]
      exact ⟨went.1, rfl⟩
    · rename_i goes
      rw [if_neg goes]
      exact ih rfl went

theorem exchange_readCycle {sign : Option (Cycle.Sign × Range)} {bracket : Token}
    (given : Gives (r.readCycle scope sign bracket (xs ++ rest)) s (ys ++ rest)) :
    Gives (r.readCycle scope sign bracket (xs ++ left)) s (ys ++ left) := by
  have unsigned : r.dialect.accepts .permutation .after = false := by
    rw [abbreviated.accepts]
    decide
  obtain ⟨size, draft, stop, middle, final, cycle, fits, parts, rfl, whole, made, same⟩ :=
    gives_readCycle.1 given
  rw [readSignBehind_of_not_accepts unsigned] at whole made same
  obtain rfl : middle = ys ++ rest := whole
  refine gives_readCycle.2 ⟨size, draft, stop, ys ++ left, (draft, stop), cycle, fits,
    exchange_readParts abbreviated parts, ?_, ?_, made, same⟩ <;>
  rw [readSignBehind_of_not_accepts unsigned]
  rfl

/-- A cycle ends at a closing parenthesis. -/
theorem closes_of_extendCycle {draft after : CycleDraft} {size : Size} {t next : Token}
    (extended : r.extendCycle size draft t next = .ok (after, true)) : t.lexeme = mark ")" := by
  have ends : (r.dialect.symbolsOf t).contains .permutationEnd := by
    rw [extendCycle] at extended
    split at extended
    · obtain ⟨_, _, same⟩ := Except.bind_eq_ok_iff.1 extended
      cases same
    · split at extended
      · obtain ⟨_, _, same⟩ := Except.bind_eq_ok_iff.1 extended
        cases same
      · split at extended
        · obtain ⟨_, _, same⟩ := Except.bind_eq_ok_iff.1 extended
          cases same
        · obtain ⟨_, _, same⟩ := Except.bind_eq_ok_iff.1 extended
          exact (Prod.mk.inj (Except.ok.inj same)).2
  rw [abbreviated.means t (by decide)] at ends
  exact of_decide_eq_true ends

/-- The tokens of a cycle are followed by its closing parenthesis, and none of them opens a
bracket. -/
theorem plain_of_readParts {size : Size} {bracket : Token} {draft : CycleDraft}
    {result : CycleDraft × Nat} {ts : List Token}
    (given : Gives (r.readParts scope size bracket draft ts) result rest) :
    ∃ us closing, ts = us ++ closing :: rest ∧ (∀ u ∈ us, u.IsPlain) ∧
      closing.lexeme = mark ")" := by
  induction ts generalizing draft with
  | nil => exact absurd given gives_readParts_nil
  | cons t ts ih =>
    obtain ⟨next, ended, extended, went⟩ := gives_readParts_cons.1 given
    have plain : t.IsPlain := by
      intro w opener opens
      obtain ⟨d, failed⟩ :=
        (abbreviated.inert_opener opener opens).extendCycle size draft (scope.peek ts)
      rw [failed] at extended
      cases extended
    split at went
    · rename_i ends
      refine ⟨[], t, by rw [went.2, List.nil_append], nofun, ?_⟩
      rw [ends] at extended
      exact closes_of_extendCycle abbreviated extended
    · obtain ⟨us, closing, rfl, all, closes⟩ := ih went
      exact ⟨t :: us, closing, rfl, List.forall_mem_cons.2 ⟨plain, all⟩, closes⟩

/-! ### Behind a statement -/

theorem behind?_peek {t next another : Token}
    (same : next.lexeme = mark "*" ↔ another.lexeme = mark "*") :
    r.behind? t next = r.behind? t another := by
  rw [abbreviated.behind?, abbreviated.behind?, Lexeme.behind?, Lexeme.behind?]
  simp only [same]

omit abbreviated in
theorem peek_ended {ts : List Token} (ended : Ended ts) :
    (scope.peek ts).lexeme ≠ mark "*" := by
  cases ts with
  | nil => exact nofun
  | cons t ts =>
    change t.lexeme ≠ mark "*"
    rw [ended t rfl]
    decide

theorem gives_readBehind_ended {nested : Nested} {result : Statement} {ts after : List Token}
    (ended : Ended ts) : Gives (r.readBehind nested scope context s ts) result after ↔
      result = s ∧ after = ts := by
  cases ts with
  | nil => exact gives_readBehind_nil
  | cons t ts =>
    have ends : r.behind? t (scope.peek ts) = none := by
      rw [abbreviated.behind?, ended t rfl]
      rfl
    rw [gives_readBehind_cons, ends]

/-- What a token makes of the statement before it does not depend on the tokens behind it. -/
theorem gives_extendBy {nested : Nested} {t next : Token} {ts middle : List Token}
    {behind : Behind} {larger : Statement} (found : r.behind? t next = some behind)
    (given : Gives (r.extendBy nested scope context s t ts behind) larger middle) :
    middle = ts ∧
      ∀ other us, Gives (r.extendBy nested scope other s t us behind) larger us := by
  have single : (∃ w, behind = .wrap w) ∨ behind = .count := by
    rw [abbreviated.behind?, Lexeme.behind?] at found
    split at found
    · exact .inl ⟨_, (Option.some.inj found).symm⟩
    · split at found
      · exact .inl ⟨_, (Option.some.inj found).symm⟩
      · split at found
        · split at found
          · cases found
          · exact .inr (Option.some.inj found).symm
        · cases found
  obtain ⟨w, rfl⟩ | rfl := single
  · obtain ⟨rfl, rfl⟩ := gives_ok_iff.1 given
    exact ⟨rfl, fun other us => gives_ok_iff.2 ⟨rfl, rfl⟩⟩
  · obtain ⟨count, counts, same⟩ := gives_check_iff.1 given
    obtain ⟨rfl, rfl⟩ := gives_pure_iff.1 same
    exact ⟨rfl, fun other us => gives_check_iff.2 ⟨count, counts, gives_pure_iff.2 ⟨rfl, rfl⟩⟩⟩

theorem exchange_readBehind {nested : Nested} {result : Statement} (ended : Ended rest)
    (endedToo : Ended left)
    (given : Gives (r.readBehind nested scope context s (xs ++ rest)) result (ys ++ rest)) :
    Gives (r.readBehind nested scope other s (xs ++ left)) result (ys ++ left) := by
  induction xs generalizing s with
  | nil =>
    obtain ⟨rfl, none⟩ := (gives_readBehind_ended abbreviated ended).1 given
    obtain rfl := List.append_left_eq_self.1 none
    exact (gives_readBehind_ended abbreviated endedToo).2 ⟨rfl, rfl⟩
  | cons t xs ih =>
    have same : r.behind? t (scope.peek (xs ++ rest)) = r.behind? t (scope.peek (xs ++ left)) := by
      refine behind?_peek abbreviated ?_
      cases xs with
      | nil => exact iff_of_false (peek_ended ended) (peek_ended endedToo)
      | cons => rfl
    rw [List.cons_append, gives_readBehind_cons] at given ⊢
    rw [← same]
    split at given
    · have whole : ys ++ rest = (t :: xs) ++ rest := given.2
      obtain rfl := List.append_cancel_right whole
      exact ⟨given.1, rfl⟩
    · rename_i behind found
      obtain ⟨larger, middle, extended, later⟩ := given
      obtain ⟨rfl, anywhere⟩ := gives_extendBy abbreviated found extended
      exact ⟨larger, xs ++ left, anywhere _ _, ih later⟩

/-! ### Where no bracket is opened -/

/-- Whether no statement made of plain tokens goes on beyond a closing parenthesis. -/
def Within (nested : Nested) : Prop :=
  ∀ scope context t xs closing rest s left, (∀ u ∈ t :: xs, u.IsPlain) →
    closing.lexeme = mark ")" → Gives (nested scope context t (xs ++ closing :: rest)) s left →
    closing :: rest <:+ left

/-- Whether no statement begins with a closing parenthesis. -/
def Refuses (nested : Nested) : Prop :=
  ∀ scope context closing ts s left, closing.lexeme = mark ")" →
    ¬ Gives (nested scope context closing ts) s left

end

section

variable {r : Reader} {size : Size} {names : List String}
  (abbreviated : r.dialect.IsAbbreviated size names) {nested : Nested} (within : Within nested)
  (refuses : Refuses nested) {rest left : List Token} {scope : Scope}
  {context : Diagnostic.Context} {t closing : Token} {xs : List Token} {s : Statement}
  (closes : closing.lexeme = mark ")") (plain : ∀ u ∈ xs, u.IsPlain)

include closes

include within plain in
theorem within_readSequence {stop : SymbolSet} {ss : List Statement}
    (stops : (r.dialect.symbolsOf closing).intersects stop)
    (given : Gives (r.readSequence nested scope context stop (xs ++ closing :: rest)) ss left) :
    closing :: rest <:+ left := by
  induction ss generalizing xs with
  | nil =>
    cases xs with
    | nil =>
      rw [List.nil_append, gives_readSequence_cons, if_pos stops] at given
      exact given.2 ▸ List.suffix_rfl
    | cons t xs =>
      rw [List.cons_append, gives_readSequence_cons] at given
      split at given
      · exact given.2 ▸ List.suffix_append (t :: xs) _
      · obtain ⟨_, _, _, _, _, none⟩ := given
        cases none
  | cons s ss ih =>
    cases xs with
    | nil =>
      rw [List.nil_append, gives_readSequence_cons, if_pos stops] at given
      cases given.1
    | cons t xs =>
      rw [List.cons_append, gives_readSequence_cons] at given
      split at given
      · cases given.1
      · obtain ⟨_, middle, _, first, second, same⟩ := given
        cases same
        obtain ⟨zs, rfl⟩ := within _ _ _ _ _ _ _ _ plain closes first
        obtain ⟨as, whole⟩ := first.suffix
        rw [← List.append_assoc] at whole
        obtain rfl := List.append_cancel_right whole
        refine ih (fun u member => plain u ?_) second
        exact List.mem_cons_of_mem t (List.mem_append_right as member)

omit closes in
theorem exists_cons_of_ne {us : List Token} {u : Token} (whole : xs ++ closing :: rest = u :: us)
    (other : u ≠ closing) : ∃ zs, xs = u :: zs ∧ us = zs ++ closing :: rest := by
  cases xs with
  | nil => exact absurd (List.cons.inj whole).1.symm other
  | cons x xs =>
    obtain ⟨rfl, rfl⟩ := List.cons.inj whole
    exact ⟨xs, rfl, rfl⟩

include abbreviated within refuses plain in
theorem within_readRepeated {count : Nat} {range : Range}
    (given : Gives (r.readRepeated nested scope count range (xs ++ closing :: rest)) s left) :
    closing :: rest <:+ left := by
  have unaccepted : r.dialect.accepts .repetition .before = false := by
    rw [abbreviated.accepts]
    decide
  obtain ⟨us, ⟨u, whole, counts⟩ | ⟨_, accepted, _⟩, wrapped⟩ := gives_readRepeated.1 given
  · have noCount : u ≠ closing := by
      rintro rfl
      rw [abbreviated.countsNext, closes] at counts
      revert counts
      decide
    obtain ⟨zs, rfl, rfl⟩ := exists_cons_of_ne whole noCount
    obtain ⟨v, vs, operand, whole, read, _⟩ := gives_readWrapped.1 wrapped
    have noStart : v ≠ closing := by
      rintro rfl
      exact refuses _ _ _ _ _ _ closes read
    obtain ⟨as, rfl, rfl⟩ := exists_cons_of_ne whole noStart
    exact within _ _ _ _ _ _ _ _ (List.forall_mem_cons.1 plain).2 closes read
  · rw [unaccepted] at accepted
    cases accepted

include abbreviated in
theorem within_readBehind {result : Statement}
    (given : Gives (r.readBehind nested scope context s (xs ++ closing :: rest)) result left) :
    closing :: rest <:+ left := by
  induction xs generalizing s with
  | nil =>
    have ended := ended_cons closes rest
    exact ((gives_readBehind_ended abbreviated ended).1 given).2 ▸ List.suffix_rfl
  | cons t xs ih =>
    rw [List.cons_append, gives_readBehind_cons] at given
    split at given
    · exact given.2 ▸ List.suffix_append (t :: xs) _
    · rename_i behind found
      obtain ⟨larger, middle, extended, later⟩ := given
      obtain ⟨rfl, _⟩ := gives_extendBy abbreviated found extended
      exact ih later

end

/-! ### Whole statements -/

section

variable {r : Reader} {size : Size} {names : List String}
  (abbreviated : r.dialect.IsAbbreviated size names) {rest left : List Token} {scope : Scope}
  {context other : Diagnostic.Context} {t : Token} {xs ys : List Token} {s : Statement}

include abbreviated

theorem exchange_readStart {nested : Nested} (inner : Exchanges nested rest left) {start : Start}
    (given : Gives (r.readStart nested scope context t (xs ++ rest) start) s (ys ++ rest)) :
    Gives (r.readStart nested scope other t (xs ++ left) start) s (ys ++ left) := by
  cases start with
  | turn =>
    rw [readStart] at given ⊢
    split at given
    · exact exchange_ok given
    · exact absurd given (not_gives_error _ _ _)
  | nop => exact exchange_ok given
  | shorthand => exact exchange_readShorthand given
  | compound candidates => exact exchange_readCompound inner given
  | cycle => exact exchange_readCycle abbreviated given
  | signedCycle =>
    obtain ⟨bracket, us, whole, opens, cycle⟩ := gives_readSignedCycle.1 given
    obtain ⟨zs, rfl, rfl⟩ := exists_cons_of_suffix whole cycle.suffix
    exact gives_readSignedCycle.2
      ⟨bracket, zs ++ left, rfl, opens, exchange_readCycle abbreviated cycle⟩
  | inversion => exact exchange_readWrapped inner given
  | reflection => exact exchange_readWrapped inner given
  | repetition =>
    obtain ⟨count, counts, repeated⟩ := gives_check_iff.1 given
    refine gives_check_iff.2 ⟨count, counts, ?_⟩
    have unaccepted : r.dialect.accepts .repetition .before = false := by
      rw [abbreviated.accepts]
      decide
    obtain ⟨us, ⟨u, whole, next⟩ | ⟨_, accepted, _⟩, wrapped⟩ := gives_readRepeated.1 repeated
    · obtain ⟨zs, rfl, rfl⟩ := exists_cons_of_suffix whole wrapped.suffix
      exact gives_readRepeated.2
        ⟨zs ++ left, .inl ⟨u, rfl, next⟩, exchange_readWrapped inner wrapped⟩
    · rw [unaccepted] at accepted
      cases accepted

/-- Statements may begin in two ways at an opening parenthesis, and where a shorthand has the name
of a turn. -/
theorem starts_eq (t : Token) : r.dialect.starts t = [.turn, .shorthand] ∨
    t.lexeme = mark "(" ∧ r.dialect.starts t = [.compound [.grouping], .cycle] ∨
    (r.dialect.starts t).length ≤ 1 := by
  by_cases named : (r.dialect.symbolsOf t).contains .shorthand
  · rw [abbreviated.starts, if_pos named, abbreviated.starts_of_named named]
    split
    · exact .inl rfl
    · exact .inr (.inr (Nat.le_refl 1))
  · rw [abbreviated.starts, if_neg named, List.append_nil]
    by_cases opens : t.lexeme = mark "("
    · rw [opens, Lexeme.starts_parenthesis]
      exact .inr (.inl ⟨rfl, rfl⟩)
    · refine .inr (.inr ?_)
      rw [Lexeme.starts, if_neg opens]
      split_ifs <;> simp

/-- Only a turn and a group are tried before something else. -/
theorem eq_of_mem_earlier {earlier later : List Start} {way start : Start}
    (starts : r.dialect.starts t = earlier ++ start :: later) (member : way ∈ earlier) :
    way = .turn ∨ t.lexeme = mark "(" ∧ way = .compound [.grouping] ∧ start = .cycle := by
  have pair {a b : Start} (same : r.dialect.starts t = [a, b]) : way = a ∧ start = b := by
    rw [starts] at same
    cases earlier with
    | nil => cases member
    | cons first others =>
      obtain ⟨rfl, rest⟩ := List.cons.inj same
      cases others with
      | nil => exact ⟨List.mem_singleton.1 member, (List.cons.inj rest).1⟩
      | cons => exact absurd (List.cons.inj rest).2 (by simp)
  obtain same | ⟨opens, same⟩ | short := starts_eq abbreviated t
  · exact .inl (pair same).1
  · exact .inr ⟨opens, pair same⟩
  · rw [starts, List.length_append, List.length_cons] at short
    have positive := List.length_pos_of_mem member
    omega

theorem refuses_readStatement (levels : Nat) : Refuses (r.readStatement levels) := by
  intro scope context closing ts s left closes given
  cases levels with
  | zero => exact gives_readStatement_zero given
  | succ levels =>
    obtain ⟨beginning, middle, begun, _⟩ := gives_readStatement_succ.1 given
    obtain ⟨earlier, start, later, starts, _⟩ := gives_readBeginning.1 begun
    have unnamed : ¬ (r.dialect.symbolsOf closing).contains .shorthand := fun named =>
      abbreviated.ne_mark named (by decide) closes
    have noTurn : Lexicon.standardTurn? size ")" = none := Lexicon.standardTurn?_mark (by decide)
    have none : (mark ")").starts size = [] := by simp [Lexeme.starts, mark, noTurn]
    rw [abbreviated.starts, if_neg unnamed, closes, none] at starts
    cases earlier <;> cases starts

theorem within_readStart {levels : Nat} (inner : Within (r.readStatement levels)) {closing : Token}
    (plain : ∀ u ∈ t :: xs, u.IsPlain) (closes : closing.lexeme = mark ")") {start : Start}
    (member : start ∈ r.dialect.starts t) {left : List Token}
    (given : Gives (r.readStart (r.readStatement levels) scope context t (xs ++ closing :: rest)
      start) s left) : closing :: rest <:+ left := by
  obtain ⟨first, others⟩ := List.forall_mem_cons.1 plain
  rw [abbreviated.starts, List.mem_append] at member
  obtain usual | named := member
  · cases Lexeme.begins_of_mem_starts usual with
    | count =>
      obtain ⟨_, _, repeated⟩ := gives_check_iff.1 given
      exact within_readRepeated abbreviated inner (refuses_readStatement abbreviated levels)
        closes others repeated
    | nop => exact (gives_ok_iff.1 given).2 ▸ List.suffix_append xs _
    | group opens => exact absurd opens (first "(" (by decide))
    | cycle opens => exact absurd opens (first "(" (by decide))
    | square opens => exact absurd opens (first "[" (by decide))
    | angle opens => exact absurd opens (first "<" (by decide))
    | turn =>
      rw [readStart] at given
      split at given
      · exact (gives_ok_iff.1 given).2 ▸ List.suffix_append xs _
      · exact absurd given (not_gives_error _ _ _)
  · obtain rfl : start = .shorthand := by
      split at named
      · exact List.mem_singleton.1 named
      · cases named
    obtain ⟨_, _, _, _, _, _, _, rfl⟩ := gives_readShorthand.1 given
    exact List.suffix_append xs _

/-- No statement made of plain tokens goes on beyond a closing parenthesis. -/
theorem within_readStatement (levels : Nat) : Within (r.readStatement levels) := by
  induction levels with
  | zero =>
    intro scope context t xs closing rest s left _ _ given
    exact absurd given gives_readStatement_zero
  | succ levels ih =>
    intro scope context t xs closing rest s left plain closes given
    obtain ⟨beginning, middle, begun, went⟩ := gives_readStatement_succ.1 given
    obtain ⟨earlier, start, later, starts, read, _⟩ := gives_readBeginning.1 begun
    have member : start ∈ r.dialect.starts t := by
      rw [starts]
      exact List.mem_append_right _ List.mem_cons_self
    obtain ⟨zs, rfl⟩ := within_readStart abbreviated ih plain closes member read
    exact within_readBehind abbreviated closes went

/-- Where a cycle is read, a group cannot take anything but what is between its parentheses. -/
theorem suffix_of_readCompound {levels : Nat} {cycle group : Statement} {left rest : List Token}
    (given : Gives (r.readCycle scope none t (xs ++ rest)) cycle (ys ++ rest))
    {after : List Token}
    (taken : Gives (r.readCompound (r.readStatement levels) scope [.grouping] t (xs ++ left)) group
      after) : left <:+ after := by
  obtain ⟨size, draft, stop, middle, final, _, _, parts, _, whole, _⟩ := gives_readCycle.1 given
  have unsigned : r.dialect.accepts .permutation .after = false := by
    rw [abbreviated.accepts]
    decide
  rw [readSignBehind_of_not_accepts unsigned] at whole
  obtain rfl : middle = ys ++ rest := whole
  obtain ⟨us, closing, parted, plain, closes⟩ := plain_of_readParts abbreviated parts
  obtain rfl : xs = us ++ closing :: ys := by
    rw [← List.cons_append, ← List.append_assoc] at parted
    exact List.append_cancel_right parted
  rw [List.append_assoc, List.cons_append] at taken
  obtain ⟨first, u, behind, read, went⟩ := gives_readCompound.1 taken
  have stops : (r.dialect.symbolsOf closing).intersects (r.firstStops [.grouping]) :=
    (abbreviated.endsAt_parenthesis closing).2 ⟨")", List.mem_cons_self, closes⟩
  have inside := within_readSequence (within_readStatement abbreviated levels) closes plain stops
    read
  have single : r.delimitedBy u [.grouping] = [] := rfl
  rw [if_pos single] at went
  obtain ⟨construct, closed, done⟩ := gives_closeCompound.1 went
  obtain rfl : construct = .grouping := by
    change r.closedBy u false [.grouping] = _ at closed
    rw [abbreviated.closedBy_grouping] at closed
    split at closed
    · exact (List.cons.inj closed).1.symm
    · cases closed
  obtain rfl : after = behind := done.2
  obtain same | further := List.suffix_cons_iff.1 inside
  · obtain ⟨_, rfl⟩ := List.cons.inj same
    exact List.suffix_append ys left
  · exact ((List.suffix_append ys left).trans (List.suffix_cons closing _)).trans further

/-- What is read in front of tokens with which no statement goes on is read in front of all such
tokens. -/
theorem exchanges_readStatement (levels : Nat) {rest left : List Token} (ended : Ended rest)
    (endedToo : Ended left) : Exchanges (r.readStatement levels) rest left := by
  induction levels generalizing rest left with
  | zero =>
    intro scope context other t xs ys s given
    exact absurd given gives_readStatement_zero
  | succ levels ih =>
    intro scope context other t xs ys s given
    obtain ⟨beginning, middle, begun, went⟩ := gives_readStatement_succ.1 given
    obtain ⟨zs, rfl⟩ := exists_append_of_suffix went.suffix
    refine gives_readStatement_succ.2 ⟨beginning, zs ++ left, ?_,
      exchange_readBehind abbreviated ended endedToo went⟩
    obtain ⟨earlier, start, later, starts, read, failed⟩ := gives_readBeginning.1 begun
    refine gives_readBeginning.2 ⟨earlier, start, later, starts,
      exchange_readStart abbreviated (ih ended endedToo) read, ?_⟩
    intro way member another after taken
    -- an attempt that succeeds now would have succeeded before
    have suffix : left <:+ after := by
      obtain rfl | ⟨_, rfl, rfl⟩ := eq_of_mem_earlier abbreviated starts member
      · rw [readStart] at taken
        split at taken
        · exact (gives_ok_iff.1 taken).2 ▸ List.suffix_append xs left
        · exact absurd taken (not_gives_error _ _ _)
      · exact suffix_of_readCompound abbreviated read taken
    obtain ⟨vs, rfl⟩ := suffix
    exact failed way member another (vs ++ rest)
      (exchange_readStart abbreviated (ih endedToo ended) taken)

/-! ### Groups -/

/-- A text that is read by itself is read up to a closing parenthesis. -/
theorem gives_readSequence_enclosed {levels : Nat} {ts rest : List Token} {ss : List Statement}
    {closing : Token} (closes : closing.lexeme = mark ")")
    (given : Gives (r.readSequence (r.readStatement levels) scope context .empty ts) ss []) :
    Gives (r.readSequence (r.readStatement levels) scope other (r.firstStops [.grouping])
      (ts ++ closing :: rest)) ss (closing :: rest) := by
  have none (u : Token) : (r.dialect.symbolsOf u).intersects .empty ≠ true := by simp
  have stops (u : Token) : (r.dialect.symbolsOf u).intersects (r.firstStops [.grouping]) ↔
      u.lexeme = mark ")" := by
    rw [abbreviated.endsAt_parenthesis u]
    simp
  induction ss generalizing ts with
  | nil =>
    cases ts with
    | nil =>
      rw [List.nil_append, gives_readSequence_cons, if_pos ((stops closing).2 closes)]
      exact ⟨rfl, rfl⟩
    | cons t ts =>
      rw [gives_readSequence_cons, if_neg (none t)] at given
      obtain ⟨_, _, _, _, _, empty⟩ := given
      cases empty
  | cons s ss ih =>
    cases ts with
    | nil => cases (gives_readSequence_nil.1 given).1
    | cons t ts =>
      rw [gives_readSequence_cons, if_neg (none t)] at given
      obtain ⟨_, middle, _, first, second, same⟩ := given
      cases same
      have goes : ¬ (r.dialect.symbolsOf t).intersects (r.firstStops [.grouping]) := fun ends =>
        refuses_readStatement abbreviated levels _ _ _ _ _ _ ((stops t).1 ends) first
      have exchanges := exchanges_readStatement abbreviated levels ended_nil
        (ended_cons closes rest)
      have shown : Gives (r.readStatement levels scope context t (ts ++ [])) s (middle ++ []) := by
        rwa [List.append_nil, List.append_nil]
      rw [List.cons_append, gives_readSequence_cons, if_neg goes]
      exact ⟨s, middle ++ closing :: rest, ss, exchanges _ _ _ _ _ _ _ shown, ih second, rfl⟩

/-- A text that is read by itself is a group if it stands between parentheses. -/
theorem gives_readBeginning_group {levels : Nat} {ts rest : List Token} {ss : List Statement}
    {opening closing : Token} (opens : opening.lexeme = mark "(")
    (closes : closing.lexeme = mark ")")
    (given : Gives (r.readSequence (r.readStatement levels) scope context .empty ts) ss []) :
    Gives (r.readBeginning (r.readStatement levels) scope other opening (ts ++ closing :: rest))
      (.wrapped .grouping ss ⟨opening.range.start, closing.range.stop⟩) rest := by
  have unnamed : ¬ (r.dialect.symbolsOf opening).contains .shorthand := fun named =>
    abbreviated.ne_mark named (by decide) opens
  have starts : r.dialect.starts opening = [] ++ .compound [.grouping] :: [.cycle] := by
    rw [abbreviated.starts, if_neg unnamed, opens, Lexeme.starts_parenthesis]
    rfl
  have single : r.delimitedBy closing [.grouping] = [] := rfl
  have closed : r.closedBy closing false [.grouping] = [.grouping] := by
    rw [abbreviated.closedBy_grouping, if_pos closes]
  refine gives_readBeginning.2 ⟨[], _, _, starts, gives_readCompound.2 ⟨ss, closing, rest,
    gives_readSequence_enclosed abbreviated closes given, ?_⟩, nofun⟩
  rw [if_pos single]
  exact gives_closeCompound.2 ⟨.grouping, closed, rfl, rfl⟩

end

end Reader

end CubeScript
