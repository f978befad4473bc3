import CubeScript.Proofs.Reading.Following
import CubeScript.Proofs.Reading.Pointing

/-!
# Reading in place comes to the same

Each way of reading in place follows the reading that it is meant to do: it takes the same tokens,
stops with the same problem, and adds the nodes of the statement that has been read. Nothing happens
that must not happen: no range ends before it starts, as every range goes from one token of the text
to a later one, and no loop goes on without taking a token.

The statements inside others are read in some way that follows (`InPlace.FollowsNested`). Here are
the brackets, the cycles, and all the ways in which a statement may begin (`InPlace.follows_start`).
-/

namespace CubeScript

/-- Whether what a wrapper holds keeps ranges of its own, as it does in all but shorthands. -/
def Wrapper.isPlain : Wrapper → Bool
  | .shorthand _ => false
  | _ => true

namespace Arena

variable {arena middle larger bigger : Arena} {s : Statement} {id : Nat}
  {statements others : List Statement} {ids moreIds : List Nat}

/-- Whether laying out a statement in an arena gives it a node with some number. -/
def LaidOut (arena : Arena) (s : Statement) (id : Nat) (larger : Arena) : Prop :=
  arena.place none s = (id, larger)

/-- Whether laying out some statements in an arena gives them nodes with some numbers. -/
def AllLaidOut (arena : Arena) (statements : List Statement) (ids : List Nat) (larger : Arena) :
    Prop :=
  arena.placeAll none statements = (ids, larger)

theorem LaidOut.range? (laid : arena.LaidOut s id larger) : larger.range? id = some s.range := by
  have known := range?_place s arena
  rwa [show arena.place none s = (id, larger) from laid] at known

theorem LaidOut.single (laid : arena.LaidOut s id larger) :
    arena.AllLaidOut [s] [id] larger := by
  rw [AllLaidOut, placeAll, show arena.place none s = (id, larger) from laid]
  rfl

theorem AllLaidOut.keeps (laid : arena.AllLaidOut statements ids larger) :
    arena.Keeps larger := by
  have keeps := keeps_placeAll none statements arena
  rwa [show arena.placeAll none statements = (ids, larger) from laid] at keeps

theorem AllLaidOut.ranges (laid : arena.AllLaidOut statements ids larger)
    (keeps : larger.Keeps bigger) :
    ids.filterMap bigger.range? = statements.map Statement.range := by
  have placed : arena.placeAll none statements = (ids, larger) := laid
  have kept : (arena.placeAll none statements).2.Keeps bigger := by rwa [placed]
  have known := range?_placeAll statements kept
  rwa [placed] at known

theorem AllLaidOut.wrapped {w : Wrapper} (plain : w.isPlain) (range : Range)
    (laid : arena.AllLaidOut statements ids middle) :
    arena.LaidOut (.wrapped w statements range) (middle.add (.group (.wrapper w) ids) range).1
      (middle.add (.group (.wrapper w) ids) range).2 := by
  have placed : place none (.wrapped w statements range) arena =
      (placeAll none statements arena).2.add
        (.group (.wrapper w) (placeAll none statements arena).1) range := by
    cases w with
    | shorthand name => cases plain
    | grouping | inversion | reflection | repetition => rfl
  rw [LaidOut, placed, show placeAll none statements arena = _ from laid]

/-- Nodes of a text that are put where a shorthand stands are those of the shorthand. -/
theorem AllLaidOut.expanded (name : String) {range : Range}
    (laid : arena.AllLaidOut statements ids middle)
    (moved : larger = middle.setRangesFrom arena.size range) :
    arena.LaidOut (.wrapped (.shorthand name) statements range)
      (larger.add (.group (.wrapper (.shorthand name)) ids) range).1
      (larger.add (.group (.wrapper (.shorthand name)) ids) range).2 := by
  have there : placeAll (some range) statements (arena.setRangesFrom arena.size range) = _ :=
    placeAll_setRangesFrom none statements (Nat.le_refl arena.size)
  rw [setRangesFrom_size, show arena.placeAll none statements = _ from laid] at there
  subst moved
  rw [LaidOut, place]
  dsimp only [Option.getD_none]
  rw [there]

theorem AllLaidOut.append (laid : arena.AllLaidOut statements ids middle)
    (more : middle.AllLaidOut others moreIds larger) :
    arena.AllLaidOut (statements ++ others) (ids ++ moreIds) larger := by
  induction statements generalizing arena ids with
  | nil =>
    cases laid
    exact more
  | cons s statements ih =>
    rw [AllLaidOut, placeAll] at laid
    cases laid
    rw [AllLaidOut, List.cons_append, placeAll]
    dsimp only
    rw [show placeAll none (statements ++ others) _ = _ from ih rfl]
    rfl

end Arena

namespace InPlace

open Reader (Extends)
open Diagnostic (Context)

variable {r : Reader} {scope : Scope} {levels : Nat} {context : Context} {text : String}
  {s : Session} {α β : Type} {Agrees : α → β → Arena → Prop} {ts us vs : List Token}

/-! ### Brackets that are closed, and operands -/

theorem follows_failUnclosed {candidates : List Construct} {bracket : Token}
    (now : s.At r scope levels us) (range : bracket.range.In text)
    (whole : scope.textEnd = text.utf8ByteSize) :
    Follows r scope levels Agrees s (failUnclosed r candidates bracket)
      (.error (r.unclosed scope candidates bracket) : Reading α ts) :=
  .scope' now (.range (range.start_le whole) (.fail _))

theorem oneLeft_eq {candidates : List Construct} {opening closing : Token}
    (ordered : opening.range.start ≤ closing.range.stop) :
    oneLeft candidates context opening closing = Action.check
      (Reader.oneLeft candidates context closing ⟨opening.range.start, closing.range.stop⟩) := by
  rcases candidates with _ | ⟨c, _ | ⟨d, others⟩⟩
  · rfl
  · rfl
  · change (Action.range opening.range.start closing.range.stop >>= fun range =>
      Action.fail (.ambiguous (c :: d :: others) range)) = _
    rw [Action.range, if_pos ordered]
    rfl

/-- A pairing is laid out with its operands before it. -/
theorem follows_pair {construct : Construct} {first second : List Statement}
    {firstIds secondIds : List Nat} {range : Range} {before middle : Arena} {rest : Suffix ts}
    (now : s.At r scope levels rest.1) (left : before.AllLaidOut first firstIds middle)
    (right : middle.AllLaidOut second secondIds s.arena) :
    Follows r scope levels before.LaidOut s (pair construct firstIds secondIds range)
      (.ok (.paired construct.pairing first second range, rest)) := by
  refine .wrap (left.ranges right.keeps) now fun t later arena => ?_
  have keeps : s.arena.Keeps t.arena := by
    rw [arena]
    exact Arena.keeps_push _ _
  refine .wrap (right.ranges keeps) later fun u final arena' => .add final ?_
  rw [Arena.LaidOut, Arena.place, show before.placeAll none first = _ from left]
  dsimp only
  rw [show middle.placeAll none second = _ from right, arena', arena]
  rfl

/-- Whether reading statements in place follows reading them. -/
def FollowsNested (r : Reader) (levels : Nat) (nested : CubeScript.Nested) (inPlace : Nested) :
    Prop :=
  ∀ text scope context t ts s, scope.textEnd = text.utf8ByteSize → Shown text (t :: ts) →
    s.At r scope levels (t :: ts) →
      Follows r scope levels s.arena.LaidOut s (inPlace context) (nested scope context t ts)

section

variable {nested : CubeScript.Nested} {inPlace : Nested}
  (inner : FollowsNested r levels nested inPlace)

include inner

/-- The statements that have been read before are laid out already. -/
theorem follows_sequenceFrom (whole : scope.textEnd = text.utf8ByteSize) {stop : SymbolSet}
    {before : Arena} {done : List Statement} {ids : List Nat} {ts : List Token} {s : Session}
    (shown : Shown text ts) (now : s.At r scope levels ts)
    (laid : before.AllLaidOut done ids s.arena) :
    Follows r scope levels (fun statements => before.AllLaidOut (done ++ statements)) s
      (sequenceFrom r inPlace context stop ids)
      (r.readSequence nested scope context stop ts) := by
  match ts with
  | [] =>
    rw [Reader.readSequence]
    refine .loop_last (.peek now fun t later same => .pure later ⟨ids, rfl, ?_⟩)
    rw [List.append_nil, same]
    exact laid
  | t :: ts =>
    rw [Reader.readSequence]
    by_cases stops : (r.dialect.symbolsOf t).intersects stop
    · rw [if_pos stops]
      refine .loop_last (.peek_cons now fun u later same _ => ?_)
      refine .yes (Bool.or_eq_true_iff.2 (.inr stops)) ?_
      refine .pure later ⟨ids, rfl, ?_⟩
      rw [List.append_nil, same]
      exact laid
    · rw [if_neg stops]
      refine .loop_more (fun statement => before.AllLaidOut (done ++ [statement])) now
        (Nat.lt_succ_self _) (.peek_cons now fun u later same noEnd => ?_) ?_
      · refine .no (by simp [noEnd, stops]) ?_
        refine .into (inner _ _ _ _ _ _ whole shown later) ?_
        intro statement rest id v given after laid'
        refine .pure after ⟨_, rfl, laid.append ?_⟩
        rw [← same]
        exact laid'.single
      · intro statement rest ids' u given after laid'
        have shorter : rest.1.length < (t :: ts).length := Nat.lt_succ_of_le rest.2.length_le
        refine .last (follows_sequenceFrom whole (shown.tail.suffix rest.2) after laid') ?_
        intro statements left all v given final laid''
        refine .pure final ?_
        rwa [List.append_assoc] at laid''
termination_by ts.length
decreasing_by exact shorter

theorem follows_sequence (whole : scope.textEnd = text.utf8ByteSize) {stop : SymbolSet}
    (shown : Shown text ts) (now : s.At r scope levels ts) :
    Follows r scope levels s.arena.AllLaidOut s (sequence r inPlace context stop)
      (r.readSequence nested scope context stop ts) := by
  have nothing : s.arena.AllLaidOut [] [] s.arena := rfl
  exact follows_sequenceFrom inner whole shown now nothing

theorem follows_operand (whole : scope.textEnd = text.utf8ByteSize) {operator : Range}
    (range : operator.In text) (shown : Shown text ts) (now : s.At r scope levels ts) :
    Follows r scope levels s.arena.LaidOut s (operand inPlace operator)
      (Reader.readOperand nested scope operator ts) := by
  cases ts with
  | nil =>
    exact .peek now fun u later same => .yes rfl (.range (range.start_le whole) (.fail _))
  | cons t ts =>
    refine .peek_cons now fun u later same noEnd => .no noEnd ?_
    refine .last (inner _ _ _ _ _ _ whole shown later) ?_
    intro statement rest id v _ after laid
    rw [same] at laid
    exact .pure after laid

/-! ### Brackets -/

theorem follows_second (construct : Construct) (whole : scope.textEnd = text.utf8ByteSize)
    {first : List Statement} {ids : List Nat} {closed : Range} {before : Arena}
    (range : closed.In text) (shown : Shown text ts)
    (behind : ∀ u ∈ ts, closed.stop ≤ u.range.start) (now : s.At r scope levels ts)
    (laid : before.AllLaidOut first ids s.arena) :
    Follows r scope levels before.LaidOut s (second r inPlace construct ids closed)
      (r.readSecond nested scope construct first closed ts) := by
  have ordered := shown.start_le_peek whole range behind
  cases ts with
  | nil => exact .peek now fun u later same => .yes rfl (.range ordered (.fail _))
  | cons t ts =>
    refine .peek_cons now fun u later same noEnd => ?_
    rw [Reader.readSecond]
    by_cases closes : (r.dialect.symbolsOf t).intersects Reader.allClosings
    · rw [if_pos closes]
      exact .yes (Bool.or_eq_true_iff.2 (.inr closes)) (.range ordered (.fail _))
    · rw [if_neg closes]
      refine .no (by simp [noEnd, closes]) ?_
      refine .bind (inner _ _ _ _ _ _ whole shown later) fun other rest id v given after right => ?_
      rw [same] at right
      exact .cover right.range? (follows_pair after laid right.single)

theorem follows_close (whole : scope.textEnd = text.utf8ByteSize) {candidates : List Construct}
    {opening closing : Token} {first : List Statement} {ids : List Nat} {before : Arena}
    (shown : Shown text (opening :: us)) (behind : closing :: ts <:+ us)
    (now : s.At r scope levels ts) (laid : before.AllLaidOut first ids s.arena) :
    Follows r scope levels before.LaidOut s
      (close r inPlace candidates context opening ids none closing)
      (r.closeCompound nested scope candidates context opening first none closing ts) := by
  have closed := shown.through (behind.subset List.mem_cons_self)
  have later := shown.tail.suffix behind
  have goesOn (construct : Construct) := follows_second inner construct whole closed later.tail
    (fun u member => later.placed.le member) now laid
  rw [close, oneLeft_eq closed.ordered]
  refine .check fun construct _ => .range closed.ordered ?_
  cases construct with
  | grouping => exact .add now (laid.wrapped (w := .grouping) rfl _)
  | inversion => exact .add now (laid.wrapped (w := .inversion) rfl _)
  | reflection => exact .add now (laid.wrapped (w := .reflection) rfl _)
  | repetition | commutation | conjugation | rotation | permutation => exact goesOn _

omit inner in
theorem follows_close_both {candidates : List Construct} {opening closing : Token}
    {first second : List Statement} {ids others : List Nat} {before middle : Arena}
    (shown : Shown text (opening :: us)) (behind : closing :: ts <:+ us)
    (now : s.At r scope levels ts) (left : before.AllLaidOut first ids middle)
    (right : middle.AllLaidOut second others s.arena) :
    Follows r scope levels before.LaidOut s
      (close r inPlace candidates context opening ids (some others) closing)
      (r.closeCompound nested scope candidates context opening first (some second) closing ts) := by
  have closed := shown.through (behind.subset List.mem_cons_self)
  rw [close, oneLeft_eq closed.ordered]
  refine .check fun construct _ => .range closed.ordered ?_
  cases construct <;> exact follows_pair now left right

theorem follows_compound (whole : scope.textEnd = text.utf8ByteSize)
    {candidates : List Construct} {opening : Token} (shown : Shown text (opening :: ts))
    (now : s.At r scope levels (opening :: ts)) :
    Follows r scope levels s.arena.LaidOut s (compound r inPlace candidates)
      (r.readCompound nested scope candidates opening ts) := by
  refine .next_cons now fun u later same _ => ?_
  rw [← same]
  refine .bind (follows_sequence inner whole shown.tail later) ?_
  rintro first ⟨rest, left⟩ ids v _ now laid
  match rest with
  | [] =>
    exact .next_nil now fun w later _ => .yes rfl (follows_failUnclosed later shown.head whole)
  | t :: rest =>
    refine .next_cons now fun w later same noEnd => .no noEnd ?_
    rw [← same] at laid
    have behind : t :: rest <:+ ts := left
    dsimp only
    cases r.delimitedBy t candidates with
    | nil =>
      refine .last (follows_close inner whole shown behind later laid) ?_
      exact fun statement rest id v _ after laid => .pure after laid
    | cons c cs =>
      refine .bind (follows_sequence inner whole (shown.tail.suffix behind).tail later) ?_
      rintro second ⟨rest', left'⟩ others x _ now right
      match rest' with
      | [] =>
        exact .next_nil now fun y later _ => .yes rfl (follows_failUnclosed later shown.head whole)
      | u :: rest' =>
        refine .next_cons now fun y later same noEnd => .no noEnd ?_
        rw [← same] at right
        have behind : u :: rest' <:+ ts := left'.trans ((List.suffix_cons t rest).trans behind)
        refine .last (follows_close_both shown behind later laid right) ?_
        exact fun statement rest id v _ after laid => .pure after laid

end

/-! ### Cycles -/

section

variable {size : Size} {draft : CycleDraft} {t : Token}

/-- The part that a token completes has a range, since what is known of it lies in the text. -/
theorem completePart_eq (lies : draft.Lies text ts) : completePart r size draft t =
    Action.check (r.completePart size draft t) := by
  unfold completePart Reader.completePart
  dsimp only
  split
  · rfl
  · cases begun : draft.start with
    | none => rfl
    | some start =>
      dsimp only
      rw [Action.range, if_pos (lies.part start begun).ordered, pure_bind]
      cases draft.item size ⟨start, draft.stop⟩ <;> rfl

/-- The token behind a sign matters only if it is looked at. -/
theorem addSign_eq {sign : Cycle.Sign} {next other : Token}
    (looked : signNeedsNext r draft → next = other) :
    r.addSign draft sign t next = r.addSign draft sign t other := by
  have same : r.signAllowed draft next = r.signAllowed draft other := by
    unfold Reader.signAllowed
    rw [signNeedsNext] at looked
    cases leading : (draft.items.isEmpty && draft.faces.isEmpty &&
        r.dialect.accepts .permutation .aroundFirst) with
    | true => rfl
    | false =>
      cases trailing : (!draft.faces.isEmpty &&
          r.dialect.accepts .permutation .aroundSecond) with
      | false => rfl
      | true => rw [looked (by rw [leading, trailing]; rfl)]
  unfold Reader.addSign
  rw [same]

theorem follows_extendCycle (now : s.At r scope levels us) (lies : draft.Lies text vs)
    {f : CycleDraft × Bool → Action β} {next : CycleDraft × Bool → Reading α ts}
    (goes : ∀ result t', t'.At r scope levels us → t'.arena = s.arena →
      r.extendCycle size draft t (scope.peek us) = .ok result →
        Follows r scope levels Agrees t' (f result) (next result)) :
    Follows r scope levels Agrees s (extendCycle r size draft t >>= f)
      (r.extendCycle size draft t (scope.peek us) >>= next) := by
  unfold extendCycle Reader.extendCycle at *
  dsimp only at *
  cases signed : (r.dialect.symbolsOf t).sign? with
  | some sign =>
    simp only [signed, bind_assoc, pure_bind] at goes ⊢
    refine .peekIf now fun u next' looked later same => ?_
    rw [addSign_eq looked]
    exact .check fun c added => goes _ _ later same (by rw [added]; rfl)
  | none =>
    simp only [signed] at goes ⊢
    by_cases number : t.kind = .number
    · simp only [if_pos number, bind_assoc, pure_bind] at goes ⊢
      exact .check fun c added => goes _ _ now rfl (by rw [added]; rfl)
    · simp only [if_neg number] at goes ⊢
      cases named : (r.dialect.symbolsOf t).faces.head? with
      | some face =>
        simp only [named, bind_assoc, pure_bind] at goes ⊢
        exact .check fun c added => goes _ _ now rfl (by rw [added]; rfl)
      | none =>
        simp only [named, bind_assoc, pure_bind] at goes ⊢
        rw [completePart_eq lies]
        exact .check fun c completed => goes _ _ now rfl (by rw [completed]; rfl)

/-- After a token that does not end a cycle its other parts are read. -/
theorem readParts_of_goesOn {bracket : Token} {next : CycleDraft}
    (extended : r.extendCycle size draft t (scope.peek ts) = .ok (next, false)) :
    r.readParts scope size bracket draft (t :: ts) =
      ((.ok (next, .all ts) : Reading CycleDraft ts) >>= fun step =>
        r.readParts scope size bracket step.1 step.2.1 >>= fun last =>
          .ok (last.1, (step.2.trans last.2).ofTail)) := by
  rw [Reader.readParts, extended]
  rfl

/-- No node is added while the parts of a cycle are read. -/
theorem follows_parts (whole : scope.textEnd = text.utf8ByteSize) {bracket : Token}
    (range : bracket.range.In text) {before : Arena} {s : Session} (same : s.arena = before)
    (lies : draft.Lies text ts) (shown : Shown text ts) (now : s.At r scope levels ts) :
    Follows r scope levels (fun result out arena => out = result ∧ arena = before) s
      (parts r size bracket draft) (r.readParts scope size bracket draft ts) := by
  induction ts generalizing draft s with
  | nil =>
    exact .loop_last (.next_nil now fun t later _ =>
      .yes rfl (follows_failUnclosed later range whole))
  | cons t ts ih =>
    by_cases more : ∃ next, r.extendCycle size draft t (scope.peek ts) = .ok (next, false)
    · obtain ⟨next, extended⟩ := more
      rw [readParts_of_goesOn extended]
      refine .loop_more (fun next out arena => out = next ∧ arena = before) now
        (Nat.lt_succ_self _) ?_ ?_
      · have begins : (.ok (next, .all ts) : Reading CycleDraft ts) =
            r.extendCycle size draft t (scope.peek ts) >>= fun step => .ok (step.1, .all ts) := by
          rw [extended]
          rfl
        rw [begins]
        refine .next_cons now fun u later same' noEnd => .no noEnd ?_
        refine follows_extendCycle later lies fun step v after same'' found => ?_
        cases extended.symm.trans found
        exact .pure after ⟨_, rfl, rfl, by rw [same'', same', same]⟩
      · rintro next' rest out u given after ⟨rfl, same'⟩
        obtain ⟨rfl, left⟩ := Reading.gives_ok_iff.1 given
        obtain rfl : rest = .all ts := Subtype.ext left
        refine .last (ih same' (Reader.lies_extendCycle lies shown extended) shown.tail after) ?_
        exact fun result left out v _ final agrees => .pure final agrees
    · rw [Reader.readParts]
      refine .loop_last (.next_cons now fun u later same' noEnd => .no noEnd ?_)
      refine follows_extendCycle later lies fun step v after same'' extended => ?_
      obtain ⟨result, ended⟩ := step
      cases ended with
      | false => exact absurd ⟨result, extended⟩ more
      | true => exact .pure after ⟨_, rfl, rfl, by rw [same'', same', same]⟩

theorem follows_signBehind {around : Range} (now : s.At r scope levels us)
    (ordered : ∀ u ∈ us, around.start ≤ u.range.stop) {f : CycleDraft × Range → Action β}
    {reading : Reading α ts}
    (goes : ∀ t, t.At r scope levels (r.readSignBehind draft around.stop us).2.1 →
      t.arena = s.arena → Follows r scope levels Agrees t
        (f ((r.readSignBehind draft around.stop us).1.1,
          ⟨around.start, (r.readSignBehind draft around.stop us).1.2⟩)) reading) :
    Follows r scope levels Agrees s (signBehind r draft around >>= f) reading := by
  unfold signBehind
  by_cases allowed : (draft.sign.isNone && r.dialect.accepts .permutation .after) = true
  · rw [if_pos allowed]
    simp only [bind_assoc]
    refine .checkpoint ?_
    cases us with
    | nil =>
      have unsigned : (r.dialect.symbolsOf (.atEnd scope.textEnd)).sign? = none := by
        simp [Dialect.symbolsOf, Token.atEnd, SymbolSet.sign?]
      refine .next_nil now fun t later same => ?_
      simp only [unsigned, bind_assoc, pure_bind]
      exact .restore now later fun u again same' => goes u again (same'.trans same)
    | cons u us =>
      refine .next_cons now fun t later same noEnd => ?_
      rw [Reader.readSignBehind] at goes
      cases signed : (r.dialect.symbolsOf u).sign? with
      | none =>
        simp only [signed, bind_assoc, pure_bind] at goes ⊢
        exact .restore now later fun v again same' => goes v again (same'.trans same)
      | some sign =>
        simp only [signed, allowed, if_true, bind_assoc, pure_bind] at goes ⊢
        exact .range (ordered u List.mem_cons_self) (goes t later same)
  · rw [if_neg allowed, pure_bind]
    have kept : r.readSignBehind draft around.stop us = ((draft, around.stop), .all us) := by
      cases us with
      | nil => rfl
      | cons u us =>
        rw [Reader.readSignBehind]
        cases (r.dialect.symbolsOf u).sign? with
        | none => rfl
        | some sign => exact if_neg allowed
    rw [kept] at goes
    exact goes s now rfl

theorem follows_cycle (whole : scope.textEnd = text.utf8ByteSize)
    {sign : Option (Cycle.Sign × Range)} {bracket : Token} (shown : Shown text (bracket :: ts))
    (signed : ∀ s ∈ sign, s.2.In text ∧ s.2.start ≤ bracket.range.start)
    (now : s.At r scope levels (bracket :: ts)) :
    Follows r scope levels s.arena.LaidOut s (cycle r sign)
      (r.readCycle scope sign bracket ts) := by
  have begins : CycleDraft.Lies text ts { sign, stop := bracket.range.stop } :=
    ⟨fun s member => (signed s member).1, nofun, fun u member => shown.placed.le member⟩
  refine .next_cons now fun u later same _ => .cubeSize later fun size v now same' => ?_
  refine .bind (follows_parts whole shown.head (same'.trans same) begins shown.tail now) ?_
  rintro ⟨draft, stop⟩ rest _ w given now ⟨rfl, arena⟩
  obtain ⟨last, behind, stops⟩ := Reader.extends_readParts given
  have closed := Reader.in_cycle shown signed (behind.subset List.mem_cons_self)
  rw [← stops] at closed
  refine .range closed.ordered (follows_signBehind now ?_ fun x final same'' => ?_)
  · exact fun u member => (Reader.in_cycle shown signed (rest.2.subset member)).ordered
  · refine .check fun cycle made => .add final ?_
    rw [same'', arena]
    rfl

theorem follows_signedCycle (whole : scope.textEnd = text.utf8ByteSize)
    (shown : Shown text (t :: ts)) (now : s.At r scope levels (t :: ts)) :
    Follows r scope levels s.arena.LaidOut s (signedCycle r)
      (r.readSignedCycle scope t ts) := by
  refine .next_cons now fun u later same _ => ?_
  cases ts with
  | nil =>
    have closed :
        (r.dialect.symbolsOf (.atEnd scope.textEnd)).contains .permutationBegin ≠ true := by
      simp [Dialect.symbolsOf, Token.atEnd]
    exact .peek later fun v now _ => .no closed (.next_nil now fun w _ _ => .fail _)
  | cons bracket ts =>
    refine .peek_cons later fun v now same' _ => ?_
    rw [Reader.readSignedCycle]
    refine .ite (fun opens => ?_) fun other => .next_cons now fun w _ _ _ => .fail _
    have signed : ∀ s ∈ some ((r.dialect.symbolsOf t).sign?.getD .none, t.range),
        s.2.In text ∧ s.2.start ≤ bracket.range.start := by
      rintro _ ⟨⟩
      have := shown.placed.le List.mem_cons_self
      have := shown.head.ordered
      exact ⟨shown.head, by dsimp only; omega⟩
    refine .last (follows_cycle whole shown.tail signed now) ?_
    intro statement rest id w _ after laid
    rw [same', same] at laid
    exact .pure after laid

end

/-! ### The beginning of a statement -/

section

variable {nested : CubeScript.Nested} {inPlace : Nested} {t : Token}
  (inner : FollowsNested r levels nested inPlace)

include inner

theorem follows_wrapped (whole : scope.textEnd = text.utf8ByteSize) {w : Wrapper}
    (plain : w.isPlain) {operator : Range} (range : operator.In text)
    (shown : Shown text ts) (now : s.At r scope levels ts) :
    Follows r scope levels s.arena.LaidOut s (wrapped inPlace w operator)
      (Reader.readWrapped nested scope w operator ts) := by
  refine .bind (follows_operand inner whole range shown now) ?_
  intro operand rest id t _ after laid
  exact .cover laid.range? (.add after (laid.single.wrapped plain _))

theorem follows_repeated (whole : scope.textEnd = text.utf8ByteSize) (shown : Shown text (t :: ts))
    (now : s.At r scope levels (t :: ts)) :
    Follows r scope levels s.arena.LaidOut s (repeated r inPlace)
      (Reader.repeatCount t >>= fun count => r.readRepeated nested scope count t.range ts) := by
  refine .next_cons now fun u later same _ => .check fun count _ => ?_
  have plain : (Wrapper.repetition count).isPlain := rfl
  rw [← same]
  cases ts with
  | nil =>
    have other : r.countsNext (.atEnd scope.textEnd) ≠ true := by
      simp [Reader.countsNext, Dialect.symbolsOf, Token.atEnd]
    refine .peek later fun v now same' => .no other (.ite (fun _ => ?_) fun _ => ?_)
    · rw [← same']
      exact follows_wrapped inner whole plain shown.head shown.tail now
    · exact .next_nil now fun w _ _ => .fail _
  | cons next ts =>
    refine .peek_cons later fun v now same' _ => ?_
    rw [← same', Reader.readRepeated]
    refine .ite (fun _ => .next_cons now fun w after same'' _ => ?_) fun _ => .ite (fun _ => ?_)
      fun _ => .next_cons now fun w _ _ _ => .fail _
    · rw [← same'']
      refine .last (follows_wrapped inner whole plain shown.head shown.tail.tail after) ?_
      exact fun statement rest id w _ after laid => .pure after laid
    · exact follows_wrapped inner whole plain shown.head shown.tail now

omit inner in
/-- What is read up to the end of a text is all of it. -/
theorem rest_of_whole {nested : CubeScript.Nested} {statements : List Statement}
    {ts rest : List Token}
    (given : Reading.Gives (r.readSequence nested scope context .empty ts) statements rest) :
    rest = [] := by
  match ts with
  | [] => exact (Reader.gives_readSequence_nil.1 given).2
  | t :: ts =>
    have none : (r.dialect.symbolsOf t).intersects .empty ≠ true := by simp
    rw [Reader.gives_readSequence_cons, if_neg none] at given
    obtain ⟨statement, middle, later, first, second, _⟩ := given
    have shorter : middle.length < (t :: ts).length := Nat.lt_succ_of_le first.suffix.length_le
    exact rest_of_whole second
termination_by ts.length
decreasing_by exact shorter

theorem follows_whole (whole_ : scope.textEnd = text.utf8ByteSize) (shown : Shown text ts)
    (now : s.At r scope levels ts) :
    Follows r scope levels s.arena.AllLaidOut s (whole r inPlace context)
      (r.readSequence nested scope context .empty ts) := by
  refine .into (follows_sequence inner whole_ shown now) ?_
  rintro statements ⟨rest, left⟩ ids t given after laid
  obtain rfl : rest = [] := rest_of_whole given
  refine .next_nil after fun u final same => .yes rfl (.pure final ?_)
  rwa [same]

theorem follows_shorthand (now : s.At r scope levels (t :: ts)) :
    Follows r scope levels s.arena.LaidOut s (shorthand r inPlace context)
      (r.readShorthand nested scope context t ts) := by
  refine .next_cons now fun u later same _ => ?_
  rw [← same, Reader.readShorthand]
  cases r.dialect.expansion? t.text with
  | none => exact .fail _
  | some body =>
    refine .scope' later (.ite (fun _ => .fail _) fun _ => ?_)
    dsimp only
    refine .expand u.arena.AllLaidOut (r.readSequence nested ⟨body.utf8ByteSize, scope.depth + 1⟩
      .shorthand .empty (r.lexer.tokens body)) later ?_ ?_ ?_
    · intro v within same'
      rw [← same']
      exact follows_whole inner rfl (Shown.tokens r.lexer body) within
    · intro cause failed
      rw [failed]
    · intro statements rest ids larger v read laid after moved
      rw [read]
      exact .add after (laid.expanded t.text moved)

theorem follows_start (whole : scope.textEnd = text.utf8ByteSize) (shown : Shown text (t :: ts))
    (now : s.At r scope levels (t :: ts)) (way : Start) :
    Follows r scope levels s.arena.LaidOut s (start r inPlace context way)
      (r.readStart nested scope context t ts way) := by
  cases way with
  | turn =>
    refine .next_cons now fun u later same _ => ?_
    rw [← same, Reader.readStart]
    cases r.dialect.turn? t.text with
    | some turn => exact .add later rfl
    | none => exact .fail _
  | nop =>
    refine .next_cons now fun u later same _ => ?_
    rw [← same]
    exact .add later rfl
  | shorthand => exact follows_shorthand inner now
  | compound candidates => exact follows_compound inner whole shown now
  | cycle => exact follows_cycle whole shown (fun _ h => absurd h (Option.not_mem_none _)) now
  | signedCycle => exact follows_signedCycle whole shown now
  | inversion =>
    refine .next_cons now fun u later same _ => ?_
    rw [← same]
    exact follows_wrapped (w := .inversion) inner whole rfl shown.head shown.tail later
  | reflection =>
    refine .next_cons now fun u later same _ => ?_
    rw [← same]
    exact follows_wrapped (w := .reflection) inner whole rfl shown.head shown.tail later
  | repetition => exact follows_repeated inner whole shown now

end

end InPlace

end CubeScript
