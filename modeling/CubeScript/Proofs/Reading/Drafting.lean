import CubeScript.Proofs.Reading.Tracking

/-!
# Reading two cycles side by side

What has been read of a cycle is kept in a draft. Two readers whose tokens track each other keep
drafts that only differ in ranges (`Reader.SameDraft`), come to the same decisions at every token,
and make the same cycle in the end. At an inert token both give up.
-/

namespace CubeScript

namespace Reader

open Diagnostic Statement

theorem agrees_repeatCount {stops : Diagnostic → Bool} {t u : Token}
    (same : t.lexeme = u.lexeme) :
    Agrees stops Eq (repeatCount t) (repeatCount u) := by
  obtain ⟨range, rfl⟩ := Token.exists_eq_of_lexeme same
  have number : Token.number? { t with range } = t.number? := rfl
  rw [repeatCount, repeatCount, number]
  split
  · exact .ok rfl
  · exact .errors _ _

/-- Whether two drafts of cycles only differ in ranges. -/
structure SameDraft (a b : CycleDraft) : Prop where
  sign : a.sign.map Prod.fst = b.sign.map Prod.fst
  items : a.items = b.items
  faces : a.faces = b.faces
  number : a.number = b.number
  start : a.start.isSome = b.start.isSome

section

variable {stops : Diagnostic → Bool} {a b : CycleDraft} (same : SameDraft a b)

include same

theorem SameDraft.isSome_sign : a.sign.isSome = b.sign.isSome := by
  have signs := congrArg Option.isSome same.sign
  rwa [Option.isSome_map, Option.isSome_map] at signs

theorem agrees_addSign (r : Reader) (sign : Cycle.Sign) {t u next other : Token}
    (sameNext : r.SameHead next other) :
    Agrees stops SameDraft (r.addSign a sign t next) (r.addSign b sign u other) := by
  have closes : allClosings.contains .permutationEnd := by decide
  have allowed : r.signAllowed a next = r.signAllowed b other := by
    rw [signAllowed, signAllowed, same.items, same.faces, sameNext.contains closes]
  rw [addSign, addSign, allowed, same.isSome_sign]
  refine .ite Iff.rfl (fun _ => .errors _ _) fun _ => ?_
  exact .ite Iff.rfl (fun _ => .errors _ _) fun _ =>
    .ok ⟨rfl, same.items, same.faces, same.number, same.start⟩

theorem agrees_addNumber (size : Size) {t u : Token} (equal : t.lexeme = u.lexeme) :
    Agrees stops SameDraft (addNumber size a t) (addNumber size b u) := by
  obtain ⟨range, rfl⟩ := Token.exists_eq_of_lexeme equal
  have number : Token.number? { t with range } = t.number? := rfl
  rw [addNumber, addNumber, same.faces, same.number, number]
  refine .ite Iff.rfl (fun _ => .errors _ _) fun _ => ?_
  refine .ite Iff.rfl (fun _ => .errors _ _) fun _ => ?_
  split
  · exact .errors _ _
  · exact .ok ⟨same.sign, same.items, same.faces, rfl, same.start⟩

theorem agrees_addFace (face : Face) (t u : Token) :
    Agrees stops SameDraft (addFace a face t) (addFace b face u) := by
  rw [addFace, addFace, same.faces, same.number]
  refine .ite Iff.rfl (fun _ => .errors _ _) fun _ => ?_
  refine .ok ⟨same.sign, same.items, ?_, same.number, rfl⟩
  exact congrArg (· ++ [face]) same.faces

theorem agrees_item (size : Size) (range place : Range) :
    Agrees stops Eq (a.item size range) (b.item size place) := by
  have problem (item : Cycle.Item) : a.itemProblem? item = b.itemProblem? item := by
    rw [CycleDraft.itemProblem?, CycleDraft.itemProblem?, same.items]
  rw [CycleDraft.item, CycleDraft.item, same.faces, same.number]
  split
  · exact .errors _ _
  · rw [problem]
    split
    · exact .errors _ _
    · exact .ok rfl

theorem agrees_completePart (r : Reader) (size : Size) {t u : Token}
    (equal : t.lexeme = u.lexeme) :
    Agrees stops SameDraft (r.completePart size a t) (r.completePart size b u) := by
  obtain ⟨range, rfl⟩ := Token.exists_eq_of_lexeme equal
  refine .ite Iff.rfl (fun _ => .errors _ _) fun _ => ?_
  have start := same.start
  cases begins : a.start with
  | none =>
    rw [begins, Option.isSome_none] at start
    rw [Option.isNone_iff_eq_none.1 (Option.isSome_eq_false_iff.1 start.symm)]
    exact .errors _ _
  | some first =>
    rw [begins, Option.isSome_some] at start
    obtain ⟨other, beginsToo⟩ := Option.isSome_iff_exists.1 start.symm
    rw [beginsToo]
    refine .bind (agrees_item same size _ _) ?_
    rintro item _ rfl
    exact .ok ⟨same.sign, congrArg (· ++ [item]) same.items, rfl, rfl, rfl⟩

theorem agrees_extendCycle (r : Reader) (size : Size) {t u next other : Token}
    (equal : t.lexeme = u.lexeme) (sameNext : r.SameHead next other) :
    Agrees stops (fun x y => SameDraft x.1 y.1 ∧ x.2 = y.2) (r.extendCycle size a t next)
      (r.extendCycle size b u other) := by
  have symbols := r.dialect.symbolsOf_eq_of_lexeme equal
  have kind : u.kind = t.kind := congrArg Lexeme.kind equal.symm
  have goOn {x y : Except Diagnostic CycleDraft} (ended : Bool)
      (drafts : Agrees stops SameDraft x y) :
      Agrees stops (fun x y : CycleDraft × Bool => SameDraft x.1 y.1 ∧ x.2 = y.2)
        (do return (← x, ended)) (do return (← y, ended)) :=
    .bind drafts fun _ _ same => .ok ⟨same, rfl⟩
  rw [extendCycle, extendCycle, symbols, kind]
  split
  · exact goOn false (agrees_addSign same r _ sameNext)
  · refine .ite Iff.rfl (fun _ => goOn false (agrees_addNumber same size equal)) fun _ => ?_
    split
    · exact goOn false (agrees_addFace same _ _ _)
    · exact goOn _ (agrees_completePart same r size equal)

theorem agrees_makeCycle (range place : Range) :
    Agrees stops Eq (makeCycle a range) (makeCycle b place) := by
  have signOf (draft : CycleDraft) (range : Range) :
      (draft.sign.getD (.none, range)).1 = (draft.sign.map Prod.fst).getD .none := by
    cases draft.sign <;> rfl
  have signs : (a.sign.getD (.none, range)).1 = (b.sign.getD (.none, place)).1 := by
    rw [signOf, signOf, same.sign]
  rw [makeCycle, makeCycle]
  simp only [signs, same.items]
  split
  · exact .ok rfl
  · exact .errors _ _
  · exact .errors _ _

end

/-- An inert token has no place in a cycle. -/
theorem Inert.extendCycle {r : Reader} {t : Token} (inert : r.Inert t) (size : Size)
    (draft : CycleDraft) (next : Token) : ∃ d, r.extendCycle size draft t next = .error d := by
  have closers : allClosings.contains .permutationDelimiter ∧
      allClosings.contains .permutationEnd := by decide
  have separates := inert.contains closers.1
  have ends := inert.contains closers.2
  rw [Reader.extendCycle, inert.sign, inert.faces]
  simp only [if_neg inert.kind, completePart, separates, ends]
  exact ⟨_, rfl⟩

section

variable {stops : Diagnostic → Bool} {Swaps : List Token → List Token → Prop} {r : Reader}
  (swaps : r.InertSwaps Swaps) (scope outer : Scope)

include swaps

theorem agrees_readParts (size : Size) (bracket again : Token) {a b : CycleDraft}
    (same : SameDraft a b) {ts us : List Token} (tracks : Tracks Swaps ts us) :
    Agrees stops (Beside (fun x y : CycleDraft × Nat => SameDraft x.1 y.1) Swaps)
      (r.readParts scope size bracket a ts) (r.readParts outer size again b us) := by
  induction ts generalizing a b us with
  | nil =>
    obtain rfl := eq_nil_of_tracks swaps tracks
    exact .errors _ _
  | cons t ts ih =>
    obtain ⟨u, us, rfl, ⟨equal, later⟩ | ⟨inert, inertToo⟩⟩ := exists_goes swaps tracks
    · refine .bind (agrees_extendCycle same r size equal (sameHead_peek swaps later scope outer)) ?_
      rintro ⟨draft, ended⟩ ⟨other, _⟩ ⟨same, rfl⟩
      refine .ite Iff.rfl (fun _ => .ok ⟨same, later⟩) fun _ => ?_
      refine .bind (ih same later) ?_
      rintro ⟨result, rest⟩ ⟨another, left⟩ given
      exact .ok given
    · obtain ⟨d, failed⟩ := inert.extendCycle size a (scope.peek ts)
      obtain ⟨e, failedToo⟩ := inertToo.extendCycle size b (outer.peek us)
      rw [readParts, readParts, failed, failedToo]
      exact .errors _ _

theorem sameDraft_readSignBehind {a b : CycleDraft} (same : SameDraft a b) (stop halt : Nat)
    {ts us : List Token} (tracks : Tracks Swaps ts us) :
    SameDraft (r.readSignBehind a stop ts).1.1 (r.readSignBehind b halt us).1.1 ∧
      Tracks Swaps (r.readSignBehind a stop ts).2.1 (r.readSignBehind b halt us).2.1 := by
  cases ts with
  | nil =>
    obtain rfl := eq_nil_of_tracks swaps tracks
    exact ⟨same, .nil⟩
  | cons t ts =>
    obtain ⟨u, us, rfl, ⟨equal, later⟩ | ⟨inert, inertToo⟩⟩ := exists_goes swaps tracks
    · have symbols := r.dialect.symbolsOf_eq_of_lexeme equal
      have unsigned : a.sign.isNone = b.sign.isNone := by
        rw [← Option.not_isSome, ← Option.not_isSome, same.isSome_sign]
      rw [readSignBehind, readSignBehind, symbols, unsigned]
      split
      · split
        · exact ⟨⟨rfl, same.items, same.faces, same.number, same.start⟩, later⟩
        · exact ⟨same, tracks⟩
      · exact ⟨same, tracks⟩
    · rw [readSignBehind, readSignBehind, inert.sign, inertToo.sign]
      exact ⟨same, tracks⟩

theorem agrees_readCycle (seen : Wrapper → Wrapper) {sign other : Option (Cycle.Sign × Range)}
    (signs : sign.map Prod.fst = other.map Prod.fst) (bracket again : Token)
    {ts us : List Token} (tracks : Tracks Swaps ts us) :
    Agrees stops (Beside (Alike seen) Swaps) (r.readCycle scope sign bracket ts)
      (r.readCycle outer other again us) := by
  simp only [readCycle]
  cases Size.ofNat? r.dialect.layers with
  | error fault => exact .errors _ _
  | ok size =>
    have begun : SameDraft { sign, stop := bracket.range.stop }
        { sign := other, stop := again.range.stop } :=
      ⟨signs, rfl, rfl, rfl, rfl⟩
    refine .bind (agrees_readParts swaps scope outer size bracket again begun tracks) ?_
    rintro ⟨⟨draft, stop⟩, rest⟩ ⟨⟨another, halt⟩, left⟩ ⟨same, later⟩
    obtain ⟨same, later⟩ := sameDraft_readSignBehind swaps same stop halt later
    refine .bind (agrees_makeCycle same _ _) ?_
    rintro cycle _ rfl
    exact .ok ⟨.atom _ _ _, later⟩

theorem agrees_readSignedCycle (seen : Wrapper → Wrapper)
    (signed : r.dialect.accepts .permutation .before) {t u : Token} (same : t.lexeme = u.lexeme)
    {ts us : List Token} (tracks : Tracks Swaps ts us) :
    Agrees stops (Beside (Alike seen) Swaps) (r.readSignedCycle scope t ts)
      (r.readSignedCycle outer u us) := by
  cases ts with
  | nil =>
    obtain rfl := eq_nil_of_tracks swaps tracks
    exact .errors _ _
  | cons next ts =>
    obtain ⟨other, us, rfl, ⟨equal, later⟩ | ⟨inert, _⟩⟩ := exists_goes swaps tracks
    · have symbols := r.dialect.symbolsOf_eq_of_lexeme equal
      refine .ite (by rw [symbols]) (fun _ => ?_) fun _ => .errors _ _
      refine .bind (agrees_readCycle swaps scope outer seen ?_ next other later) ?_
      · rw [r.dialect.symbolsOf_eq_of_lexeme same]
        rfl
      · rintro ⟨statement, rest⟩ ⟨another, left⟩ given
        exact .ok given
    · rw [inert.unsigned] at signed
      cases signed

end

end Reader

end CubeScript
