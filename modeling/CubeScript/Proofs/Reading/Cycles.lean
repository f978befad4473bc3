import CubeScript.Proofs.Reading.Grammar
import CubeScript.Proofs.Reading.Marks
import CubeScript.Proofs.Reading.Outcomes

/-!
# Reading cycles of the standard dialect

A token of a cycle takes the draft of it one step further, and what the steps are can be listed
(`CycleStep`). What has been read of a cycle, then, is a sign, some parts with a comma behind each,
and the faces and the number of the part that is being written (`Drafted`). A draft that is finished
holds the parts that the grammar asks for, and every list of parts in the grammar is a list of
steps. The checks that a reader makes on the way are the ones that `Cycle.make` makes in the end.
-/

namespace CubeScript

open Lexeme (mark)

/-- What a token of the standard dialect does to the draft of a cycle, and whether the cycle ends
with it. -/
inductive CycleStep (size : Size) (draft : CycleDraft) (t : Token) : CycleDraft → Bool → Prop where
  | sign {sign : Cycle.Sign} (signed : Signed [t.lexeme] sign) (first : draft.items = [])
    (faceless : draft.faces = []) (unsigned : draft.sign = none) :
    CycleStep size draft t { draft with sign := some (sign, t.range) } false
  | number {k : Nat} (number : t.lexeme.number? = some k) (faces : draft.faces ≠ [])
    (numberless : draft.number = none) (many : 3 < size.layers) :
    CycleStep size draft t (draft.setNumber k t.range) false
  | face {face : Face} (letter : t.lexeme.IsFace face) (room : draft.faces.length ≠ 3)
    (numberless : draft.number = none) : CycleStep size draft t (draft.addFace face t.range) false
  | part {start : Nat} {item : Cycle.Item} {ended : Bool}
    (closes : t.lexeme = mark (if ended then ")" else ",")) (started : draft.start = some start)
    (written : draft.item size ⟨start, draft.stop⟩ = .ok item) :
    CycleStep size draft t (draft.complete item) ended

/-- A lexeme is a letter of one face at most. -/
theorem Lexeme.IsFace.unique {l : Lexeme} {face other : Face} (letter : l.IsFace face)
    (same : l.IsFace other) : face = other := by
  have apart : ∀ f ∈ Face.all, ∀ g ∈ Face.all,
      (f.letter.toString = g.letter.toString ∨ f.letter.toString = g.capital.toString ∨
        f.capital.toString = g.letter.toString ∨ f.capital.toString = g.capital.toString) →
        f = g := by
    decide
  refine apart face face.mem_all other other.mem_all ?_
  obtain rfl | rfl := letter
  · obtain same | same := same
    · exact .inl (Lexeme.mark_inj.1 same)
    · exact .inr (.inl (Lexeme.mark_inj.1 same))
  · obtain same | same := same
    · exact .inr (.inr (.inl (Lexeme.mark_inj.1 same)))
    · exact .inr (.inr (.inr (Lexeme.mark_inj.1 same)))

namespace Dialect.IsStandard

variable {d : Dialect} {size : Size} (standard : d.IsStandard size)

include standard

theorem sign?_eq_some_iff {t : Token} {sign : Cycle.Sign} :
    (d.symbolsOf t).sign? = some sign ↔ Signed [t.lexeme] sign := by
  rw [standard.sign?]
  constructor
  · intro known
    split at known
    · rename_i same
      cases known
      rw [same]
      exact .plusPlus
    · split at known
      · rename_i same
        cases known
        rw [same]
        exact .plus
      · split at known
        · rename_i same
          cases known
          rw [same]
          exact .minus
        · cases known
  · generalize same : [t.lexeme] = w
    rintro (_ | _ | _ | _)
    · cases same
    · rw [List.singleton_inj.1 same]
      rfl
    · rw [List.singleton_inj.1 same]
      rfl
    · rw [List.singleton_inj.1 same]
      rfl

theorem head?_faces_eq_some_iff {t : Token} {face : Face} :
    (d.symbolsOf t).faces.head? = some face ↔ t.lexeme.IsFace face := by
  have member (other : Face) : other ∈ (d.symbolsOf t).faces ↔ t.lexeme.IsFace other := by
    rw [SymbolSet.faces, List.mem_filterMap, Lexeme.IsFace]
    constructor
    · rintro ⟨s, contained, isFace⟩
      rw [SymbolSet.mem_toList, standard.means] at contained
      cases s <;> cases isFace
      simpa [Lexeme.means] using contained
    · intro letter
      refine ⟨.face other, ?_, rfl⟩
      rw [SymbolSet.mem_toList, standard.means]
      simpa [Lexeme.means] using letter
  constructor
  · exact fun first => (member face).1 (List.mem_of_head? first)
  · intro letter
    cases known : (d.symbolsOf t).faces with
    | nil => exact absurd ((member face).2 letter) (by simp [known])
    | cons other others =>
      have same := (member other).1 (by simp [known])
      rw [List.head?_cons, letter.unique same]

end Dialect.IsStandard

namespace Reader

variable {r : Reader} {size : Size} {draft result : CycleDraft} {t next : Token}

theorem addSign_eq_ok_iff (standard : r.dialect.IsStandard size) {sign : Cycle.Sign} :
    r.addSign draft sign t next = .ok result ↔ draft.items = [] ∧ draft.faces = [] ∧
      draft.sign = none ∧ result = { draft with sign := some (sign, t.range) } := by
  have allowed : r.signAllowed draft next = (draft.items.isEmpty && draft.faces.isEmpty) := by
    simp [signAllowed, standard.accepts, Construct.placements]
  rw [addSign, allowed]
  cases draft.items <;> cases draft.faces <;> cases draft.sign <;> simp [eq_comm]

theorem addNumber_eq_ok_iff : addNumber size draft t = .ok result ↔ draft.faces ≠ [] ∧
    draft.number = none ∧ 3 < size.layers ∧
      ∃ k, t.lexeme.number? = some k ∧ result = draft.setNumber k t.range := by
  rw [addNumber, Token.number?_lexeme]
  by_cases few : size.layers ≤ 3
  · cases draft.faces <;> cases draft.number <;> simp [few, Nat.not_lt.2 few]
  · cases draft.faces <;> cases draft.number <;> cases t.number? <;>
      simp [few, Nat.lt_of_not_le few, eq_comm]

theorem addFace_eq_ok_iff {face : Face} : addFace draft face t = .ok result ↔
    draft.faces.length ≠ 3 ∧ draft.number = none ∧ result = draft.addFace face t.range := by
  rw [addFace]
  cases draft.number <;> by_cases full : draft.faces.length = 3 <;> simp [full, eq_comm]

theorem completePart_eq_ok_iff (standard : r.dialect.IsStandard size) :
    r.completePart size draft t = .ok result ↔
      (t.lexeme = mark "," ∨ t.lexeme = mark ")") ∧ ∃ start item, draft.start = some start ∧
        draft.item size ⟨start, draft.stop⟩ = .ok item ∧ result = draft.complete item := by
  rw [completePart]
  simp only [standard.means, Lexeme.means]
  by_cases ends : t.lexeme = mark "," ∨ t.lexeme = mark ")"
  · have passes : (!decide (t.lexeme = mark ",") && !decide (t.lexeme = mark ")")) = false := by
      obtain comma | closing := ends
      · simp [comma]
      · simp [closing]
    rw [passes, if_neg (by decide)]
    cases started : draft.start with
    | none => simp [ends]
    | some start =>
      simp only [Except.bind_eq_ok_iff, ends, true_and]
      constructor
      · rintro ⟨item, written, same⟩
        cases same
        exact ⟨start, item, rfl, written, rfl⟩
      · rintro ⟨_, item, same, written, rfl⟩
        cases same
        exact ⟨item, written, rfl⟩
  · have stops : (!decide (t.lexeme = mark ",") && !decide (t.lexeme = mark ")")) = true := by
      rw [not_or] at ends
      simp [ends]
    rw [stops, if_pos rfl]
    constructor
    · rintro ⟨⟩
    · rintro ⟨other, _⟩
      exact absurd other ends

/-- A lexeme is a sign, a number, a letter of a face, or none of these. -/
theorem not_signed {l : Lexeme} {sign : Cycle.Sign}
    (other : l ≠ mark "+" ∧ l ≠ mark "-" ∧ l ≠ mark "++") : ¬ Signed [l] sign := by
  generalize same : [l] = w
  rintro (_ | _ | _ | _)
  · cases same
  · exact other.1 (List.singleton_inj.1 same)
  · exact other.2.1 (List.singleton_inj.1 same)
  · exact other.2.2 (List.singleton_inj.1 same)

/-- What a token does to a draft is one of the steps that are listed. -/
theorem cycleStep_of_extendCycle (standard : r.dialect.IsStandard size) {ended : Bool}
    (extended : r.extendCycle size draft t next = .ok (result, ended)) :
    CycleStep size draft t result ended := by
  rw [extendCycle] at extended
  split at extended
  · rename_i sign known
    obtain ⟨_, added, same⟩ := Except.bind_eq_ok_iff.1 extended
    cases same
    obtain ⟨first, faceless, unsigned, rfl⟩ := (addSign_eq_ok_iff standard).1 added
    exact .sign (standard.sign?_eq_some_iff.1 known) first faceless unsigned
  · split at extended
    · obtain ⟨_, added, same⟩ := Except.bind_eq_ok_iff.1 extended
      cases same
      obtain ⟨faces, numberless, many, k, number, rfl⟩ := addNumber_eq_ok_iff.1 added
      exact .number number faces numberless many
    · split at extended
      · rename_i face known
        obtain ⟨_, added, same⟩ := Except.bind_eq_ok_iff.1 extended
        cases same
        obtain ⟨room, numberless, rfl⟩ := addFace_eq_ok_iff.1 added
        exact .face (standard.head?_faces_eq_some_iff.1 known) room numberless
      · obtain ⟨_, completed, same⟩ := Except.bind_eq_ok_iff.1 extended
        cases same
        obtain ⟨ends, start, item, started, written, rfl⟩ :=
          (completePart_eq_ok_iff standard).1 completed
        refine .part ?_ started written
        simp only [standard.means, Lexeme.means]
        obtain comma | closing := ends
        · simp [comma, Lexeme.mark_inj]
        · simp [closing]

theorem extendCycle_of_cycleStep (standard : r.dialect.IsStandard size) {ended : Bool}
    (step : CycleStep size draft t result ended) :
    r.extendCycle size draft t next = .ok (result, ended) := by
  have kind : t.lexeme.kind = t.kind := rfl
  have unsigned (other : t.lexeme ≠ mark "+" ∧ t.lexeme ≠ mark "-" ∧ t.lexeme ≠ mark "++") :
      (r.dialect.symbolsOf t).sign? = none := by
    refine Option.eq_none_iff_forall_ne_some.2 ?_
    intro sign known
    exact not_signed other (standard.sign?_eq_some_iff.1 known)
  rw [extendCycle]
  cases step with
  | sign signed first faceless free =>
    rw [standard.sign?_eq_some_iff.2 signed]
    exact Except.bind_eq_ok_iff.2
      ⟨_, (addSign_eq_ok_iff standard).2 ⟨first, faceless, free, rfl⟩, rfl⟩
  | number number faces numberless many =>
    have other := Lexeme.ne_mark_of_number? number
    rw [unsigned ⟨other _, other _, other _⟩, ← kind, if_pos (Lexeme.kind_of_number? number)]
    exact Except.bind_eq_ok_iff.2
      ⟨_, addNumber_eq_ok_iff.2 ⟨faces, numberless, many, _, number, rfl⟩, rfl⟩
  | face letter room numberless =>
    have other {w : String} := letter.ne_mark (w := w)
    have keyword : t.lexeme.kind = .keyword := by
      obtain same | same := letter <;> rw [same] <;> rfl
    have first := standard.head?_faces_eq_some_iff.2 letter
    rw [unsigned ⟨other (by decide), other (by decide), other (by decide)⟩]
    simp only [← kind, keyword, first]
    exact Except.bind_eq_ok_iff.2 ⟨_, addFace_eq_ok_iff.2 ⟨room, numberless, rfl⟩, rfl⟩
  | part closes started written =>
    have faceless : (r.dialect.symbolsOf t).faces.head? = none := by
      refine Option.eq_none_iff_forall_ne_some.2 ?_
      intro face known
      have letter := standard.head?_faces_eq_some_iff.1 known
      refine letter.ne_mark (w := if ended then ")" else ",") ?_ closes
      cases ended <;> decide
    have keyword : t.lexeme.kind = .keyword := by rw [closes]; rfl
    have none := unsigned (by cases ended <;> rw [closes] <;> decide)
    have ends : t.lexeme = mark "," ∨ t.lexeme = mark ")" := by
      cases ended
      · exact .inl closes
      · exact .inr closes
    rw [none]
    simp only [← kind, keyword, faceless, standard.means, Lexeme.means]
    refine Except.bind_eq_ok_iff.2
      ⟨_, (completePart_eq_ok_iff standard).2 ⟨ends, _, _, started, written, rfl⟩, ?_⟩
    cases ended <;> simp [closes, Lexeme.mark_inj] <;> rfl

end Reader

namespace CycleDraft

variable {size : Size} {draft : CycleDraft}

/-- The sign that has been read. -/
def signature (draft : CycleDraft) : Cycle.Sign := (draft.sign.map Prod.fst).getD .none

theorem item_eq_ok_iff {range : Range} {item : Cycle.Item} : draft.item size range = .ok item ↔
    Cycle.Item.ofFaces size draft.faces draft.number = .ok item ∧
      draft.itemProblem? item = none := by
  rw [CycleDraft.item]
  cases Cycle.Item.ofFaces size draft.faces draft.number with
  | error fault => simp
  | ok found =>
    dsimp only
    constructor
    · intro written
      split at written
      · cases written
      · cases written
        exact ⟨rfl, by assumption⟩
    · rintro ⟨same, none⟩
      cases same
      rw [none]

/-- Parts of one kind at different places have no problem. -/
theorem itemProblem?_eq_none {kind : PieceKind} {item : Cycle.Item} {later : List Cycle.Item}
    (same : ∀ other ∈ draft.items ++ item :: later, other.kind = kind)
    (apart : ((draft.items ++ item :: later).map Cycle.Item.place).Nodup) :
    draft.itemProblem? item = none := by
  rw [itemProblem?]
  cases known : draft.items.head? with
  | none => rfl
  | some first =>
    have member : first ∈ draft.items := List.mem_of_head? known
    have kinds : first.kind = item.kind := by
      rw [same first (by simp [member]), same item (by simp)]
    have places : ∀ other ∈ draft.items, ¬ other.place = item.place := by
      rw [List.map_append, List.map_cons, List.nodup_append] at apart
      intro other found
      exact apart.2.2 _ (List.mem_map_of_mem found) _ List.mem_cons_self
    simpa [kinds] using places

end CycleDraft

/-! ### What has been read of a cycle -/

/-- Parts with a comma behind each. -/
inductive Completed (size : Size) : List Lexeme → List Cycle.Item → Prop where
  | nil : Completed size [] []
  | snoc {w letters digits : List Lexeme} {items : List Cycle.Item} {faces : List Face}
    {number : Option Nat} {item : Cycle.Item} (before : Completed size w items)
    (spelt : Spells size letters faces digits number item) :
    Completed size (w ++ (letters ++ digits ++ [mark ","])) (items ++ [item])

theorem Completed.append_parts {size : Size} {w v : List Lexeme} {items more : List Cycle.Item}
    (completed : Completed size w items) (parts : Parts size v more) :
    Parts size (w ++ v) (items ++ more) := by
  induction completed generalizing v more with
  | nil => exact parts
  | snoc _ spelt ih =>
    have larger := ih (.more spelt parts)
    simpa only [List.append_assoc, List.cons_append, List.nil_append] using larger

/-- Whether a draft holds what has been read of a cycle: its sign, the parts that are complete, and
the faces and the number of the one that is being written. -/
structure Drafted (size : Size) (draft : CycleDraft) (signs done letters digits : List Lexeme) :
    Prop where
  signed : Signed signs draft.signature
  done : Completed size done draft.items
  letters : List.Forall₂ Lexeme.IsFace letters draft.faces
  digits : Numbered size digits draft.number
  room : draft.faces.length ≤ 3
  numberless : draft.faces = [] → draft.number = none
  started : draft.start.isSome → draft.faces ≠ []

namespace Drafted

variable {size : Size} {draft result : CycleDraft} {signs done letters digits : List Lexeme}
  {t : Token}

theorem start (size : Size) (stop : Nat) : Drafted size { stop := stop } [] [] [] [] where
  signed := .none
  done := .nil
  letters := .nil
  digits := .none
  room := Nat.zero_le 3
  numberless _ := rfl
  started := nofun

theorem spells (drafted : Drafted size draft signs done letters digits) {start : Nat}
    {item : Cycle.Item} {range : Range} (started : draft.start = some start)
    (written : draft.item size range = .ok item) :
    Spells size letters draft.faces digits draft.number item where
  letters := drafted.letters
  some_face := drafted.started (by rw [started]; rfl)
  three_faces := drafted.room
  digits := drafted.digits
  item := (CycleDraft.item_eq_ok_iff.1 written).1

/-- A step keeps a draft one, and takes the token into it. -/
theorem step (drafted : Drafted size draft signs done letters digits)
    (step : CycleStep size draft t result false) : ∃ signs' done' letters' digits',
      Drafted size result signs' done' letters' digits' ∧
      signs' ++ done' ++ (letters' ++ digits') =
        signs ++ done ++ (letters ++ digits) ++ [t.lexeme] := by
  cases step with
  | sign signed first faceless unsigned =>
    obtain ⟨before, completed, faces, number, room, numberless, started⟩ := drafted
    have none : digits = [] := by
      rw [numberless faceless] at number
      cases number
      rfl
    rw [first] at completed
    rw [faceless] at faces
    rw [CycleDraft.signature, unsigned] at before
    cases before
    cases faces
    cases none
    have empty : done = [] := by
      generalize same : ([] : List Cycle.Item) = items at completed
      cases completed with
      | nil => rfl
      | snoc _ _ => simp at same
    cases empty
    refine ⟨[t.lexeme], [], [], [], ⟨signed, ?_, ?_, number, room, numberless, started⟩, rfl⟩
    · exact first ▸ .nil
    · exact faceless ▸ .nil
  | number number faces numberless many =>
    obtain ⟨before, completed, letters, digits, room, _, started⟩ := drafted
    rw [numberless] at digits
    cases digits
    refine ⟨_, _, _, [t.lexeme],
      ⟨before, completed, letters, .some many number, room, fun none => absurd none faces, started⟩,
      by simp⟩
  | face letter room numberless =>
    obtain ⟨before, completed, letters, digits, three, _, started⟩ := drafted
    rw [numberless] at digits
    cases digits
    have longer := List.rel_append letters (List.Forall₂.cons letter .nil)
    refine ⟨_, _, _, [], ⟨before, completed, longer, ?_, ?_, ?_, ?_⟩, by simp⟩
    · exact numberless ▸ .none
    · simp only [CycleDraft.addFace, List.length_append, List.length_singleton]
      omega
    · simp [CycleDraft.addFace]
    · simp [CycleDraft.addFace]
  | part closes started written =>
    have spelt := drafted.spells started written
    refine ⟨signs, _, [], [], ⟨drafted.signed, .snoc drafted.done spelt, .nil, .none,
      Nat.zero_le 3, fun _ => rfl, nofun⟩, ?_⟩
    rw [closes]
    simp

end Drafted

namespace Reader

open Reading

variable {r : Reader} {size : Size} (standard : r.dialect.IsStandard size) {scope : Scope}
  {bracket : Token} {draft : CycleDraft} {ts rest : List Token}

include standard

/-- What has been read when a cycle ends are its sign and its parts, up to a closing bracket. -/
theorem parts_of_readParts {signs done letters digits : List Lexeme}
    (drafted : Drafted size draft signs done letters digits) {result : CycleDraft × Nat}
    (given : Gives (r.readParts scope size bracket draft ts) result rest) :
    ∃ us closing signs' w, ts = us ++ closing :: rest ∧ closing.lexeme = mark ")" ∧
      signs ++ done ++ (letters ++ digits) ++ us.map Token.lexeme = signs' ++ w ∧
      Signed signs' result.1.signature ∧ Parts size w result.1.items := by
  induction ts generalizing draft signs done letters digits with
  | nil => exact absurd given gives_readParts_nil
  | cons t ts ih =>
    obtain ⟨next, ended, extended, went⟩ := gives_readParts_cons.1 given
    have step := cycleStep_of_extendCycle standard extended
    cases ended with
    | false =>
      obtain ⟨_, _, _, _, longer, same⟩ := drafted.step step
      obtain ⟨us, closing, signs', w, rfl, closes, split, signed, parts⟩ := ih longer went
      refine ⟨t :: us, closing, signs', w, rfl, closes, ?_, signed, parts⟩
      rw [← split, same]
      simp
    | true =>
      obtain ⟨rfl, rfl⟩ := went
      cases step with
      | part closes started written =>
        have last := Parts.last (drafted.spells started written)
        refine ⟨[], t, signs, done ++ (letters ++ digits), rfl, closes, by simp, drafted.signed, ?_⟩
        exact drafted.done.append_parts last

theorem gives_readParts_of_step {t : Token} {next : CycleDraft} {result : CycleDraft × Nat}
    (step : CycleStep size draft t next false)
    (given : Gives (r.readParts scope size bracket next ts) result rest) :
    Gives (r.readParts scope size bracket draft (t :: ts)) result rest :=
  gives_readParts_cons.2 ⟨next, false, extendCycle_of_cycleStep standard step, given⟩

/-- Whether reading goes on with another draft behind some tokens. -/
def GoesOn (r : Reader) (scope : Scope) (size : Size) (bracket : Token)
    (draft : CycleDraft) (us : List Token) (next : CycleDraft) : Prop :=
  ∀ ts result rest, Gives (r.readParts scope size bracket next ts) result rest →
    Gives (r.readParts scope size bracket draft (us ++ ts)) result rest

/-- The letters of faces are read as long as there are three at most. -/
theorem goesOn_letters {us : List Token} {faces : List Face}
    (letters : List.Forall₂ Lexeme.IsFace (us.map Token.lexeme) faces)
    (numberless : draft.number = none) (room : draft.faces.length + faces.length ≤ 3) :
    ∃ next, GoesOn r scope size bracket draft us next ∧ next.sign = draft.sign ∧
      next.items = draft.items ∧ next.faces = draft.faces ++ faces ∧ next.number = none ∧
      (draft.start.isSome ∨ faces ≠ [] → next.start.isSome) := by
  induction us generalizing draft faces with
  | nil =>
    cases letters
    exact ⟨draft, fun _ _ _ given => given, rfl, rfl, by simp, numberless, by simp⟩
  | cons t us ih =>
    cases letters with
    | cons letter letters =>
      rename_i face faces
      rw [List.length_cons] at room
      have step : CycleStep size draft t (draft.addFace face t.range) false :=
        .face letter (by omega) numberless
      have free : (draft.addFace face t.range).number = none := numberless
      have fewer : (draft.addFace face t.range).faces.length + faces.length ≤ 3 := by
        simp only [CycleDraft.addFace, List.length_append, List.length_singleton]
        omega
      obtain ⟨next, goes, sign, items, all, number, started⟩ := ih letters free fewer
      refine ⟨next, fun ts result rest given => ?_, sign, items, ?_, number, fun _ => ?_⟩
      · exact gives_readParts_of_step standard step (goes ts result rest given)
      · rw [all, CycleDraft.addFace, List.append_assoc, List.singleton_append]
      · exact started (.inl rfl)

/-- A part is read up to what separates it from the next one. -/
theorem goesOn_spells {us : List Token} {letters digits : List Lexeme} {faces : List Face}
    {number : Option Nat} {item : Cycle.Item}
    (spelt : Spells size letters faces digits number item)
    (same : us.map Token.lexeme = letters ++ digits) (faceless : draft.faces = [])
    (numberless : draft.number = none) :
    ∃ next, GoesOn r scope size bracket draft us next ∧ next.sign = draft.sign ∧
      next.items = draft.items ∧ next.faces = faces ∧ next.number = number ∧
      ∃ start, next.start = some start := by
  obtain ⟨us, vs, rfl, first, second⟩ := List.map_eq_append_iff.1 same
  have letters := spelt.letters
  have room : draft.faces.length + faces.length ≤ 3 := by
    rw [faceless, List.length_nil, Nat.zero_add]
    exact spelt.three_faces
  rw [← first] at letters
  obtain ⟨next, goes, sign, items, all, free, started⟩ :=
    goesOn_letters standard letters numberless room
  rw [faceless, List.nil_append] at all
  obtain ⟨start, started⟩ := Option.isSome_iff_exists.1 (started (.inr spelt.some_face))
  cases spelt.digits with
  | none =>
    obtain rfl := List.map_eq_nil_iff.1 second
    rw [List.append_nil]
    exact ⟨next, goes, sign, items, all, free, start, started⟩
  | some many counted =>
    rename_i l k
    obtain ⟨t, vs, rfl, rfl, none⟩ := List.map_eq_cons_iff.1 second
    obtain rfl := List.map_eq_nil_iff.1 none
    have filled : next.faces ≠ [] := by
      rw [all]
      exact spelt.some_face
    refine ⟨next.setNumber k t.range, fun ts result rest given => ?_, sign, items, all, rfl,
      start, started⟩
    rw [List.append_assoc]
    refine goes _ _ _ ?_
    exact gives_readParts_of_step standard (.number counted filled free many) given

/-- Parts are read up to the closing bracket, if a cycle may go through them. -/
theorem gives_readParts_of_parts {w : List Lexeme} {items : List Cycle.Item}
    (parts : Parts size w items) {us : List Token} {closing : Token} {kind : PieceKind}
    (same : us.map Token.lexeme = w) (closes : closing.lexeme = mark ")")
    (faceless : draft.faces = []) (numberless : draft.number = none)
    (kinds : ∀ item ∈ draft.items ++ items, item.kind = kind)
    (apart : ((draft.items ++ items).map Cycle.Item.place).Nodup) :
    ∃ result stop, Gives (r.readParts scope size bracket draft (us ++ closing :: rest))
      (result, stop) rest ∧ result.sign = draft.sign ∧ result.items = draft.items ++ items := by
  induction parts generalizing draft us with
  | @last _ _ _ _ item spelt =>
    obtain ⟨next, goes, sign, same, faces, number, start, started⟩ :=
      goesOn_spells standard spelt same faceless numberless
    rw [← same] at kinds apart
    have written : next.item size ⟨start, next.stop⟩ = .ok item := by
      rw [CycleDraft.item_eq_ok_iff, faces, number]
      exact ⟨spelt.item, CycleDraft.itemProblem?_eq_none kinds apart⟩
    have step : CycleStep size next closing (next.complete item) true :=
      .part closes started written
    refine ⟨next.complete item, closing.range.stop, goes _ _ _ ?_, sign, ?_⟩
    · exact gives_readParts_cons.2
        ⟨_, true, extendCycle_of_cycleStep standard step, ⟨rfl, rfl⟩⟩
    · rw [CycleDraft.complete, same]
  | @more _ _ _ _ _ item items spelt _ ih =>
    obtain ⟨us, vs, rfl, written, rest⟩ := List.map_eq_append_iff.1 same
    obtain ⟨comma, vs, rfl, separates, later⟩ := List.map_eq_cons_iff.1 rest
    obtain ⟨next, goes, sign, same, faces, number, start, started⟩ :=
      goesOn_spells standard spelt written faceless numberless
    rw [← same] at kinds apart
    have complete : next.item size ⟨start, next.stop⟩ = .ok item := by
      rw [CycleDraft.item_eq_ok_iff, faces, number]
      exact ⟨spelt.item, CycleDraft.itemProblem?_eq_none kinds apart⟩
    have step : CycleStep size next comma (next.complete item) false :=
      .part separates started complete
    have shifted : (next.complete item).items ++ items = next.items ++ item :: items := by
      simp [CycleDraft.complete]
    rw [← shifted] at kinds apart
    obtain ⟨result, stop, given, signed, all⟩ := ih later rfl rfl kinds apart
    refine ⟨result, stop, ?_, signed.trans sign, ?_⟩
    · rw [List.append_assoc]
      exact goes _ _ _ (gives_readParts_of_step standard step given)
    · rw [all, shifted, same]

/-! ### Whole cycles -/

/-- There is no sign behind a cycle. -/
theorem readSignBehind_eq (draft : CycleDraft) (stop : Nat) (ts : List Token) :
    r.readSignBehind draft stop ts = ((draft, stop), .all ts) := by
  refine readSignBehind_of_not_accepts ?_ draft stop ts
  rw [standard.accepts]
  decide

omit standard in
theorem makeCycle_eq_ok_iff {range : Range} {c : Cycle} :
    makeCycle draft range = .ok c ↔ Cycle.make draft.items draft.signature = .ok c := by
  have sign : (draft.sign.getD (.none, range)).1 = draft.signature := by
    rw [CycleDraft.signature]
    cases draft.sign <;> rfl
  rw [makeCycle, ← sign]
  dsimp only
  cases Cycle.make draft.items (draft.sign.getD (.none, range)).1 with
  | ok c => exact ⟨fun h => Except.ok.inj h ▸ rfl, fun h => Except.ok.inj h ▸ rfl⟩
  | error fault => cases fault <;> exact ⟨nofun, nofun⟩

/-- What is read as a cycle is one of the grammar. -/
theorem cycle_of_readCycle {statement : Statement}
    (given : Gives (r.readCycle scope none bracket ts) statement rest) :
    ∃ us closing signs w sign items, ts = us ++ closing :: rest ∧ closing.lexeme = mark ")" ∧
      us.map Token.lexeme = signs ++ w ∧ Signed signs sign ∧ Parts size w items ∧
      Fits items sign := by
  obtain ⟨found, draft, stop, middle, final, cycle, layers, parts, rfl, same, made, _⟩ :=
    gives_readCycle.1 given
  rw [standard.layers, Size.ofNat?_layers] at layers
  cases layers
  rw [readSignBehind_eq standard] at same made
  obtain rfl : middle = rest := same
  obtain ⟨us, closing, signs, w, rfl, closes, split, signed, parts⟩ :=
    parts_of_readParts standard (.start size bracket.range.stop) parts
  have made := exists_make_iff.1 ⟨cycle, makeCycle_eq_ok_iff.1 made⟩
  exact ⟨us, closing, signs, w, _, _, rfl, closes, split, signed, parts, made.2⟩

/-- A cycle of the grammar is read as one. -/
theorem gives_readCycle_of_parts {signs w : List Lexeme} {sign : Cycle.Sign}
    {items : List Cycle.Item} {us : List Token} {closing : Token} {c : Cycle}
    (same : us.map Token.lexeme = signs ++ w) (closes : closing.lexeme = mark ")")
    (signed : Signed signs sign) (parts : Parts size w items)
    (made : Cycle.make items sign = .ok c) :
    ∃ range, Gives (r.readCycle scope none bracket (us ++ closing :: rest))
      (.atom (.cycle c) range) rest := by
  obtain ⟨_, kind, kinds, apart, _⟩ := exists_make_iff.1 ⟨c, made⟩
  obtain ⟨us, vs, rfl, rfl, written⟩ := List.map_eq_append_iff.1 same
  have first : ∃ draft : CycleDraft,
      GoesOn r scope size bracket { stop := bracket.range.stop } us draft ∧
        draft.signature = sign ∧ draft.items = [] ∧ draft.faces = [] ∧ draft.number = none := by
    match us with
    | [] =>
      cases signed
      exact ⟨_, fun _ _ _ given => given, rfl, rfl, rfl, rfl⟩
    | [t] =>
      have step : CycleStep size { stop := bracket.range.stop } t
          { sign := some (sign, t.range), stop := bracket.range.stop } false :=
        .sign signed rfl rfl rfl
      exact ⟨_, fun _ _ _ given => gives_readParts_of_step standard step given, rfl, rfl, rfl,
        rfl⟩
    | _ :: _ :: _ => exact absurd signed.length_le (by simp)
  obtain ⟨draft, goes, rfl, empty, faceless, numberless⟩ := first
  rw [← List.nil_append items, ← empty] at kinds apart
  have read : ∃ result stop, Gives (r.readParts scope size bracket draft (vs ++ closing :: rest))
      (result, stop) rest ∧ result.sign = draft.sign ∧ result.items = draft.items ++ items :=
    gives_readParts_of_parts standard parts written closes faceless numberless kinds apart
  obtain ⟨result, stop, given, kept, all⟩ := read
  have signature : result.signature = draft.signature := by
    rw [CycleDraft.signature, CycleDraft.signature, kept]
  rw [empty, List.nil_append] at all
  refine ⟨⟨bracket.range.start, stop⟩, gives_readCycle.2 ⟨size, result, stop, rest, _, c, ?_, ?_,
    rfl, ?_, ?_, ?_⟩⟩
  · rw [standard.layers, Size.ofNat?_layers]
  · rw [List.append_assoc]
    exact goes _ _ _ given
  · rw [readSignBehind_eq standard]
    rfl
  · rw [readSignBehind_eq standard, makeCycle_eq_ok_iff, signature, all]
    exact made
  · rw [readSignBehind_eq standard]
    rfl

end Reader

end CubeScript
