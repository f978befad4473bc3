import CubeScript.Proofs.Dialect.Building
import CubeScript.Proofs.Script.Fitting

/-!
# Lexicons whose tables agree

Three tables tell what a token means: one holds the meanings, one the turns and one the texts of
shorthands. The calls that build a lexicon touch them in any order, and a reader relies on their
telling the same: a token that has a turn is listed as one that means a turn, a token with a text is
listed as a shorthand, and no token is listed that means nothing.

`Lexicon.Coherent` says so of the tables, and every call keeps it (`Lexicon.Coherent.edited`). The
calls that take something away are the ones to look at. Forgetting a token takes its row out of all
three tables. Taking a meaning away drops the tokens that are left with none, and takes the whole
table with it if the meaning is that of the table.

The empty token is left out of the two tables of data. It may be given a turn or a text, and never a
meaning. A meaning, on the other hand, may be given without data: a token that means a turn need not
have one.

That a token's turn is of some layer is not kept by the calls. It holds as long as no turn of no
layer is added.
-/

namespace CubeScript

/-- Whether what a dialect answers about its tokens fits together, where no turn has a smaller mask
of layers than some number. -/
structure Dialect.Coherent (d : Dialect) (least : Nat) : Prop where
  keywords : ∀ w ∈ d.keywords, w ≠ "" ∧ ∃ s, (d.symbols w).contains s
  turns : ∀ w t, w ≠ "" → d.turn? w = some t → (d.symbols w).contains .move ∧
    t.axis.index ≤ 2 ∧ (least ≤ t.layers.toNat ∧ t.layers.toNat < 2 ^ d.layers) ∧
    t.angle.toInt ∈ [-2, -1, 1, 2]
  expansions : ∀ w text, w ≠ "" → d.expansion? w = some text → (d.symbols w).contains .shorthand
  supported : ∀ s : Symbol, ¬ s.isConstruct → (d.supports s ↔ (d.tokenFor? s).isSome)
  listed : ∀ s : Symbol, ¬ s.isConstruct →
    ((d.tokenFor? s).isSome ↔ ∃ w ∈ d.keywords, (d.symbols w).contains s)

namespace Lexicon

/-- Whether the tables of a lexicon agree on its tokens. -/
structure Coherent (l : Lexicon) : Prop where
  filled : ∀ w set, l.tokens.get? w = some set → w ≠ "" ∧ ∃ s, set.contains s
  turns : ∀ w t, w ≠ "" → l.turns.get? w = some t → l.Means w .move
  shorthands : ∀ w text, w ≠ "" → l.shorthands.get? w = some text → l.Means w .shorthand

/-! ### What the calls do to the meanings -/

section

variable {l : Lexicon} {w token : String} {s m : Symbol}

theorem Means.add (known : l.Means w s) (filled : w ≠ "") (token : String) (m : Symbol) :
    (l.addMeaning token m).Means w s :=
  (means_addMeaning filled token m).2 (.inl known)

theorem means_addMeaning_self (filled : w ≠ "") (s : Symbol) : (l.addMeaning w s).Means w s :=
  (means_addMeaning filled w s).2 (.inr ⟨rfl, rfl⟩)

theorem means_eraseToken : (l.eraseToken token).Means w s ↔ w ≠ token ∧ l.Means w s := by
  rw [Means, Means, eraseToken, Table.get?_erase]
  by_cases same : w = token
  · simp [same]
  · simp [same]

theorem means_eraseMeaning : (l.eraseMeaning m).Means w s ↔ l.Means w s ∧ s ≠ m := by
  rw [Means, Means, eraseMeaning, Table.get?_filterMap]
  cases known : l.tokens.get? w with
  | none => simp
  | some set =>
    simp only [Option.bind_some, Option.getD_some]
    by_cases empty : (set.erase m).isEmpty
    · -- A set that loses its only meaning is dropped, and has no other meaning.
      have none := SymbolSet.isEmpty_iff.1 empty s
      rw [SymbolSet.contains_erase] at none
      simp only [empty, if_true, Option.getD_none, SymbolSet.contains_empty]
      simpa using none
    · simp [empty]

end

/-! ### What the calls keep -/

namespace Coherent

variable {admits : Turn → Prop} {l larger : Lexicon}

theorem addMeaning (coherent : l.Coherent) (token : String) (s : Symbol) :
    (l.addMeaning token s).Coherent := by
  by_cases empty : token = ""
  · rw [Lexicon.addMeaning, if_pos empty]
    exact coherent
  refine ⟨fun w set known => ?_, fun w t filled known => ?_, fun w text filled known => ?_⟩
  · rw [Lexicon.addMeaning, if_neg empty, Table.get?_update] at known
    split at known
    · rename_i same
      cases known
      exact ⟨same ▸ empty, s, by simp⟩
    · exact coherent.filled w set known
  · rw [turns_addMeaning] at known
    exact (coherent.turns w t filled known).add filled token s
  · have kept := (adds_addMeaning l empty s).shorthands
    rw [kept] at known
    exact (coherent.shorthands w text filled known).add filled token s

theorem addTurn (coherent : l.Coherent) (token : String) (t : Turn) :
    (l.addTurn token t).Coherent := by
  have added := coherent.addMeaning token .move
  refine ⟨added.filled, fun w u filled known => ?_, added.shorthands⟩
  rw [Lexicon.addTurn, Table.get?_set] at known
  split at known
  · rename_i same
    subst same
    exact means_addMeaning_self filled .move
  · exact (coherent.turns w u filled known).add filled token .move

theorem addShorthand (coherent : l.Coherent) (token text : String) :
    (l.addShorthand token text).Coherent := by
  have added := coherent.addMeaning token .shorthand
  refine ⟨added.filled, added.turns, fun w other filled known => ?_⟩
  rw [Lexicon.addShorthand, Table.get?_set] at known
  split at known
  · rename_i same
    subst same
    exact means_addMeaning_self filled .shorthand
  · exact (coherent.shorthands w other filled known).add filled token .shorthand

theorem eraseToken (coherent : l.Coherent) (token : String) : (l.eraseToken token).Coherent := by
  refine ⟨fun w set known => ?_, fun w t filled known => ?_, fun w text filled known => ?_⟩
  all_goals
    rw [Lexicon.eraseToken, Table.get?_erase] at known
    split at known
    · cases known
  · exact coherent.filled w set known
  · rename_i other
    exact means_eraseToken.2 ⟨other, coherent.turns w t filled known⟩
  · rename_i other
    exact means_eraseToken.2 ⟨other, coherent.shorthands w text filled known⟩

theorem eraseMeaning (coherent : l.Coherent) (s : Symbol) : (l.eraseMeaning s).Coherent := by
  refine ⟨fun w set known => ?_, fun w t filled known => ?_, fun w text filled known => ?_⟩
  · rw [Lexicon.eraseMeaning, Table.get?_filterMap] at known
    obtain ⟨before, given, left⟩ := Option.bind_eq_some_iff.1 known
    refine ⟨(coherent.filled w before given).1, ?_⟩
    dsimp only at left
    split at left
    · cases left
    · rename_i some
      cases left
      rw [SymbolSet.isEmpty_iff] at some
      simpa using some
  · rw [Lexicon.eraseMeaning] at known
    dsimp only at known
    split at known
    · cases known
    · rename_i other
      exact means_eraseMeaning.2 ⟨coherent.turns w t filled known, fun h => other h.symm⟩
  · rw [Lexicon.eraseMeaning] at known
    dsimp only at known
    split at known
    · cases known
    · rename_i other
      exact means_eraseMeaning.2 ⟨coherent.shorthands w text filled known, fun h => other h.symm⟩

theorem ne_empty_of_means (coherent : l.Coherent) {w : String} {s : Symbol} (means : l.Means w s) :
    w ≠ "" := by
  rw [Means] at means
  cases known : l.tokens.get? w with
  | none => simp [known] at means
  | some set => exact (coherent.filled w set known).1

/-- Every call keeps the tables in agreement. -/
theorem edited (coherent : l.Coherent) (edit : Edits admits l larger) : larger.Coherent := by
  cases edit with
  | addMeaning token s => exact coherent.addMeaning token s
  | addTurn _ added =>
    rw [addTurn?] at added
    split at added
    · cases added
      exact coherent.addTurn _ _
    · cases added
  | addShorthand token text => exact coherent.addShorthand token text
  | eraseToken token => exact coherent.eraseToken token
  | eraseMeaning s => exact coherent.eraseMeaning s
  | setPlacements | setBlanks | setLineComment | setBlockComment =>
    exact ⟨coherent.filled, coherent.turns, coherent.shorthands⟩

theorem editedMany (coherent : l.Coherent) (edits : EditsMany admits l larger) :
    larger.Coherent := by
  induction edits with
  | refl => exact coherent
  | tail _ edit ih => exact ih.edited edit

end Coherent

/-! ### The lexicons that can be built -/

theorem ne_empty_of_mem_standardMeanings {n : Nat} {w : String} {s : Symbol}
    (member : (w, s) ∈ standardMeanings n) : w ≠ "" := by
  obtain mark | face := List.mem_append.1 member
  · have marks : ∀ entry ∈ markMeanings, entry.1 ≠ "" := by decide
    exact marks _ mark
  · obtain ⟨face, _, own⟩ := List.mem_flatMap.1 face
    obtain letter | turn := List.mem_append.1 own
    · have letters : ∀ face ∈ Face.all, face.letter.toString ≠ "" ∧ face.capital.toString ≠ "" := by
        decide
      obtain ⟨small, capital⟩ := letters face face.mem_all
      simp only [List.mem_cons, Prod.mk.injEq, List.not_mem_nil, or_false] at letter
      obtain ⟨rfl, _⟩ | ⟨rfl, _⟩ := letter
      · exact small
      · exact capital
    · obtain ⟨⟨name, t⟩, listed, same⟩ := List.mem_map.1 turn
      cases same
      exact ne_empty_of_mem_standardTurns listed

theorem coherent_standard (size : Size) : (standard size).Coherent := by
  have added := adds_standard size
  refine ⟨fun w set known => ?_, fun w t _ known => ?_, fun w text _ known => ?_⟩
  · have listed := (added.keys w).1 (by rw [known]; rfl)
    obtain before | listed := listed
    · cases before
    · obtain ⟨⟨_, s⟩, member, rfl⟩ := List.mem_map.1 listed
      refine ⟨ne_empty_of_mem_standardMeanings member, s, ?_⟩
      have means := (added.means _ s).2 (.inr member)
      rwa [Means, known, Option.getD_some] at means
  · obtain ⟨face, listed⟩ := exists_of_standardTurn? known
    refine (added.means w .move).2 (.inr (List.mem_append_right _ ?_))
    refine List.mem_flatMap.2 ⟨face, face.mem_all, List.mem_append_right _ ?_⟩
    exact List.mem_map.2 ⟨(w, t), listed, rfl⟩
  · rw [added.shorthands] at known
    cases known

theorem Built.coherent {admits : Turn → Prop} {l : Lexicon} (built : l.Built admits) :
    l.Coherent := by
  induction built with
  | standard size => exact coherent_standard size
  | configured described =>
    obtain ⟨size, edits⟩ := edits_ofConfig (fun _ => id) described
    exact (coherent_standard size).editedMany edits
  | edited _ edit ih => exact ih.edited edit

/-! ### What the dialect answers -/

section

variable {l : Lexicon} {s : Symbol}

theorem contains_of_mem_entries {w : String} {set : SymbolSet}
    (member : (w, set) ∈ l.tokens.entries) : l.dialect.symbols w = set := by
  change (l.tokens.get? w).getD .empty = set
  rw [Table.get?_eq_some_iff.2 member, Option.getD_some]

theorem isSome_tokenFor?_iff : (l.tokenFor? s).isSome ↔
    ∃ entry ∈ l.tokens.entries, entry.2.contains s := by
  rw [tokenFor?, Option.isSome_map, List.find?_isSome]

theorem supports_iff (plain : ¬ s.isConstruct) : l.supports s ↔
    ∃ entry ∈ l.tokens.entries, entry.2.contains s := by
  rw [supports, if_neg plain, Table.values, List.any_map, List.any_eq_true]
  rfl

theorem exists_mem_keywords_iff : (∃ w ∈ l.dialect.keywords, (l.dialect.symbols w).contains s) ↔
    ∃ entry ∈ l.tokens.entries, entry.2.contains s := by
  constructor
  · rintro ⟨w, listed, has⟩
    obtain ⟨⟨_, set⟩, member, rfl⟩ := List.mem_map.1 listed
    exact ⟨_, member, contains_of_mem_entries member ▸ has⟩
  · rintro ⟨⟨w, set⟩, member, has⟩
    exact ⟨w, List.mem_map_of_mem member, (contains_of_mem_entries member).symm ▸ has⟩

end

theorem Turn.filled_iff {t : Turn} : t.Filled ↔ 1 ≤ t.layers.toNat := by
  rw [Nat.one_le_iff_ne_zero, Turn.Filled, ne_eq, ← BitVec.toNat_inj]
  rfl

theorem Built.mono {admits allows : Turn → Prop} (weaker : ∀ t, admits t → allows t) {l : Lexicon}
    (built : l.Built admits) : l.Built allows := by
  induction built with
  | standard size => exact .standard size
  | configured described => exact .configured described
  | edited _ edit ih =>
    refine ih.edited ?_
    cases edit with
    | addTurn admitted added => exact .addTurn (weaker _ admitted) added
    | addMeaning => exact .addMeaning ..
    | setPlacements => exact .setPlacements ..
    | addShorthand => exact .addShorthand ..
    | eraseToken => exact .eraseToken ..
    | eraseMeaning => exact .eraseMeaning ..
    | setBlanks => exact .setBlanks ..
    | setLineComment => exact .setLineComment ..
    | setBlockComment => exact .setBlockComment ..

theorem Built.filled_of_turn? {l : Lexicon} (built : l.Built Turn.Filled) {w : String} {t : Turn}
    (known : l.dialect.turn? w = some t) : t.Filled :=
  (built.turnsFit (fun _ => id) w t known).1

/-- The answers of a dialect fit together as far as its tables agree and its turns are of layers that
its cubes have. -/
theorem Coherent.dialect {l : Lexicon} (coherent : l.Coherent) {admits : Turn → Prop}
    (fits : l.TurnsFit admits) {least : Nat}
    (large : ∀ w t, w ≠ "" → l.turns.get? w = some t → least ≤ t.layers.toNat) :
    l.dialect.Coherent least := by
  refine ⟨fun w listed => ?_, fun w t filled known => ?_, coherent.shorthands, fun s plain => ?_,
    fun s _ => ?_⟩
  · obtain ⟨⟨_, set⟩, member, rfl⟩ := List.mem_map.1 listed
    rw [contains_of_mem_entries member]
    exact coherent.filled _ set (Table.get?_eq_some_iff.2 member)
  · have within := (fits w t known).2
    refine ⟨coherent.turns w t filled known, ?_, ⟨large w t filled known, ?_⟩, ?_⟩
    · cases t.axis <;> decide
    · exact LayerMask.within_iff_toNat_lt.1 within
    · cases t.angle <;> decide
  · exact (supports_iff plain).trans isSome_tokenFor?_iff.symm
  · exact isSome_tokenFor?_iff.trans exists_mem_keywords_iff.symm

/-- Whatever calls a lexicon has been built by, what its dialect answers fits together, but for turns
of no layer. All of it fits together exactly if no token has such a turn, and none has if none has
been added. -/
theorem Built.coherent_dialect_iff {l : Lexicon} (built : l.Built Turn.Available) :
    l.dialect.Coherent 0 ∧
      (l.dialect.Coherent 1 ↔
        ∀ w t, w ≠ "" → l.dialect.turn? w = some t → t.Filled) ∧
      (l.Built Turn.Filled → l.dialect.Coherent 1) := by
  have coherent := built.coherent
  have fits := built.turnsFit fun _ => Turn.Filled.available
  refine ⟨coherent.dialect fits fun _ _ _ _ => Nat.zero_le _, ⟨fun all w t filled known => ?_,
    fun some => ?_⟩, fun chosen => ?_⟩
  · exact Turn.filled_iff.2 (all.turns w t filled known).2.2.1.1
  · exact coherent.dialect fits fun w t filled known => Turn.filled_iff.1 (some w t filled known)
  · exact coherent.dialect fits fun _ _ _ known =>
      Turn.filled_iff.1 (chosen.filled_of_turn? known)

/-- A lexicon that has lost all its turns and been given a turn again. A shorthand has been added to
it and forgotten. -/
def rebuilt (size : Size) : Lexicon :=
  ((((standard size).addShorthand "T" "R U").eraseMeaning .move).addTurn "R"
    ⟨.x, 1, .quarter⟩).eraseToken "T"

theorem coherent_dialect_rebuilt :
    (rebuilt ⟨3, by decide, by decide⟩).Built Turn.Available ∧
      (rebuilt ⟨3, by decide, by decide⟩).Built Turn.Filled ∧
      (rebuilt ⟨3, by decide, by decide⟩).dialect.Coherent 1 := by
  have first : Edits Turn.Filled _ _ :=
    .addShorthand (standard ⟨3, by decide, by decide⟩) "T" "R U"
  have second : Edits Turn.Filled _ _ :=
    .eraseMeaning ((standard ⟨3, by decide, by decide⟩).addShorthand "T" "R U") .move
  have sized := second.turned.1.trans (first.turned.1.trans (size_standard _))
  have admitted : Turn.Filled ⟨.x, 1, .quarter⟩ := by decide
  have added : addTurn? _ "R" ⟨.x, 1, .quarter⟩ = .ok _ := if_pos (by rw [sized]; decide)
  have still := ((Built.standard _).edited first).edited second
  have built : (rebuilt ⟨3, by decide, by decide⟩).Built Turn.Filled :=
    (still.edited (.addTurn admitted added)).edited (.eraseToken _ "T")
  have had := built.mono fun _ => Turn.Filled.available
  exact ⟨had, built, had.coherent_dialect_iff.2.2 built⟩

/-- A lexicon with a turn of no layer. -/
def hollow (size : Size) : Lexicon := (standard size).addTurn "x" ⟨.x, 0, .quarter⟩

theorem addTurn?_hollow (size : Size) :
    (standard size).addTurn? "x" ⟨.x, 0, .quarter⟩ = .ok (hollow size) :=
  if_pos BitVec.zero_ushiftRight

theorem built_hollow (size : Size) : (hollow size).Built Turn.Available :=
  (Built.standard size).edited (.addTurn (Turn.available _) (addTurn?_hollow size))

/-- A turn of the third layer is made, reflected on cubes of two layers and added to a lexicon for
them. Its token then means a turn of no layer. -/
theorem exists_built_not_coherent :
    let size : Size := ⟨2, by decide, by decide⟩
    Turn.make 0 4 1 = .ok ⟨.x, 4, .quarter⟩ ∧
      (standard size).addTurn? "x" ((⟨.x, 4, .quarter⟩ : Turn).reflected 2) = .ok (hollow size) ∧
      (hollow size).Built Turn.Available ∧ ¬ (hollow size).dialect.Coherent 1 := by
  intro size
  have gone : (⟨.x, 4, .quarter⟩ : Turn).reflected 2 = ⟨.x, 0, .quarter⟩ := by decide +kernel
  refine ⟨by decide, ?_, built_hollow size, fun all => ?_⟩
  · rw [gone]
    exact addTurn?_hollow size
  · have known : (hollow size).turns.get? "x" = some ⟨.x, 0, .quarter⟩ := by
      rw [hollow, addTurn, Table.get?_set, if_pos rfl]
    have answers : ∀ l : Lexicon, l.dialect.turn? "x" = l.turns.get? "x" := fun _ => rfl
    have positive := (all.turns "x" _ (by decide) ((answers (hollow size)).trans known)).2.2.1.1
    exact absurd (Turn.filled_iff.2 positive) (by decide)

end Lexicon

end CubeScript
