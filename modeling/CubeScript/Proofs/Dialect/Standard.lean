import CubeScript.Dialect.Standard
import CubeScript.Proofs.Text.Scanning

/-!
# The tokens of the standard dialect

The tables of the standard dialect are filled one entry after the other. What an entry adds does not
depend on the entries before it, so the meanings of a token are the ones that are listed for it
(`Lexicon.adds_standard`), however many layers there are. The marks and the turns are apart: a turn
is named after the capital letter of a face, and no mark has one.

Readers look at the kind and the text of a token and not at its range, so all statements about
tokens of the dialect are statements about their lexemes.
-/

namespace CubeScript

namespace Lexicon

/-! ### Filling the tables -/

/-- Whether a token has a meaning. -/
def Means (l : Lexicon) (w : String) (s : Symbol) : Prop :=
  ((l.tokens.get? w).getD .empty).contains s

/-- Whether a lexicon is another one with some meanings and turns added. -/
structure Adds (l larger : Lexicon) (meanings : List (String × Symbol))
    (turns : List (String × Turn)) : Prop where
  size : larger.size = l.size
  placements : larger.placements = l.placements
  shorthands : larger.shorthands = l.shorthands
  blanks : larger.blanks = l.blanks
  lineComment : larger.lineComment = l.lineComment
  blockComment : larger.blockComment = l.blockComment
  keys : ∀ w, (larger.tokens.get? w).isSome ↔
    (l.tokens.get? w).isSome ∨ w ∈ meanings.map Prod.fst
  means : ∀ w s, larger.Means w s ↔ l.Means w s ∨ (w, s) ∈ meanings
  turned : ∀ w t, larger.turns.get? w = some t → l.turns.get? w = some t ∨ (w, t) ∈ turns
  keeps : ∀ w, (larger.turns.get? w).isSome ↔ (l.turns.get? w).isSome ∨ w ∈ turns.map Prod.fst

namespace Adds

variable {l larger largest : Lexicon} {meanings more : List (String × Symbol)}
  {turns others : List (String × Turn)}

theorem refl (l : Lexicon) : Adds l l [] [] where
  size := rfl
  placements := rfl
  shorthands := rfl
  blanks := rfl
  lineComment := rfl
  blockComment := rfl
  keys w := by simp
  means w s := by simp
  turned w t := .inl
  keeps w := by simp

theorem trans (first : Adds l larger meanings turns) (second : Adds larger largest more others) :
    Adds l largest (meanings ++ more) (turns ++ others) where
  size := second.size.trans first.size
  placements := second.placements.trans first.placements
  shorthands := second.shorthands.trans first.shorthands
  blanks := second.blanks.trans first.blanks
  lineComment := second.lineComment.trans first.lineComment
  blockComment := second.blockComment.trans first.blockComment
  keys w := by rw [second.keys, first.keys, List.map_append, List.mem_append, or_assoc]
  means w s := by rw [second.means, first.means, List.mem_append, or_assoc]
  turned w t given := by
    obtain before | member := second.turned w t given
    · obtain before | member := first.turned w t before
      · exact .inl before
      · exact .inr (List.mem_append_left _ member)
    · exact .inr (List.mem_append_right _ member)
  keeps w := by rw [second.keeps, first.keeps, List.map_append, List.mem_append, or_assoc]

/-- Steps that each add something add it all. -/
theorem foldl {α : Type} {step : Lexicon → α → Lexicon} {size : Size}
    {meaningsOf : α → List (String × Symbol)} {turnsOf : α → List (String × Turn)}
    {items : List α} (each : ∀ l : Lexicon, l.size = size → ∀ item ∈ items,
      Adds l (step l item) (meaningsOf item) (turnsOf item))
    {l : Lexicon} (fits : l.size = size) :
    Adds l (items.foldl step l) (items.flatMap meaningsOf) (items.flatMap turnsOf) := by
  induction items generalizing l with
  | nil => exact refl l
  | cons item items ih =>
    have first := each l fits item List.mem_cons_self
    have rest := ih (fun l fits item member => each l fits item (List.mem_cons_of_mem _ member))
      (first.size.trans fits)
    exact first.trans rest

end Adds

theorem adds_addMeaning (l : Lexicon) {token : String} (filled : token ≠ "") (s : Symbol) :
    Adds l (l.addMeaning token s) [(token, s)] [] := by
  rw [addMeaning, if_neg filled]
  refine ⟨rfl, rfl, rfl, rfl, rfl, rfl, fun w => ?_, fun w m => ?_, fun w t => .inl,
    fun w => by simp⟩
  · simp only [Table.get?_update]
    split
    · rename_i same
      simp [same]
    · rename_i other
      simp [other]
  · simp only [Means, Table.get?_update, List.mem_singleton, Prod.mk.injEq]
    split
    · rename_i same
      simp [same]
    · rename_i other
      simp [other]

theorem adds_addTurn (l : Lexicon) {token : String} (filled : token ≠ "") (t : Turn) :
    Adds l (l.addTurn token t) [(token, .move)] [(token, t)] := by
  obtain ⟨size, placements, shorthands, blanks, line, block, keys, means, _, _⟩ :=
    adds_addMeaning l filled .move
  refine ⟨size, placements, shorthands, blanks, line, block, keys, means, fun w u => ?_,
    fun w => ?_⟩
  · simp only [addTurn, Table.get?_set]
    split
    · rename_i same
      rintro ⟨⟩
      exact .inr (by simp [same])
    · exact .inl
  · simp only [addTurn, Table.get?_set]
    split
    · rename_i same
      simp [same]
    · rename_i other
      simp [other]

theorem adds_addMeanings (l : Lexicon) {token : String} (filled : token ≠ "")
    (symbols : List Symbol) :
    Adds l (l.addMeanings token symbols) (symbols.map (token, ·)) [] := by
  induction symbols generalizing l with
  | nil => exact .refl l
  | cons s symbols ih => exact (adds_addMeaning l filled s).trans (ih (l.addMeaning token s))

theorem adds_addTurns (l : Lexicon) {turns : List (String × Turn)}
    (filled : ∀ entry ∈ turns, entry.1 ≠ "") :
    Adds l (turns.foldl (fun l (token, t) => l.addTurn token t) l)
      (turns.map fun (token, _) => (token, .move)) turns := by
  induction turns generalizing l with
  | nil => exact .refl l
  | cons entry turns ih =>
    have first := adds_addTurn l (filled entry List.mem_cons_self) entry.2
    exact first.trans (ih _ fun other member => filled other (List.mem_cons_of_mem _ member))

/-! ### The entries of the standard dialect -/

/-- What the marks of the standard dialect mean. -/
def markMeanings : List (String × Symbol) :=
  standardMarks.flatMap fun (token, symbols) => symbols.map (token, ·)

/-- What the letters of a face and the tokens of its turns mean. -/
def faceMeanings (n : Nat) (face : Face) : List (String × Symbol) :=
  [(face.letter.toString, .face face), (face.capital.toString, .face face)] ++
    (standardTurns n face).map fun (token, _) => (token, .move)

/-- Everything that has a meaning in the standard dialect. -/
def standardMeanings (n : Nat) : List (String × Symbol) :=
  markMeanings ++ Face.all.flatMap (faceMeanings n)

/-- All turns of the standard dialect. -/
def allTurns (n : Nat) : List (String × Turn) := Face.all.flatMap (standardTurns n)

/-- The capital letter of a face is in the names of its turns. -/
theorem capital_mem_of_mem_standardTurns {n : Nat} {face : Face} {name : String} {t : Turn}
    (member : (name, t) ∈ standardTurns n face) : face.capital ∈ name.toList := by
  simp only [standardTurns, List.mem_flatMap, List.mem_map, Prod.exists, Prod.mk.injEq] at member
  obtain ⟨before, depths, _, after, angle, _, rfl, _⟩ := member
  have self : face.capital ∈ (toString face.capital).toList := by simp [toString]
  simp [self]

theorem ne_empty_of_mem_standardTurns {n : Nat} {face : Face} {name : String} {t : Turn}
    (member : (name, t) ∈ standardTurns n face) : name ≠ "" := by
  rintro rfl
  exact absurd (capital_mem_of_mem_standardTurns member) (by simp)

theorem adds_addFace (l : Lexicon) (face : Face) :
    Adds l (l.addFace face) (faceMeanings l.size.layers face)
      (standardTurns l.size.layers face) := by
  have small := adds_addMeaning l (show face.letter.toString ≠ "" by cases face <;> decide)
    (.face face)
  have large := adds_addMeaning (l.addMeaning face.letter.toString (.face face))
    (show face.capital.toString ≠ "" by cases face <;> decide) (.face face)
  have letters := small.trans large
  have filled (entry : String × Turn) (member : entry ∈ standardTurns l.size.layers face) :=
    ne_empty_of_mem_standardTurns member
  have turns := adds_addTurns ((l.addMeaning face.letter.toString (.face face)).addMeaning
    face.capital.toString (.face face)) filled
  simp only [addFace, letters.size]
  exact letters.trans turns

theorem adds_standardMarks (l : Lexicon) : Adds l
    (standardMarks.foldl (fun l (token, symbols) => l.addMeanings token symbols) l)
    markMeanings [] := by
  have added : Adds l
      (standardMarks.foldl (fun l (token, symbols) => l.addMeanings token symbols) l)
      markMeanings (standardMarks.flatMap fun _ => []) := by
    refine .foldl (fun l _ entry member => adds_addMeanings l ?_ entry.2) rfl
    revert entry
    decide
  rwa [List.flatMap_eq_nil_iff.2 fun _ _ => rfl] at added

theorem adds_faces (l : Lexicon) : Adds l (Face.all.foldl addFace l)
    (Face.all.flatMap (faceMeanings l.size.layers)) (allTurns l.size.layers) := by
  refine .foldl (fun larger same face _ => ?_) rfl
  have added := adds_addFace larger face
  rwa [same] at added

/-- The standard dialect has the meanings and turns that are listed for it and no others. -/
theorem adds_standard (size : Size) : Adds (blank size) (standard size)
    (standardMeanings size.layers) (allTurns size.layers) := by
  have marks := adds_standardMarks (blank size)
  have faces := adds_faces
    (standardMarks.foldl (fun l (token, symbols) => l.addMeanings token symbols) (blank size))
  rw [marks.size] at faces
  exact marks.trans faces

end Lexicon

namespace Lexicon

/-- The turn that a token of the standard dialect means. -/
def standardTurn? (size : Size) (w : String) : Option Turn := (standard size).turns.get? w

end Lexicon

/-- Whether a lexeme of the standard dialect means a symbol. -/
def Lexeme.means (size : Size) (l : Lexeme) : Symbol → Bool
  | .nop => l = mark "."
  | .move => l.kind = .keyword && (Lexicon.standardTurn? size l.text).isSome
  | .groupingBegin | .permutationBegin => l = mark "("
  | .groupingEnd | .permutationEnd => l = mark ")"
  | .commutationDelimiter | .permutationDelimiter => l = mark ","
  | .commutationBegin | .conjugationBegin => l = mark "["
  | .commutationEnd | .conjugationEnd => l = mark "]"
  | .conjugationDelimiter => l = mark ":"
  | .rotationBegin => l = mark "<"
  | .rotationEnd => l = mark ">"
  | .inversionOperator => l = mark "'"
  | .reflectionOperator => l = mark "~"
  | .repetitionOperator => l = mark "*"
  | .permutationPlus => l = mark "+"
  | .permutationMinus => l = mark "-"
  | .permutationPlusPlus => l = mark "++"
  | .face face => l = mark face.letter.toString || l = mark face.capital.toString
  | _ => false

/-- Where the standard dialect has the marks of a construct. -/
def Construct.placements : Construct → List Placement
  | .grouping | .commutation | .conjugation => [.around]
  | .inversion | .reflection => [.after]
  | .repetition => [.after, .betweenLeft]
  | .rotation | .permutation => [.aroundFirst]

namespace Lexicon

theorem isSome_turn?_of_adds {l : Lexicon} {size : Size} {meanings : List (String × Symbol)}
    {turns : List (String × Turn)} (added : Adds (blank size) l meanings turns) (w : String) :
    (l.turns.get? w).isSome ↔ w ∈ turns.map Prod.fst := by
  rw [added.keeps, blank, Table.get?_empty]
  simp

/-- A turn is named after the capital letter of a face. -/
theorem exists_of_standardTurn? {size : Size} {w : String} {turn : Turn}
    (known : standardTurn? size w = some turn) :
    ∃ face, (w, turn) ∈ standardTurns size.layers face := by
  obtain before | member := (adds_standard size).turned w turn known
  · cases before
  · obtain ⟨face, _, member⟩ := List.mem_flatMap.1 member
    exact ⟨face, member⟩

/-- A name that is listed for one turn only means this turn. -/
theorem standardTurn?_of_unique {size : Size} {w : String} {turn : Turn} {face : Face}
    (listed : (w, turn) ∈ standardTurns size.layers face)
    (unique : ∀ face other, (w, other) ∈ standardTurns size.layers face → other = turn) :
    standardTurn? size w = some turn := by
  have known := (isSome_turn?_of_adds (adds_standard size) w).2
    (List.mem_map_of_mem (f := Prod.fst) (List.mem_flatMap.2 ⟨face, face.mem_all, listed⟩))
  obtain ⟨other, known⟩ := Option.isSome_iff_exists.1 known
  obtain ⟨_, member⟩ := exists_of_standardTurn? known
  rw [← unique _ other member]
  exact known

/-- Marks are no names of turns. -/
theorem standardTurn?_mark {size : Size} {w : String}
    (isMark : w ∈ standardMarks.map Prod.fst) : standardTurn? size w = none := by
  rw [Option.eq_none_iff_forall_ne_some]
  intro turn known
  obtain ⟨face, member⟩ := exists_of_standardTurn? known
  have capital := capital_mem_of_mem_standardTurns member
  have apart : ∀ w ∈ standardMarks.map Prod.fst, ∀ face ∈ Face.all,
      face.capital ∉ w.toList := by
    decide
  exact apart w isMark face face.mem_all capital

/-! ### The layers of turns -/

theorem mem_numbersBetween {first stop k : Nat} :
    k ∈ numbersBetween first stop ↔ first ≤ k ∧ k < stop := by
  rw [numbersBetween, List.mem_map]
  constructor
  · rintro ⟨offset, inside, rfl⟩
    have less := List.mem_range.1 inside
    omega
  · rintro ⟨atLeast, less⟩
    exact ⟨k - first, List.mem_range.2 (by omega), by omega⟩

theorem bounds_numbersBetween {n first stop : Nat} (filled : first < stop) (least : 1 ≤ first)
    (most : stop ≤ n + 1) : numbersBetween first stop ≠ [] ∧
      ∀ d ∈ numbersBetween first stop, 1 ≤ d ∧ d ≤ n := by
  refine ⟨List.ne_nil_of_mem (mem_numbersBetween.2 ⟨Nat.le_refl first, filled⟩), ?_⟩
  intro d member
  have between := mem_numbersBetween.1 member
  omega

/-- Every choice of layers has one, and all are layers of the cube. -/
theorem depth_bounds {n : Nat} (many : 2 ≤ n) {before : String} {depths : List Nat}
    (member : (before, depths) ∈ standardDepths n) :
    depths ≠ [] ∧ ∀ d ∈ depths, 1 ≤ d ∧ d ≤ n := by
  rw [standardDepths] at member
  simp only [List.mem_append, List.mem_map, Prod.mk.injEq] at member
  obtain ((plain | several) | ⟨k, counted, _, rfl⟩) | ⟨k, counted, _, rfl⟩ := member
  · simp only [List.mem_cons, Prod.mk.injEq, List.not_mem_nil, or_false] at plain
    obtain ⟨_, rfl⟩ | ⟨_, rfl⟩ | ⟨_, rfl⟩ := plain
    · simp
      omega
    · simp
      omega
    · exact bounds_numbersBetween (by omega) (Nat.le_refl 1) (Nat.le_refl _)
  · split at several
    · simp only [List.mem_cons, Prod.mk.injEq, List.not_mem_nil, or_false] at several
      obtain ⟨_, rfl⟩ | ⟨_, rfl⟩ | ⟨_, rfl⟩ := several
      · exact bounds_numbersBetween (by omega) (by omega) (by omega)
      · simp
        omega
      · exact bounds_numbersBetween (by omega) (Nat.le_refl 1) (by omega)
    · cases several
  · have counts := mem_numbersBetween.1 counted
    exact bounds_numbersBetween (by omega) (Nat.le_refl 1) (by omega)
  · have counts := mem_numbersBetween.1 counted
    simp
    omega

/-- The bits of a mask of layers. -/
theorem getLsbD_maskOfDepths {n : Nat} {face : Face} {depths : List Nat} {i : Nat} :
    (maskOfDepths n face depths).getLsbD i = true ↔
      i < 32 ∧ ∃ d ∈ depths, layerAtDepth n face d = i := by
  have fold : ∀ mask : LayerMask, (depths.foldl (fun mask depth =>
      mask ||| BitVec.twoPow 32 (layerAtDepth n face depth)) mask).getLsbD i = true ↔
      mask.getLsbD i = true ∨ i < 32 ∧ ∃ d ∈ depths, layerAtDepth n face d = i := by
    induction depths with
    | nil => simp
    | cons d depths ih =>
      intro mask
      rw [List.foldl_cons, ih, BitVec.getLsbD_or, BitVec.getLsbD_twoPow]
      simp only [Bool.or_eq_true, Bool.and_eq_true, decide_eq_true_iff, List.mem_cons,
        exists_eq_or_imp]
      grind
  have empty : ¬ (0 : LayerMask).getLsbD i = true := by simp
  exact (fold 0).trans (or_iff_right empty)

/-- The layers below a face are layers of the cube. -/
theorem layerAtDepth_lt {n d : Nat} (face : Face) (bounds : 1 ≤ d ∧ d ≤ n) :
    layerAtDepth n face d < n := by
  rw [layerAtDepth]
  split <;> omega

theorem within_maskOfDepths {n : Nat} (face : Face) {depths : List Nat}
    (bounds : ∀ d ∈ depths, 1 ≤ d ∧ d ≤ n) : LayerMask.Within (maskOfDepths n face depths) n := by
  rw [LayerMask.within_iff]
  intro i set
  obtain ⟨_, d, member, rfl⟩ := getLsbD_maskOfDepths.1 set
  exact layerAtDepth_lt face (bounds d member)

theorem maskOfDepths_ne_zero {n : Nat} (small : n ≤ 32) (face : Face) {depths : List Nat}
    (filled : depths ≠ []) (bounds : ∀ d ∈ depths, 1 ≤ d ∧ d ≤ n) :
    maskOfDepths n face depths ≠ 0 := by
  obtain ⟨d, member⟩ := List.exists_mem_of_ne_nil depths filled
  have inside := layerAtDepth_lt face (bounds d member)
  have set : (maskOfDepths n face depths).getLsbD (layerAtDepth n face d) = true :=
    getLsbD_maskOfDepths.2 ⟨by omega, d, member, rfl⟩
  intro empty
  rw [empty] at set
  simp at set

/-- Turns are of layers that the cube has, and of at least one. -/
theorem layers_of_standardTurn? {size : Size} {w : String} {turn : Turn}
    (known : standardTurn? size w = some turn) :
    turn.layers ≠ 0 ∧ turn.layers.Within size.layers := by
  obtain ⟨face, member⟩ := exists_of_standardTurn? known
  simp only [standardTurns, List.mem_flatMap, List.mem_map, Prod.exists, Prod.mk.injEq] at member
  obtain ⟨before, depths, depth, _, _, _, _, rfl⟩ := member
  obtain ⟨filled, bounds⟩ := depth_bounds size.two_le depth
  have small := size.layers_le_width
  exact ⟨maskOfDepths_ne_zero small face filled bounds, within_maskOfDepths face bounds⟩

theorem mem_standardMeanings_iff {size : Size} {w : String} {s : Symbol} :
    (w, s) ∈ standardMeanings size.layers ↔ Lexeme.means size (.mark w) s := by
  cases s with
  | move =>
    have known := isSome_turn?_of_adds (adds_standard size) w
    simp only [Lexeme.means, Lexeme.mark, standardTurn?, decide_true, Bool.true_and, known,
      allTurns, List.map_flatMap]
    simp [standardMeanings, markMeanings, standardMarks, faceMeanings]
  | face face =>
    have all := face.mem_all
    have own : ∀ other, (w, Symbol.face face) ∈ faceMeanings size.layers other ↔
        face = other ∧ (w = face.letter.toString ∨ w = face.capital.toString) := by
      intro other
      simp only [faceMeanings, List.mem_append, List.mem_cons, List.mem_map, Prod.mk.injEq,
        Symbol.face.injEq, List.not_mem_nil, or_false, reduceCtorEq, and_false, exists_false]
      constructor
      · rintro (⟨same, rfl⟩ | ⟨same, rfl⟩)
        · exact ⟨rfl, .inl same⟩
        · exact ⟨rfl, .inr same⟩
      · rintro ⟨rfl, same | same⟩
        · exact .inl ⟨same, rfl⟩
        · exact .inr ⟨same, rfl⟩
    have noMark : (w, Symbol.face face) ∉ markMeanings := by simp [markMeanings, standardMarks]
    simp only [standardMeanings, List.mem_append, noMark, false_or, List.mem_flatMap, own,
      Lexeme.means, Lexeme.mark_inj, Bool.or_eq_true, decide_eq_true_eq]
    constructor
    · rintro ⟨_, _, _, same⟩
      exact same
    · intro same
      exact ⟨face, all, rfl, same⟩
  | _ =>
    simp [standardMeanings, markMeanings, standardMarks, faceMeanings, Lexeme.means,
      Lexeme.mark_inj]

end Lexicon

namespace Dialect

open Lexicon

/-- What there is to know about the standard dialect for cubes of some size, as far as scripts are
read in it. -/
structure IsStandard (d : Dialect) (size : Size) : Prop where
  layers : d.layers = size.layers
  turn? : d.turn? = standardTurn? size
  means : ∀ (t : Token) (s : Symbol), (d.symbolsOf t).contains s = t.lexeme.means size s
  accepts : ∀ c p, d.accepts c p = c.placements.contains p

/-- A token means what is listed for its text, if it is a keyword. -/
theorem contains_of_adds {l : Lexicon} {size : Size} {meanings : List (String × Symbol)}
    {turns : List (String × Turn)} (added : Adds (blank size) l meanings turns) (t : Token)
    (s : Symbol) :
    (l.dialect.symbolsOf t).contains s = decide (t.kind = .keyword ∧ (t.text, s) ∈ meanings) := by
  have means := added.means t.text s
  simp only [Means, blank, Table.get?_empty, Option.getD_none, SymbolSet.contains_empty,
    Bool.false_eq_true, false_or] at means
  rw [Bool.eq_iff_iff, decide_eq_true_iff, symbolsOf, ← means]
  split
  · rename_i keyword
    simp only [keyword, true_and]
    rfl
  · rename_i other
    simp [other]

theorem accepts_of_adds {l : Lexicon} {size : Size} {meanings : List (String × Symbol)}
    {turns : List (String × Turn)} (added : Adds (blank size) l meanings turns) (c : Construct)
    (p : Placement) : l.dialect.accepts c p = c.placements.contains p := by
  have placed : l.placementsOf (.construct c) = c.placements := by
    rw [placementsOf, added.placements]
    cases c <;> rfl
  have supported : l.supports (.construct c) = true := by
    simp only [Lexicon.supports, Symbol.isConstruct, if_true, placed]
    cases c <;> rfl
  change (l.supports (.construct c) && (l.placementsOf (.construct c)).contains p) = _
  rw [supported, placed, Bool.true_and]

theorem isStandard_of_adds {l : Lexicon} {size : Size}
    (added : Adds (blank size) l (standardMeanings size.layers) (allTurns size.layers))
    (same : l.turns.get? = standardTurn? size) : l.dialect.IsStandard size where
  layers := congrArg Size.layers added.size
  turn? := same
  means t s := by
    rw [contains_of_adds added, Bool.eq_iff_iff, decide_eq_true_iff, mem_standardMeanings_iff]
    by_cases keyword : t.kind = .keyword
    · rw [Token.lexeme_eq_mark_iff.2 ⟨keyword, rfl⟩]
      simp [keyword]
    · have other : ∀ w, t.lexeme ≠ .mark w := by
        intro w same
        exact keyword (Token.lexeme_eq_mark_iff.1 same).1
      have kind : t.lexeme.kind ≠ .keyword := keyword
      cases s <;> simp [keyword, kind, other, Lexeme.means]
  accepts := accepts_of_adds added

theorem isStandard_standard (size : Size) : (standard size).dialect.IsStandard size :=
  isStandard_of_adds (adds_standard size) (funext fun _ => rfl)

end Dialect

end CubeScript
