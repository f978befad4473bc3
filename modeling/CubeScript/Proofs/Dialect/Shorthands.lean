import CubeScript.Proofs.Dialect.Spelling
import CubeScript.Proofs.Reading.Marks
import CubeScript.Proofs.Reading.Tracking
import CubeScript.Proofs.Text.Replacing

/-!
# The standard dialect with shorthands

Shorthands named by word characters can be added to the standard dialect, also under names that have
a meaning already. Nothing else changes by it: without what the shorthands mean, the dialect is
standard (`Dialect.IsAbbreviated`). Readers ask for shorthands in one place only, where a statement
begins, so all other answers about a token are those of the standard dialect.

In texts, a keyword is still a mark or made of word characters and apostrophes. So brackets are
tokens wherever they stand, and a bracket may be put in the place of a name.
-/

namespace CubeScript

open Lexeme (mark)

/-! ### Filling the tables -/

namespace Lexicon

/-- A lexicon with some shorthands added, one after the other. -/
def addShorthands (l : Lexicon) (entries : List (String × String)) : Lexicon :=
  entries.foldl (fun l (name, text) => l.addShorthand name text) l

theorem addShorthands_nil (l : Lexicon) : l.addShorthands [] = l := rfl

/-- The names of shorthands that are tokens. -/
def namesOf (entries : List (String × String)) : List String :=
  (entries.map Prod.fst).filter (· ≠ "")

/-- A lexicon that has lost the texts of its shorthands. -/
def withoutTexts (l : Lexicon) : Lexicon := { l with shorthands := .empty }

theorem withoutTexts_addShorthand (l : Lexicon) (name text : String) :
    (l.addShorthand name text).withoutTexts = l.withoutTexts.addMeaning name .shorthand := by
  rw [addShorthand, addMeaning, addMeaning]
  split <;> rfl

theorem adds_addShorthands (l : Lexicon) (entries : List (String × String)) :
    Adds l.withoutTexts (l.addShorthands entries).withoutTexts
      ((namesOf entries).map (·, .shorthand)) [] := by
  induction entries generalizing l with
  | nil => exact .refl _
  | cons entry entries ih =>
    have rest := ih (l.addShorthand entry.1 entry.2)
    rw [withoutTexts_addShorthand] at rest
    by_cases filled : entry.1 = ""
    · have skipped : namesOf (entry :: entries) = namesOf entries := by simp [namesOf, filled]
      rw [addMeaning, if_pos filled] at rest
      rw [skipped]
      exact rest
    · have added : namesOf (entry :: entries) = entry.1 :: namesOf entries := by
        simp [namesOf, filled]
      rw [added]
      exact (adds_addMeaning _ filled .shorthand).trans rest

theorem turns_addShorthands (l : Lexicon) (entries : List (String × String)) :
    (l.addShorthands entries).turns = l.turns := by
  induction entries generalizing l with
  | nil => rfl
  | cons entry entries ih =>
    refine (ih (l.addShorthand entry.1 entry.2)).trans ?_
    rw [addShorthand, addMeaning]
    split <;> rfl

/-- What the standard dialect with shorthands is made of. -/
theorem adds_standard_addShorthands (size : Size) (entries : List (String × String)) :
    Adds (blank size) ((standard size).addShorthands entries).withoutTexts
      (standardMeanings size.layers ++ (namesOf entries).map (·, .shorthand))
      (allTurns size.layers ++ []) := by
  have none : (standard size).shorthands = .empty := (adds_standard size).shorthands
  have bare : (standard size).withoutTexts = standard size := by
    rw [withoutTexts, ← none]
  have added := adds_addShorthands (standard size) entries
  rw [bare] at added
  exact (adds_standard size).trans added

end Lexicon

/-! ### Names -/

/-- Whether a name is made of word characters. -/
def IsName (name : String) : Prop := ∀ c ∈ name.toList, Lexer.isWordPart c

/-- No mark is a name. -/
theorem IsName.ne_mark {name : String} (word : IsName name) {w : String}
    (isMark : w ∈ Lexicon.standardMarks.map Prod.fst) : name ≠ w := by
  rintro rfl
  have other : ∀ w ∈ Lexicon.standardMarks.map Prod.fst, ¬ w.toList.all Lexer.isWordPart := by
    decide
  exact other name isMark (List.all_eq_true.2 word)

/-! ### Meanings -/

namespace Dialect

/-- A dialect in which no token is a shorthand. -/
def withoutShorthands (d : Dialect) : Dialect :=
  { d with symbols := fun w => (d.symbols w).erase .shorthand }

theorem contains_withoutShorthands (d : Dialect) (t : Token) (s : Symbol) :
    (d.withoutShorthands.symbolsOf t).contains s =
      ((d.symbolsOf t).contains s && !decide (s = .shorthand)) := by
  rw [symbolsOf, symbolsOf]
  split
  · exact SymbolSet.contains_erase _ _ _
  · simp

/-- What there is to know about the standard dialect with shorthands of some names. -/
structure IsAbbreviated (d : Dialect) (size : Size) (names : List String) : Prop where
  standard : d.withoutShorthands.IsStandard size
  shorthand : ∀ t : Token,
    (d.symbolsOf t).contains .shorthand ↔ t.kind = .keyword ∧ t.text ∈ names
  words : ∀ name ∈ names, IsName name

theorem isAbbreviated_addShorthands (size : Size) {entries : List (String × String)}
    (words : ∀ entry ∈ entries, IsName entry.1) :
    ((Lexicon.standard size).addShorthands entries).dialect.IsAbbreviated size
      (Lexicon.namesOf entries) := by
  have added := Lexicon.adds_standard_addShorthands size entries
  have contains (t : Token) (s : Symbol) :
      (((Lexicon.standard size).addShorthands entries).dialect.symbolsOf t).contains s =
        decide (t.kind = .keyword ∧ (t.text, s) ∈ Lexicon.standardMeanings size.layers ++
          (Lexicon.namesOf entries).map (·, .shorthand)) :=
    contains_of_adds added t s
  have none (w : String) : (w, Symbol.shorthand) ∉ Lexicon.standardMeanings size.layers := by
    rw [Lexicon.mem_standardMeanings_iff]
    exact Bool.false_ne_true
  have accepts (c : Construct) (p : Placement) :
      ((Lexicon.standard size).addShorthands entries).dialect.accepts c p =
        c.placements.contains p :=
    accepts_of_adds added c p
  refine ⟨⟨congrArg Size.layers added.size, ?_, fun t s => ?_, accepts⟩, fun t => ?_,
    fun name member => ?_⟩
  · exact congrArg Table.get? (Lexicon.turns_addShorthands (Lexicon.standard size) entries)
  · rw [← (isStandard_standard size).means, contains_of_adds (Lexicon.adds_standard size),
      contains_withoutShorthands, contains]
    by_cases same : s = .shorthand
    · subst same
      simp [none]
    · simp [Ne.symm same]
      exact fun _ _ => same
  · rw [contains, decide_eq_true_iff]
    simp [none]
  · obtain ⟨entry, listed, rfl⟩ := List.mem_map.1 (List.mem_filter.1 member).1
    exact words entry listed

theorem isAbbreviated_standard (size : Size) :
    (Lexicon.standard size).dialect.IsAbbreviated size (Lexicon.namesOf []) := by
  rw [← Lexicon.addShorthands_nil (Lexicon.standard size)]
  exact isAbbreviated_addShorthands size nofun

/-- A token that is no shorthand means what it means without shorthands. -/
theorem symbolsOf_withoutShorthands {d : Dialect} {t : Token}
    (other : ¬ (d.symbolsOf t).contains .shorthand) :
    d.withoutShorthands.symbolsOf t = d.symbolsOf t := by
  ext s
  rw [contains_withoutShorthands]
  by_cases same : s = .shorthand
  · rw [same, Bool.eq_false_iff.2 other]
    rfl
  · simp [same]

namespace IsAbbreviated

variable {d : Dialect} {size : Size} {names : List String}
  (abbreviated : d.IsAbbreviated size names)

include abbreviated

theorem means (t : Token) {s : Symbol} (other : s ≠ .shorthand) :
    (d.symbolsOf t).contains s = t.lexeme.means size s := by
  rw [← abbreviated.standard.means, contains_withoutShorthands, decide_eq_false other,
    Bool.not_false, Bool.and_true]

/-- The name of a shorthand is no mark. -/
theorem ne_mark {t : Token} (named : (d.symbolsOf t).contains .shorthand) {w : String}
    (isMark : w ∈ Lexicon.standardMarks.map Prod.fst) : t.lexeme ≠ mark w := by
  intro same
  obtain ⟨_, member⟩ := (abbreviated.shorthand t).1 named
  exact (abbreviated.words _ member).ne_mark isMark (Token.lexeme_eq_mark_iff.1 same).2

/-- The name of a shorthand may also mean a turn or a face, and nothing else. -/
theorem contains_of_named {t : Token} (named : (d.symbolsOf t).contains .shorthand) {s : Symbol}
    (other : s ≠ .shorthand) (noTurn : s ≠ .move) (noFace : ∀ face, s ≠ .face face) :
    (d.symbolsOf t).contains s = false := by
  rw [abbreviated.means t other]
  cases s with
  | move => exact absurd rfl noTurn
  | face face => exact absurd rfl (noFace face)
  | shorthand => exact absurd rfl other
  | _ => first
    | rfl
    | exact decide_eq_false (abbreviated.ne_mark named (by decide))

/-- A statement may begin with the name of a shorthand otherwise if it is that of a turn, too. -/
theorem starts_of_named {t : Token} (named : (d.symbolsOf t).contains .shorthand) :
    t.lexeme.starts size =
      if (Lexicon.standardTurn? size t.text).isSome then [.turn] else [] := by
  have keyword : t.kind = .keyword := ((abbreviated.shorthand t).1 named).1
  have other (w : String) (isMark : w ∈ Lexicon.standardMarks.map Prod.fst) :=
    abbreviated.ne_mark named isMark
  rw [Lexeme.starts, if_neg (other "." (by decide)), if_neg (other "(" (by decide)),
    if_neg (other "[" (by decide)), if_neg (other "<" (by decide))]
  simp [Token.lexeme, keyword]

/-- A statement begins as in the standard dialect, or else with a shorthand. -/
theorem starts (t : Token) : d.starts t = t.lexeme.starts size ++
    if (d.symbolsOf t).contains .shorthand then [.shorthand] else [] := by
  by_cases named : (d.symbolsOf t).contains .shorthand
  · have keyword : t.kind = .keyword := ((abbreviated.shorthand t).1 named).1
    have same : d.turn? = Lexicon.standardTurn? size := abbreviated.standard.turn?
    have turn : (d.symbolsOf t).contains .move =
        (Lexicon.standardTurn? size t.text).isSome := by
      rw [abbreviated.means t (by decide)]
      simp [Lexeme.means, Token.lexeme, keyword]
    rw [abbreviated.starts_of_named named, if_pos named]
    simp [Dialect.starts, Dialect.opened, Reader.has, Construct.compounds, Construct.begin?,
      SymbolSet.sign?, keyword, same, turn, named, abbreviated.contains_of_named named]
  · have same := symbolsOf_withoutShorthands named
    rw [← abbreviated.standard.starts, if_neg named, List.append_nil]
    simp only [Dialect.starts, Dialect.opened, same]
    rfl

theorem accepts (c : Construct) (p : Placement) : d.accepts c p = c.placements.contains p :=
  abbreviated.standard.accepts c p

theorem sign? (t : Token) : (d.symbolsOf t).sign? =
    if t.lexeme = mark "++" then some .plusPlus
    else if t.lexeme = mark "+" then some .plus
    else if t.lexeme = mark "-" then some .minus
    else none := by
  simp [SymbolSet.sign?, abbreviated.means, Lexeme.means]

omit abbreviated in
/-- Sequences of statements end as they do without shorthands. -/
theorem endsAt_of_withoutShorthands {stop : SymbolSet} {marks : List String}
    (apart : stop.contains .shorthand = false)
    (ends : d.withoutShorthands.EndsAt stop marks) : d.EndsAt stop marks := by
  intro t
  rw [← ends t, SymbolSet.intersects_iff, SymbolSet.intersects_iff]
  refine exists_congr fun s => and_congr_left fun member => ?_
  have other : s ≠ .shorthand := by
    rintro rfl
    rw [apart] at member
    cases member
  simp [contains_withoutShorthands, other]

end IsAbbreviated

/-! ### What readers make of tokens -/

namespace IsAbbreviated

variable {r : Reader} {size : Size} {names : List String}
  (abbreviated : r.dialect.IsAbbreviated size names)

include abbreviated

theorem endsAt_allClosings : r.dialect.EndsAt Reader.allClosings Lexeme.closers := by
  have plain : Dialect.IsStandard
      ({ r with dialect := r.dialect.withoutShorthands } : Reader).dialect size :=
    abbreviated.standard
  exact endsAt_of_withoutShorthands (by decide) plain.endsAt_allClosings

theorem endsAt_parenthesis : r.dialect.EndsAt (r.firstStops [.grouping]) [")"] := by
  have plain : Dialect.IsStandard
      ({ r with dialect := r.dialect.withoutShorthands } : Reader).dialect size :=
    abbreviated.standard
  refine endsAt_of_withoutShorthands ?_ plain.endsAt_parenthesis
  simp [Reader.firstStops, Construct.end?, Construct.delimiter?]

theorem closedBy_grouping (t : Token) : r.closedBy t false [.grouping] =
    if t.lexeme = mark ")" then [.grouping] else [] := by
  simp [Reader.closedBy, List.filter_cons, Reader.has, Construct.end?, abbreviated.means,
    Lexeme.means, abbreviated.accepts, Construct.placements, Construct.isBinary]

theorem countsNext (t : Token) : r.countsNext t = decide (t.lexeme = mark "*") := by
  simp [Reader.countsNext, abbreviated.means, Lexeme.means, abbreviated.accepts,
    Construct.placements]

theorem behind? (t next : Token) : r.behind? t next = t.lexeme.behind? next.lexeme := by
  have opened : r.openedBehind t = [] := by
    simp [Reader.openedBehind, Construct.binaries, abbreviated.accepts, Construct.placements]
  have delimited : r.delimitedBehind t = [] := by
    simp [Reader.delimitedBehind, Construct.binaries, abbreviated.accepts, Construct.placements]
  have kind : t.lexeme.kind = t.kind := rfl
  simp [Reader.behind?, abbreviated.countsNext, opened, delimited, abbreviated.means,
    Lexeme.means, abbreviated.accepts, Construct.placements, Lexeme.behind?, kind]

/-- An opening bracket means nothing to the statement before it. -/
theorem inert_opener {t : Token} {w : String} (opener : w ∈ Lexeme.openers)
    (opens : t.lexeme = mark w) : r.Inert t where
  kind := by
    rw [(Token.lexeme_eq_mark_iff.1 opens).1]
    decide
  closes := by
    rw [Bool.eq_false_iff, Ne, abbreviated.endsAt_allClosings t, opens]
    rintro ⟨v, closer, same⟩
    have apart : ∀ w ∈ Lexeme.openers, w ∉ Lexeme.closers := by decide
    rw [Lexeme.mark_inj] at same
    exact apart w opener (same ▸ closer)
  counts := by
    have apart : ∀ w ∈ Lexeme.openers, mark w ≠ mark "*" := by decide
    rw [abbreviated.countsNext, opens]
    exact decide_eq_false (apart w opener)
  behind next := by
    have apart : ∀ w ∈ Lexeme.openers, mark w ≠ mark "'" ∧ mark w ≠ mark "~" := by decide
    rw [abbreviated.behind?, opens, Lexeme.behind?, if_neg (apart w opener).1,
      if_neg (apart w opener).2]
    rfl
  sign := by
    have apart : ∀ w ∈ Lexeme.openers,
        mark w ≠ mark "++" ∧ mark w ≠ mark "+" ∧ mark w ≠ mark "-" := by
      decide
    obtain ⟨noDouble, noPlus, noMinus⟩ := apart w opener
    rw [abbreviated.sign?, opens, if_neg noDouble, if_neg noPlus, if_neg noMinus]
  face face := by
    have apart : ∀ w ∈ Lexeme.openers, ∀ face : Face,
        mark w ≠ mark face.letter.toString ∧ mark w ≠ mark face.capital.toString := by
      intro w opener face
      revert w
      cases face <;> decide
    obtain ⟨noLetter, noCapital⟩ := apart w opener face
    rw [abbreviated.means t (by simp), opens, Lexeme.means, decide_eq_false noLetter,
      decide_eq_false noCapital, Bool.false_or]
  unsigned := by
    rw [abbreviated.accepts]
    decide

/-- Neither does a token that is a shorthand and nothing else. -/
theorem inert_shorthand {t : Token}
    (only : ∀ s, (r.dialect.symbolsOf t).contains s ↔ s = .shorthand) : r.Inert t where
  kind := by
    rw [((abbreviated.shorthand t).1 ((only .shorthand).2 rfl)).1]
    decide
  closes := by
    rw [Bool.eq_false_iff, Ne, SymbolSet.intersects_iff]
    rintro ⟨s, means, closes⟩
    obtain rfl := (only s).1 means
    revert closes
    decide
  counts := by
    rw [abbreviated.countsNext]
    exact decide_eq_false (abbreviated.ne_mark ((only .shorthand).2 rfl) (by decide))
  behind next := by
    have named := (only .shorthand).2 rfl
    have keyword : t.lexeme.kind = .keyword := ((abbreviated.shorthand t).1 named).1
    rw [abbreviated.behind?, Lexeme.behind?, if_neg (abbreviated.ne_mark named (by decide)),
      if_neg (abbreviated.ne_mark named (by decide)), keyword]
    rfl
  sign := by
    have none (s : Symbol) (other : s ≠ .shorthand) :
        (r.dialect.symbolsOf t).contains s = false :=
      Bool.eq_false_iff.2 fun means => other ((only s).1 means)
    simp [SymbolSet.sign?, none]
  face face := by
    rw [Bool.eq_false_iff, Ne, only]
    simp
  unsigned := by
    rw [abbreviated.accepts]
    decide

end IsAbbreviated

end Dialect

/-! ### Texts -/

namespace Lexicon

/-- Whether some characters are word characters and apostrophes. -/
def Spelt (w : List Char) : Prop := ∀ c ∈ w, Lexer.isWordPart c ∨ c = '\''

theorem Spelt.append {v w : List Char} (first : Spelt v) (second : Spelt w) : Spelt (v ++ w) := by
  intro c member
  exact (List.mem_append.1 member).elim (first c) (second c)

theorem spelt_toString (k : Nat) : Spelt (toString k).toList := by
  rw [Nat.toString_eq_repr, Nat.toList_repr]
  intro c member
  have digit := Nat.isDigit_of_mem_toDigits (by decide) (by decide) member
  simp [Lexer.isWordPart, Char.isAlphanum, digit]

theorem spelt_of_mem_standardDepths {n : Nat} {before : String} {depths : List Nat}
    (member : (before, depths) ∈ standardDepths n) : Spelt before.toList := by
  have letters : ∀ w ∈ ["S", "C", "M", "T", "W", "N"],
      w.toList.all fun c => Lexer.isWordPart c || c = '\'' := by
    decide
  have spelt {w : String} (letter : w ∈ ["S", "C", "M", "T", "W", "N"]) : Spelt w.toList := by
    simpa [Spelt] using letters w letter
  obtain rfl | ⟨w, letter, rfl | ⟨k, rfl⟩⟩ := eq_of_mem_standardDepths member
  · nofun
  · exact spelt letter
  · rw [String.toList_append]
    exact (spelt letter).append (spelt_toString k)

/-- The names of turns are made of word characters and apostrophes. -/
theorem spelt_of_mem_standardTurns {n : Nat} {face : Face} {name : String} {t : Turn}
    (member : (name, t) ∈ standardTurns n face) : Spelt name.toList := by
  simp only [standardTurns, List.mem_flatMap, List.mem_map, Prod.exists, Prod.mk.injEq] at member
  obtain ⟨before, depths, depth, after, angle, angles, rfl, _⟩ := member
  have suffixes : ∀ w ∈ standardAngles.map Prod.fst,
      w.toList.all fun c => Lexer.isWordPart c || c = '\'' := by
    decide
  have last : Spelt after.toList := by
    simpa [Spelt] using suffixes after (List.mem_map_of_mem (f := Prod.fst) angles)
  have capital : Spelt (toString face.capital).toList := by
    cases face <;> simp [Spelt, toString] <;> decide
  change Spelt (before ++ toString face.capital ++ after).toList
  rw [String.toList_append, String.toList_append]
  exact ((spelt_of_mem_standardDepths depth).append capital).append last

/-- A keyword of the standard dialect is a mark or made of word characters and apostrophes. -/
theorem mark_or_spelt {size : Size} {w : String}
    (known : w ∈ (standardMeanings size.layers).map Prod.fst) :
    w ∈ standardMarks.map Prod.fst ∨ Spelt w.toList := by
  refine mark_or_of_known (fun w => Spelt w.toList) ?_ ?_ ?_ known
  · rintro ⟨⟩ <;> simp [Spelt] <;> decide
  · rintro ⟨⟩ <;> simp [Spelt] <;> decide
  · exact fun face name t => spelt_of_mem_standardTurns

end Lexicon

namespace Lexer

open Lexicon (standardMarks Spelt)

/-- What there is to know about the lexer of the standard dialect with shorthands. -/
structure IsAbbreviated (lexer : Lexer) : Prop where
  blanks : lexer.blanks = Dialect.defaultBlanks
  lineComment : lexer.lineComment = some ['/', '/']
  blockComment : lexer.blockComment = some (['/', '*'], ['*', '/'])
  keywords : ∀ w, lexer.keywords.contains w →
    String.ofList w ∈ standardMarks.map Prod.fst ∨ Spelt w
  marks : ∀ name ∈ standardMarks.map Prod.fst, lexer.keywords.contains name.toList

theorem isAbbreviated_addShorthands (size : Size) {entries : List (String × String)}
    (words : ∀ entry ∈ entries, IsName entry.1) :
    ((Lexicon.standard size).addShorthands entries).dialect.lexer.IsAbbreviated := by
  have added := Lexicon.adds_standard_addShorthands size entries
  have known (w : List Char) :
      ((Lexicon.standard size).addShorthands entries).dialect.lexer.keywords.contains w ↔
        w ≠ [] ∧ String.ofList w ∈ (Lexicon.standardMeanings size.layers ++
          (Lexicon.namesOf entries).map (·, Symbol.shorthand)).map Prod.fst :=
    contains_keywords_of_adds added
  refine ⟨added.blanks, ?_, ?_, fun w keyword => ?_, fun name member => ?_⟩
  · have start : (some "//").map String.toList = some ['/', '/'] := by decide
    exact (congrArg (Option.map String.toList) added.lineComment).trans start
  · have delimiters : ((some ("/*", "*/")).map fun (start, stop) =>
        (String.toList start, String.toList stop)) = some (['/', '*'], ['*', '/']) := by
      decide
    exact (congrArg (Option.map _) added.blockComment).trans delimiters
  · obtain ⟨_, member⟩ := (known w).1 keyword
    rw [List.map_append, List.mem_append] at member
    obtain standard | named := member
    · have spelt := Lexicon.mark_or_spelt standard
      rwa [String.toList_ofList] at spelt
    · obtain ⟨_, listed, same⟩ := List.mem_map.1 named
      obtain ⟨name, member, rfl⟩ := List.mem_map.1 listed
      obtain ⟨entry, given, same'⟩ := List.mem_map.1 (List.mem_filter.1 member).1
      refine .inr fun c inside => .inl (words entry given c ?_)
      rw [same', show name = String.ofList w from same, String.toList_ofList]
      exact inside
  · refine (known _).2 ⟨?_, ?_⟩
    · have filled : ∀ w ∈ standardMarks.map Prod.fst, w.toList ≠ [] := by decide
      exact filled name member
    · have listed : ∀ w ∈ standardMarks.map Prod.fst,
          w ∈ Lexicon.markMeanings.map Prod.fst := by
        decide
      rw [String.ofList_toList, List.map_append, Lexicon.standardMeanings, List.map_append]
      exact List.mem_append_left _ (List.mem_append_left _ (listed name member))

theorem isAbbreviated_standard (size : Size) :
    (Lexicon.standard size).dialect.lexer.IsAbbreviated := by
  rw [← Lexicon.addShorthands_nil (Lexicon.standard size)]
  exact isAbbreviated_addShorthands size nofun

namespace IsAbbreviated

variable {lexer : Lexer} (abbreviated : lexer.IsAbbreviated)

include abbreviated

/-- A character that is no word character and no apostrophe is in marks only. -/
theorem mark_of_mem {w : List Char} (keyword : lexer.keywords.contains w) {d : Char}
    (inside : d ∈ w) (word : isWordPart d = false) (other : d ≠ '\'') :
    String.ofList w ∈ standardMarks.map Prod.fst := by
  refine (abbreviated.keywords w keyword).resolve_right fun spelt => ?_
  obtain part | same := spelt d inside
  · rw [word] at part
    cases part
  · exact other same

theorem breaks : lexer.Breaks where
  blank := by
    rw [abbreviated.blanks]
    decide
  keywords w known member := by
    have isMark := abbreviated.mark_of_mem known member (by decide) (by decide)
    have unbroken : ∀ v ∈ standardMarks.map Prod.fst, '\n' ∉ v.toList := by decide
    have plain := unbroken _ isMark
    rw [String.toList_ofList] at plain
    exact plain member
  line start known := by
    rw [abbreviated.lineComment] at known
    cases known
    decide
  block start stop known := by
    rw [abbreviated.blockComment] at known
    cases known
    decide

/-- No mark but the bracket itself has a bracket in it. -/
theorem eq_of_bracket_mem {d : Char} (bracket : d = '(' ∨ d = ')') {w : List Char}
    (keyword : lexer.keywords.contains w) (inside : d ∈ w) : w = [d] := by
  have apart : isWordPart d = false ∧ d ≠ '\'' := by
    obtain rfl | rfl := bracket <;> decide
  have alone : ∀ v ∈ standardMarks.map Prod.fst, d ∈ v.toList → v.toList = [d] := by
    obtain rfl | rfl := bracket <;> decide
  have only := alone _ (abbreviated.mark_of_mem keyword inside apart.1 apart.2)
  rw [String.toList_ofList] at only
  exact only inside

/-- A bracket may be put where a name begins. -/
theorem separates {c : Char} (word : isWordPart c) : lexer.Separates c '(' where
  line start known := by
    rw [abbreviated.lineComment] at known
    cases known
    have apart : c ≠ '/' := by
      rintro rfl
      cases word
    simp [apart]
  block start stop known := by
    rw [abbreviated.blockComment] at known
    cases known
    have apart : c ≠ '/' ∧ c ≠ '*' := by
      constructor <;> (rintro rfl; cases word)
    simp [apart]
  alone w keyword inside := abbreviated.eq_of_bracket_mem (.inl rfl) keyword inside
  unbroken := by
    rintro rfl
    cases word
  digit := by decide
  word := by decide

/-- A bracket is a token wherever it stands. -/
theorem scans_bracket {name : String} (bracket : name = "(" ∨ name = ")") (cs : List Char) :
    Scans lexer (name.toList ++ cs) [mark name] cs := by
  obtain ⟨d, single, isBracket⟩ : ∃ d, name.toList = [d] ∧ (d = '(' ∨ d = ')') := by
    obtain rfl | rfl := bracket
    · exact ⟨'(', by decide, .inl rfl⟩
    · exact ⟨')', by decide, .inr rfl⟩
  have known := abbreviated.marks name (by obtain rfl | rfl := bracket <;> decide)
  rw [single] at known
  have longest : lexer.keywords.longest? (d :: cs) = some 1 := by
    refine Trie.longest?_of_alone known (fun w filled => ?_) cs
    rw [Bool.eq_false_iff]
    intro keyword
    have only := abbreviated.eq_of_bracket_mem isBracket keyword List.mem_cons_self
    exact filled (List.cons.inj only).2
  have classified : lexer.classify (d :: cs) = (.keyword, 1) := by
    rw [classify.eq_def, longest]
  have plain : d ≠ '/' ∧ ¬ Dialect.defaultBlanks.contains d := by
    obtain rfl | rfl := isBracket <;> decide
  have filled : ¬ lexer.blanks.contains d := by
    rw [abbreviated.blanks]
    exact plain.2
  have none (delimiter : List Char) : opens ('/' :: delimiter) (d :: cs) = false := by
    simp [opens, List.isPrefixOf, Ne.symm plain.1]
  have token : lexer.commentLength? (d :: cs) = Option.none := by
    simp [commentLength?, lineCommentLength?, blockCommentLength?, abbreviated.lineComment,
      abbreviated.blockComment, none]
  have scans := Scans.token filled token classified .done
  change Scans lexer (d :: cs) [⟨.keyword, String.ofList [d]⟩] cs at scans
  rw [single]
  rwa [← single, String.ofList_toList] at scans

end IsAbbreviated

end Lexer

end CubeScript
