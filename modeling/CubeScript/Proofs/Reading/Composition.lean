import CubeScript.Proofs.Dialect.Spelling
import CubeScript.Proofs.Reading.Acceptance
import CubeScript.Proofs.Script.Reflecting
import CubeScript.Proofs.Script.Undoing

/-!
# Texts put together from texts

What a text of the standard dialect stands for can be read off the texts it is put together from.
A line break behind each of them keeps their tokens apart, and a closing mark or the end of the text
keeps their statements apart. So the reading of the whole has the readings of the parts in it, and
the operations of the whole are made of those of the parts.

The parts have to be whole scripts by themselves. The operands are groups, as what follows an
operand that is not in parentheses might belong to it.
-/

namespace CubeScript

open Lexeme (mark)

namespace Reads

variable {size : Size} {c : Category} {w v : List Lexeme} {ms ns : List Meaning} {m : Meaning}

/-- What holds of the atoms that can be read and is kept by wrappers and pairings holds of
everything that is read. -/
theorem forall_mem {motive : Meaning → Prop}
    (turn : ∀ name t, Lexicon.standardTurn? size name = some t →
      motive ((Atom.turn t).meaning size.layers))
    (nop : motive (Atom.nop.meaning size.layers))
    (cycle : ∀ c, motive ((Atom.cycle c).meaning size.layers))
    (wrapped : ∀ (w : Wrapper) parts, (∀ part ∈ parts, motive part) → motive (w.meaning parts))
    (paired : ∀ (p : Pairing) first second, (∀ part ∈ first, motive part) →
      (∀ part ∈ second, motive part) →
        motive (p.meaning (.inSequence first) (.inSequence second)))
    (reads : Reads size c w ms) : ∀ m ∈ ms, motive m := by
  have single {m : Meaning} (holds : motive m) : ∀ other ∈ [m], motive other := by
    intro other member
    rwa [List.mem_singleton.1 member]
  induction reads with
  | nil => nofun
  | cons _ _ first rest =>
    intro m member
    obtain rfl | member := List.mem_cons.1 member
    · exact first m List.mem_cons_self
    · exact rest m member
  | counted _ _ operand => exact single (wrapped _ _ operand)
  | rotation _ _ first second => exact single (paired _ _ _ first second)
  | @suffixed _ _ m wrappers _ suffixes inner =>
    have fold : ∀ m, motive m → motive (wrappers.foldl (fun m w => w.meaning [m]) m) := by
      clear suffixes inner
      induction wrappers with
      | nil => exact fun m holds => holds
      | cons wrapper wrappers ih => exact fun m holds => ih _ (wrapped wrapper [m] (single holds))
    exact single (fold m (inner m List.mem_cons_self))
  | turn known => exact single (turn _ _ known)
  | nop => exact single nop
  | group _ body => exact single (wrapped _ _ body)
  | cycle => exact single (cycle _)
  | paired _ _ _ first second => exact single (paired _ _ _ first second)

/-- Turning the flag `inverse` over undoes whatever is read. -/
theorem reversible (reads : Reads size .script w ms) :
    (Meaning.inSequence ms).Reversible := by
  refine .inSequence (reads.forall_mem ?_ ?_ ?_ ?_ ?_)
  · exact fun _ t _ => Atom.reversible_meaning _ (.turn t)
  · exact Atom.reversible_meaning _ .nop
  · exact fun c => Atom.reversible_meaning _ (.cycle c)
  · exact fun w _ each => w.reversible_meaning each
  · exact fun p _ _ first second => p.reversible_meaning (.inSequence first) (.inSequence second)

/-- Turning the flag `reflected` over reflects whatever is read. -/
theorem mirrored (reads : Reads size .script w ms) :
    (Meaning.inSequence ms).Mirrored size.layers := by
  have bounds := And.intro size.two_le size.le_sixteen
  refine .inSequence (reads.forall_mem ?_ ?_ ?_ ?_ ?_)
  · intro _ t known
    exact Atom.mirrored_turn (by omega) (by omega) (Lexicon.layers_of_standardTurn? known).2
  · exact Atom.mirrored_nop _
  · exact Atom.mirrored_cycle _
  · exact fun w _ each => w.mirrored_meaning each
  · exact fun p _ _ first second => p.mirrored_meaning (.inSequence first) (.inSequence second)

theorem append (first : Reads size .script w ms) (second : Reads size .script v ns) :
    Reads size .script (w ++ v) (ms ++ ns) := by
  generalize script : Category.script = c at first
  induction first with
  | nil => exact second
  | cons one _ _ ih =>
    rw [List.append_assoc]
    exact .cons one (ih script)
  | _ => cases script

theorem single (reads : Reads size .statement w [m]) : Reads size .script w [m] := by
  have reads := Reads.cons reads .nil
  rwa [List.append_nil] at reads

theorem bare (reads : Reads size .primary w [m]) : Reads size .statement w [m] := by
  have reads := Reads.suffixed reads .nil
  rwa [List.append_nil] at reads

end Reads

/-! ### Lexemes put together -/

/-- Whether some lexemes can be read as a script that does some operations. -/
def StandsFor (size : Size) (w : List Lexeme) (ops : List Op) : Prop :=
  ∃ ms, Reads size .script w ms ∧ Meaning.inSequence ms false false = ops

namespace StandsFor

variable {size : Size} {w v : List Lexeme} {as bs : List Op}

/-- One statement stands for what its meaning says. -/
theorem of_statement {m : Meaning} (reads : Reads size .statement w [m]) :
    StandsFor size w (m false false) := by
  refine ⟨[m], reads.single, ?_⟩
  rw [Meaning.inSequence]
  simp

theorem append (first : StandsFor size w as) (second : StandsFor size v bs) :
    StandsFor size (w ++ v) (as ++ bs) := by
  obtain ⟨ms, reads, rfl⟩ := first
  obtain ⟨ns, readsToo, rfl⟩ := second
  refine ⟨ms ++ ns, reads.append readsToo, ?_⟩
  exact List.flatMap_append

theorem group (body : StandsFor size w as) :
    StandsFor size (mark "(" :: (w ++ [mark ")"])) as := by
  obtain ⟨ms, reads, rfl⟩ := body
  exact of_statement (Reads.group reads).bare

/-- A suffix behind a group. -/
theorem suffixed {l : Lexeme} {wrapper : Wrapper} (suffix : l.suffix? = some wrapper)
    {ms : List Meaning} (reads : Reads size .script w ms) :
    StandsFor size (mark "(" :: (w ++ [mark ")"]) ++ [l])
      (wrapper.meaning [Wrapper.grouping.meaning ms] false false) :=
  of_statement (.suffixed (.group reads) (.cons suffix .nil))

theorem inSequence_grouping (ms : List Meaning) (inverse reflected : Bool) :
    Meaning.inSequence [Wrapper.grouping.meaning ms] inverse reflected =
      Meaning.inSequence ms inverse reflected := by
  rw [Meaning.inSequence]
  cases inverse <;> simp [Wrapper.meaning]

theorem inverted (body : StandsFor size w as) :
    StandsFor size (mark "(" :: (w ++ [mark ")"]) ++ [mark "'"]) (Op.undoing as) := by
  obtain ⟨ms, reads, rfl⟩ := body
  have suffix : (mark "'").suffix? = some .inversion := rfl
  have stands := suffixed suffix reads
  rwa [Wrapper.meaning, inSequence_grouping, reads.reversible false false] at stands

theorem reflected (body : StandsFor size w as) :
    StandsFor size (mark "(" :: (w ++ [mark ")"]) ++ [mark "~"])
      (as.map (Op.reflected size.layers)) := by
  obtain ⟨ms, reads, rfl⟩ := body
  have suffix : (mark "~").suffix? = some .reflection := by decide
  have stands := suffixed suffix reads
  rwa [Wrapper.meaning, inSequence_grouping, reads.mirrored false false] at stands

theorem repeated {l : Lexeme} {k : Nat} (number : l.number? = some k)
    (body : StandsFor size w as) :
    StandsFor size (mark "(" :: (w ++ [mark ")"]) ++ [l]) (List.replicate k as).flatten := by
  obtain ⟨ms, reads, rfl⟩ := body
  have other := Lexeme.ne_mark_of_number? number
  have suffix : l.suffix? = some (.repetition k) := by
    rw [Lexeme.suffix?, if_neg (other _), if_neg (other _), number]
    rfl
  have stands := suffixed suffix reads
  rwa [Wrapper.meaning, inSequence_grouping] at stands

theorem counted {l : Lexeme} {k : Nat} (number : l.number? = some k)
    (body : StandsFor size w as) :
    StandsFor size (l :: mark "*" :: mark "(" :: (w ++ [mark ")"]))
      (List.replicate k as).flatten := by
  obtain ⟨ms, reads, rfl⟩ := body
  have stands := of_statement (.counted number (Reads.group reads).bare)
  rwa [Wrapper.meaning, inSequence_grouping] at stands

/-- Two operands in square brackets. -/
theorem commutation (first : StandsFor size w as) (second : StandsFor size v bs) :
    StandsFor size (mark "[" :: (w ++ mark "," :: (v ++ [mark "]"])))
      (as ++ bs ++ Op.undoing as ++ Op.undoing bs) := by
  obtain ⟨ms, reads, rfl⟩ := first
  obtain ⟨ns, readsToo, rfl⟩ := second
  have stands := of_statement (Reads.paired (p := .commutation) rfl reads readsToo).bare
  rwa [Pairing.meaning, ← Bool.not_false, reads.reversible, readsToo.reversible] at stands

theorem conjugation (first : StandsFor size w as) (second : StandsFor size v bs) :
    StandsFor size (mark "[" :: (w ++ mark ":" :: (v ++ [mark "]"])))
      (as ++ bs ++ Op.undoing as) := by
  obtain ⟨ms, reads, rfl⟩ := first
  obtain ⟨ns, readsToo, rfl⟩ := second
  have stands := of_statement (Reads.paired (p := .conjugation) rfl reads readsToo).bare
  rwa [Pairing.meaning, ← Bool.not_false, reads.reversible] at stands

theorem rotation (first : StandsFor size w as) (second : StandsFor size v bs) :
    StandsFor size (mark "<" :: (w ++ mark ">" :: mark "(" :: (v ++ [mark ")"])))
      (Op.undoing as ++ bs ++ as) := by
  obtain ⟨ms, reads, rfl⟩ := first
  obtain ⟨ns, readsToo, rfl⟩ := second
  have stands := of_statement (.rotation reads (Reads.group readsToo).bare)
  rwa [Pairing.meaning, ← Bool.not_false, reads.reversible, inSequence_grouping] at stands

end StandsFor

/-! ### Texts put together -/

namespace Reader

/-- Whether a reader reads a text as a script that does some operations. -/
def Means (r : Reader) (text : String) (ops : List Op) : Prop :=
  ∃ script, r.read text = .ok script ∧ (script.resolve false).toList = ops

/-- Texts put together from two texts and a number, and the operations they stand for if the two
texts stand for `as` and `bs`. -/
def compositions (layers : Nat) (a b : String) (k : Nat) (as bs : List Op) :
    List (String × List Op) :=
  [(a ++ "\n" ++ b, as ++ bs),
    ("(" ++ a ++ "\n)", as),
    ("(" ++ a ++ "\n)'", Op.undoing as),
    ("(" ++ a ++ "\n)~", as.map (Op.reflected layers)),
    ("(" ++ a ++ "\n)" ++ toString k, (List.replicate k as).flatten),
    (toString k ++ "*(" ++ a ++ "\n)", (List.replicate k as).flatten),
    ("[" ++ a ++ "\n," ++ b ++ "\n]", as ++ bs ++ Op.undoing as ++ Op.undoing bs),
    ("[" ++ a ++ "\n:" ++ b ++ "\n]", as ++ bs ++ Op.undoing as),
    ("<" ++ a ++ "\n>(" ++ b ++ "\n)", Op.undoing as ++ bs ++ as)]

section

open Lexer

variable {r : Reader} {size : Size} {text a b : String} {w : List Lexeme} {ops as bs : List Op}

/-- A text that is short enough stands for what its lexemes stand for. -/
theorem means_iff (isStandard : r.dialect.IsStandard size)
    (short : (r.lexer.tokens text).length ≤ r.maxNesting) :
    r.Means text ops ↔ StandsFor size ((r.lexer.tokens text).map Token.lexeme) ops := by
  have resolved (statements : List Statement) : ((Script.ofStatements statements
      text.utf8ByteSize r.dialect.layers).resolve false).toList =
        Meaning.inSequence (Statement.meanings size.layers statements) false false := by
    rw [isStandard.layers]
    exact Script.toList_resolve_ofStatements statements _ _ false
  constructor
  · rintro ⟨script, done, rfl⟩
    obtain ⟨statements, read, rfl⟩ := read_eq_ok_iff.1 done
    obtain ⟨ms, reads⟩ := (derives_of_readStatements isStandard read).exists_reads
    obtain ⟨others, readToo, rfl⟩ := readStatements_of_reads isStandard reads short
    cases read.symm.trans readToo
    exact ⟨_, reads, (resolved statements).symm⟩
  · rintro ⟨ms, reads, rfl⟩
    obtain ⟨statements, read, rfl⟩ := readStatements_of_reads isStandard reads short
    exact ⟨_, read_eq_ok_iff.2 ⟨statements, read, rfl⟩, resolved statements⟩

theorem means_of_scans (isStandard : r.dialect.IsStandard size) (spelt : r.lexer.IsStandard)
    (short : (r.lexer.tokens text).length ≤ r.maxNesting)
    (scans : Scans r.lexer text.toList w [])
    (stands : w.length ≤ r.maxNesting → StandsFor size w ops) : r.Means text ops := by
  have lexemes := scans.lexemes_of_tokens spelt.breaks
  rw [means_iff isStandard short, lexemes]
  refine stands ?_
  rwa [← lexemes, List.length_map]

/-- Whether a text, with a line break behind it, is scanned as some lexemes wherever it stands, and
they stand for some operations unless there are too many. -/
structure Part (r : Reader) (size : Size) (a : String) (w : List Lexeme) (as : List Op) : Prop where
  scans : ∀ ds, Scans r.lexer (a.toList ++ '\n' :: ds) w ds
  stands : w.length ≤ r.maxNesting → StandsFor size w as

/-- A text may be a part if it does not end inside a comment. -/
theorem part_of_means (isStandard : r.dialect.IsStandard size) (spelt : r.lexer.IsStandard)
    (means : r.Means a as) (closed : ¬ r.lexer.EndsInComment a) :
    Part r size a ((r.lexer.tokens a).map Token.lexeme) as where
  scans := .of_closed spelt.breaks closed
  stands le := by
    rw [List.length_map] at le
    exact (means_iff isStandard le).1 means

namespace Part

variable (isStandard : r.dialect.IsStandard size) (spelt : r.lexer.IsStandard) {v : List Lexeme}
  (first : Part r size a w as) (second : Part r size b v bs)

/-- The marks around a part. -/
theorem enclosed (spelt : r.lexer.IsStandard) (part : Part r size a w as)
    (opening closing : String) (opens : opening ∈ loneMarks) (closes : closing ∈ loneMarks)
    (ds : List Char) :
    Scans r.lexer (opening.toList ++ (a.toList ++ '\n' :: (closing.toList ++ ds)))
      (mark opening :: (w ++ [mark closing])) ds :=
  (spelt.scans_mark opening opens _).append
    ((part.scans _).append (spelt.scans_mark closing closes ds))

include isStandard spelt first

/-- Two scripts one after the other. -/
theorem means_append (means : r.Means b bs)
    (short : (r.lexer.tokens (a ++ "\n" ++ b)).length ≤ r.maxNesting) :
    r.Means (a ++ "\n" ++ b) (as ++ bs) := by
  have scans := (first.scans b.toList).append (Scans.of_tokens spelt.breaks b)
  have text : (a ++ "\n" ++ b).toList = a.toList ++ '\n' :: b.toList := by simp
  rw [← text] at scans
  refine means_of_scans isStandard spelt short scans ?_
  intro le
  rw [List.length_append, List.length_map] at le
  have last := (means_iff isStandard (by omega)).1 means
  exact (first.stands (by omega)).append last

/-- A group with something behind it. -/
theorem means_group {tail : String} {ls : List Lexeme} (behind : Scans r.lexer tail.toList ls [])
    (stands : StandsFor size w as →
      StandsFor size (mark "(" :: (w ++ [mark ")"]) ++ ls) ops)
    (short : (r.lexer.tokens ("(" ++ a ++ "\n)" ++ tail)).length ≤ r.maxNesting) :
    r.Means ("(" ++ a ++ "\n)" ++ tail) ops := by
  have scans := (first.enclosed spelt "(" ")" (by decide) (by decide) tail.toList).append behind
  have text : ("(" ++ a ++ "\n)" ++ tail).toList =
      "(".toList ++ (a.toList ++ '\n' :: (")".toList ++ tail.toList)) := by simp
  rw [← text] at scans
  refine means_of_scans isStandard spelt short scans ?_
  intro le
  simp only [List.cons_append, List.length_cons, List.length_append] at le
  exact stands (first.stands (by omega))

/-- A group with a count before it. -/
theorem means_counted {k : Nat} (small : k < 2 ^ 32)
    (short : (r.lexer.tokens (toString k ++ "*(" ++ a ++ "\n)")).length ≤ r.maxNesting) :
    r.Means (toString k ++ "*(" ++ a ++ "\n)") (List.replicate k as).flatten := by
  have group := first.enclosed spelt "(" ")" (by decide) (by decide) []
  have operator := (spelt.scans_mark "*" (by decide) _).append group
  have scans := (spelt.scans_ofNat k (by rintro c ⟨⟩; decide)).append operator
  have text : (toString k ++ "*(" ++ a ++ "\n)").toList = (toString k).toList ++
      ("*".toList ++ ("(".toList ++ (a.toList ++ '\n' :: (")".toList ++ [])))) := by simp
  rw [← text] at scans
  refine means_of_scans isStandard spelt short scans ?_
  intro le
  simp only [List.cons_append, List.nil_append, List.length_cons, List.length_append] at le
  exact (first.stands (by omega)).counted (Lexeme.number?_ofNat small)

include second

/-- Two operands in square brackets. -/
theorem means_square {delimiter : String} (delimits : delimiter ∈ loneMarks)
    (stands : StandsFor size w as → StandsFor size v bs →
      StandsFor size (mark "[" :: (w ++ mark delimiter :: (v ++ [mark "]"]))) ops)
    (short : (r.lexer.tokens ("[" ++ a ++ "\n" ++ delimiter ++ b ++ "\n]")).length ≤
      r.maxNesting) : r.Means ("[" ++ a ++ "\n" ++ delimiter ++ b ++ "\n]") ops := by
  have scans := (first.enclosed spelt "[" delimiter (by decide) delimits _).append
    ((second.scans _).append (spelt.scans_mark "]" (by decide) []))
  have text : ("[" ++ a ++ "\n" ++ delimiter ++ b ++ "\n]").toList =
      "[".toList ++ (a.toList ++ '\n' :: (delimiter.toList ++
        (b.toList ++ '\n' :: ("]".toList ++ [])))) := by simp
  rw [← text, List.cons_append, List.append_assoc, List.singleton_append] at scans
  refine means_of_scans isStandard spelt short scans ?_
  intro le
  simp only [List.length_cons, List.length_append] at le
  exact stands (first.stands (by omega)) (second.stands (by omega))

/-- An operand in angle brackets and a group behind it. -/
theorem means_rotation
    (short : (r.lexer.tokens ("<" ++ a ++ "\n>(" ++ b ++ "\n)")).length ≤ r.maxNesting) :
    r.Means ("<" ++ a ++ "\n>(" ++ b ++ "\n)") (Op.undoing as ++ bs ++ as) := by
  have scans := (first.enclosed spelt "<" ">" (by decide) (by decide) _).append
    (second.enclosed spelt "(" ")" (by decide) (by decide) [])
  have text : ("<" ++ a ++ "\n>(" ++ b ++ "\n)").toList =
      "<".toList ++ (a.toList ++ '\n' :: (">".toList ++
        ("(".toList ++ (b.toList ++ '\n' :: (")".toList ++ []))))) := by simp
  rw [← text, List.cons_append, List.append_assoc, List.singleton_append] at scans
  refine means_of_scans isStandard spelt short scans ?_
  intro le
  simp only [List.length_cons, List.length_append] at le
  exact (first.stands (by omega)).rotation (second.stands (by omega))

end Part

end

/-- In the standard dialect the name of a turn stands for the turn. -/
theorem means_turn {size : Size} {depth nesting : Nat} {name : String} {t : Turn}
    (known : Lexicon.standardTurn? size name = some t) (enough : 1 ≤ nesting) :
    (standard size depth nesting).Means name [.turn t] := by
  have spelt : (standard size depth nesting).lexer.IsStandard := Lexer.isStandard_standard size
  have scans := spelt.scans_named (Lexicon.contains_of_standardTurn? known)
    (Lexicon.named_of_standardTurn? known)
  have short : ((standard size depth nesting).lexer.tokens name).length ≤ nesting := by
    rw [← List.length_map (f := Token.lexeme), scans.lexemes_of_tokens spelt.breaks]
    exact enough
  refine means_of_scans (isStandard_standard size depth nesting) spelt short scans ?_
  intro _
  exact StandsFor.of_statement (Reads.turn known).bare

end Reader

end CubeScript
