import CubeScript.Proofs.Reading.Soundness
import CubeScript.Proofs.Script.Layout

/-!
# What has a derivation is read

A reader finds the reading of some lexemes, whatever the tokens are that they belong to and whatever
stands behind them, as long as a statement ends there. One statement for each rule of the grammar
says so, and what is read stands for what the grammar says.

There is no way back once a statement has been read, so in one place more than the derivation is
needed: a cycle is only read where a group cannot be. Whatever a group takes, it takes up to a
closing parenthesis, and the first one behind the opening parenthesis of a cycle is its own.
-/

namespace CubeScript

open Lexeme (mark)
open Reading

/-! ### Where statements begin and end -/

/-- A statement begins with a number, with a mark of its own or with a capital letter somewhere. -/
theorem Lexeme.not_begins {size : Size} {name : String} {start : Start}
    (other : name ∉ [".", "(", "[", "<"]) (small : ∀ face : Face, face.capital ∉ name.toList) :
    ¬ (mark name).Begins size start := by
  simp only [List.mem_cons, List.not_mem_nil, or_false, not_or] at other
  obtain ⟨dot, round, square, angled⟩ := other
  intro begins
  cases begins with
  | count number => cases number
  | nop same => exact dot (Lexeme.mark_inj.1 same)
  | group same => exact round (Lexeme.mark_inj.1 same)
  | cycle same => exact round (Lexeme.mark_inj.1 same)
  | square same => exact square (Lexeme.mark_inj.1 same)
  | angle same => exact angled (Lexeme.mark_inj.1 same)
  | turn _ known =>
    obtain ⟨face, member⟩ := Lexicon.exists_of_standardTurn? known
    exact small face (Lexicon.capital_mem_of_mem_standardTurns member)

/-- No statement begins with a mark that ends a sequence. -/
theorem Lexeme.Begins.ne_closer {size : Size} {l : Lexeme} {start : Start}
    (begins : l.Begins size start) {w : String} (closer : w ∈ Lexeme.closers) : l ≠ mark w := by
  have apart : ∀ w ∈ Lexeme.closers, w ∉ [".", "(", "[", "<"] ∧
      ∀ face ∈ Face.all, face.capital ∉ w.toList := by
    decide
  obtain ⟨other, small⟩ := apart w closer
  rintro rfl
  exact not_begins other (fun face => small face face.mem_all) begins

theorem Derives.exists_begins {size : Size} {c : Category} {w : List Lexeme}
    (derived : Derives size c w) (filled : c ≠ .script) :
    ∃ l ls start, w = l :: ls ∧ l.Begins size start := by
  induction derived with
  | nil => exact absurd rfl filled
  | cons => exact absurd rfl filled
  | counted number => exact ⟨_, _, _, rfl, .count (Lexeme.kind_of_number? number)⟩
  | suffixed _ _ ih =>
    obtain ⟨l, ls, start, rfl, begins⟩ := ih nofun
    exact ⟨l, _, start, rfl, begins⟩
  | turn known => exact ⟨_, _, _, rfl, .turn rfl known⟩
  | nop => exact ⟨_, _, _, rfl, .nop rfl⟩
  | group => exact ⟨_, _, _, rfl, .group rfl⟩
  | cycle => exact ⟨_, _, _, rfl, .cycle rfl⟩
  | paired => exact ⟨_, _, _, rfl, .square rfl⟩
  | rotation => exact ⟨_, _, _, rfl, .angle rfl⟩

/-- Whether some tokens are at an end or begin with one of some marks. -/
def EndsWith (marks : List String) (rest : List Token) : Prop :=
  ∀ t ∈ rest.head?, ∃ w ∈ marks, t.lexeme = mark w

theorem endsWith_cons {marks : List String} {w : String} (member : w ∈ marks) {t : Token}
    (closes : t.lexeme = mark w) (rest : List Token) : EndsWith marks (t :: rest) := by
  rintro _ ⟨⟩
  exact ⟨w, member, closes⟩

theorem EndsWith.stops {marks : List String} {rest : List Token} (ends : EndsWith marks rest)
    (closers : ∀ w ∈ marks, w ∈ Lexeme.closers) : Stops (rest.map Token.lexeme) := by
  have apart : ∀ w ∈ Lexeme.closers, w ∉ ["'", "~", "*"] := by decide
  cases rest with
  | nil => exact trivial
  | cons t rest =>
    obtain ⟨w, member, closes⟩ := ends t rfl
    rw [List.map_cons, closes]
    exact stops_mark (apart w (closers w member)) _

/-- The marks at which a sequence ends cannot begin a statement of it. -/
theorem not_intersects_of_begins {d : Dialect} {size : Size} {stop : SymbolSet}
    {marks : List String} (ends : d.EndsAt stop marks)
    (closers : ∀ w ∈ marks, w ∈ Lexeme.closers) {t : Token} {start : Start}
    (begins : t.lexeme.Begins size start) : ¬ (d.symbolsOf t).intersects stop := by
  intro stops
  obtain ⟨w, member, same⟩ := (ends t).1 stops
  exact begins.ne_closer (closers w member) same

/-! ### What finding a reading means -/

/-- Whether a reader finds a reading of some lexemes. -/
def Finds (r : Reader) (size : Size) : Category → List Lexeme → List Meaning → Prop
  | .script, w, ms => ∀ us scope context levels stop marks rest, us.map Token.lexeme = w →
    w.length ≤ levels → r.dialect.EndsAt stop marks → (∀ m ∈ marks, m ∈ Lexeme.closers) →
    EndsWith marks rest → ∃ statements,
      Gives (r.readSequence (r.readStatement levels) scope context stop (us ++ rest)) statements
        rest ∧ Statement.meanings size.layers statements = ms
  | .statement, w, ms => ∀ t us scope context levels rest, (t :: us).map Token.lexeme = w →
    w.length ≤ levels → Stops (rest.map Token.lexeme) → ∃ s,
      Gives (r.readStatement levels scope context t (us ++ rest)) s rest ∧
        [s.meaning size.layers] = ms
  | .primary, w, ms => ∀ t us scope context levels rest, (t :: us).map Token.lexeme = w →
    w.length ≤ levels + 1 → ∃ s,
      Gives (r.readBeginning (r.readStatement levels) scope context t (us ++ rest)) s rest ∧
        [s.meaning size.layers] = ms

namespace Reader

variable {r : Reader} {size : Size} (standard : r.dialect.IsStandard size) {nested : Nested}
  {scope : Scope} {context : Diagnostic.Context} {t : Token} {ts us rest : List Token}

include standard

/-! ### Suffixes -/

/-- Nothing is read behind a statement that ends. -/
theorem gives_readBehind_of_stops (stops : Stops (rest.map Token.lexeme)) (s : Statement) :
    Gives (r.readBehind nested scope context s rest) s rest := by
  cases rest with
  | nil => exact gives_readBehind_nil.2 ⟨rfl, rfl⟩
  | cons t rest =>
    obtain ⟨noQuote, noTilde, _, counts⟩ := stops
    have ends : r.behind? t (scope.peek rest) = none := by
      rw [standard.behind?, Lexeme.behind?, if_neg noQuote, if_neg noTilde]
      split
      · rename_i number
        have next := counts number
        cases rest with
        | nil => cases next
        | cons u rest => exact if_pos (Option.some.inj next)
      · rfl
    rw [gives_readBehind_cons, ends]
    exact ⟨rfl, rfl⟩

/-- A suffix wraps the statement before it, if it does not count the next one. -/
theorem gives_readBehind_of_suffix {w : Wrapper} (suffix : t.lexeme.suffix? = some w)
    (next : (scope.peek ts).lexeme ≠ mark "*") {s result : Statement}
    (given : Gives (r.readBehind nested scope context
      (.wrapped w [s] ⟨s.range.start, t.range.stop⟩) ts) result rest) :
    Gives (r.readBehind nested scope context s (t :: ts)) result rest := by
  have behind := standard.behind? t (scope.peek ts)
  rw [Lexeme.behind?] at behind
  rw [Lexeme.suffix?] at suffix
  rw [gives_readBehind_cons, behind]
  split at suffix
  · rename_i quote
    cases suffix
    rw [if_pos quote]
    exact ⟨_, ts, gives_ok_iff.2 ⟨rfl, rfl⟩, given⟩
  · rename_i noQuote
    split at suffix
    · rename_i tilde
      cases suffix
      rw [if_neg noQuote, if_pos tilde]
      exact ⟨_, ts, gives_ok_iff.2 ⟨rfl, rfl⟩, given⟩
    · rename_i noTilde
      obtain ⟨count, number, rfl⟩ := Option.map_eq_some_iff.1 suffix
      rw [if_neg noQuote, if_neg noTilde, if_pos (Lexeme.kind_of_number? number), if_neg next]
      refine ⟨_, ts, gives_check_iff.2 ⟨count, ?_, gives_pure_iff.2 ⟨rfl, rfl⟩⟩, given⟩
      rwa [repeatCount_eq_ok_iff, ← Token.number?_lexeme]

/-- All suffixes are read, up to where the statement ends. -/
theorem gives_readBehind_of_suffixes {wrappers : List Wrapper}
    (suffixes : Suffixes (us.map Token.lexeme) wrappers)
    (stops : Stops (rest.map Token.lexeme)) (s : Statement) :
    ∃ result, Gives (r.readBehind nested scope context s (us ++ rest)) result rest ∧
      result.meaning size.layers =
        wrappers.foldl (fun m w => w.meaning [m]) (s.meaning size.layers) := by
  induction us generalizing wrappers s with
  | nil =>
    cases suffixes
    exact ⟨s, gives_readBehind_of_stops standard stops s, rfl⟩
  | cons t us ih =>
    cases suffixes with
    | cons suffix suffixes =>
      rename_i w wrappers
      have next : (scope.peek (us ++ rest)).lexeme ≠ mark "*" := by
        cases us with
        | nil =>
          cases rest with
          | nil => exact nofun
          | cons u rest => exact stops.2.2.1
        | cons u us =>
          cases suffixes with
          | cons other _ =>
            intro (same : u.lexeme = mark "*")
            rw [same] at other
            cases other
      obtain ⟨result, given, meaning⟩ :=
        ih suffixes (.wrapped w [s] ⟨s.range.start, t.range.stop⟩)
      refine ⟨result, gives_readBehind_of_suffix standard suffix next given, ?_⟩
      rw [meaning]
      rfl

/-! ### Rules -/

omit standard in
/-- There is a first token wherever a statement is. -/
theorem exists_cons_of_derives {c : Category} {w : List Lexeme} (derived : Derives size c w)
    (filled : c ≠ .script) (same : us.map Token.lexeme = w) :
    ∃ t vs start, us = t :: vs ∧ t.lexeme.Begins size start := by
  obtain ⟨l, ls, start, rfl, begins⟩ := derived.exists_begins filled
  obtain ⟨t, vs, rfl, rfl, _⟩ := List.map_eq_cons_iff.1 same
  exact ⟨t, vs, start, rfl, begins⟩

omit standard in
theorem finds_nil : Finds r size .script [] [] := by
  intro us scope context levels stop marks rest same _ ends closers stops
  obtain rfl := List.map_eq_nil_iff.1 same
  refine ⟨[], ?_, rfl⟩
  cases rest with
  | nil => exact gives_readSequence_nil.2 ⟨rfl, rfl⟩
  | cons t rest =>
    change Gives (r.readSequence _ scope context stop (t :: rest)) [] (t :: rest)
    rw [gives_readSequence_cons, if_pos ((ends t).2 (stops t rfl))]
    exact ⟨rfl, rfl⟩

omit standard in
theorem finds_cons {w v : List Lexeme} {m : Meaning} {ms : List Meaning}
    (derived : Derives size .statement w) (others : Derives size .script v)
    (first : Finds r size .statement w [m]) (second : Finds r size .script v ms) :
    Finds r size .script (w ++ v) (m :: ms) := by
  intro us scope context levels stop marks rest same long ends closers stops
  obtain ⟨us, vs, rfl, same, written⟩ := List.map_eq_append_iff.1 same
  obtain ⟨t, us, start, rfl, begins⟩ := exists_cons_of_derives derived (by decide) same
  rw [List.length_append] at long
  have behind : Stops ((vs ++ rest).map Token.lexeme) := by
    rw [List.map_append, written]
    exact others.stops fun _ => stops.stops closers
  obtain ⟨s, read, meaning⟩ :=
    first t us scope context levels (vs ++ rest) same (by omega) behind
  obtain ⟨statements, more, meanings⟩ :=
    second vs scope context levels stop marks rest written (by omega) ends closers stops
  obtain rfl := List.singleton_inj.1 meaning
  refine ⟨s :: statements, ?_, congrArg _ meanings⟩
  rw [List.append_assoc, List.cons_append, gives_readSequence_cons,
    if_neg (not_intersects_of_begins ends closers begins)]
  exact ⟨s, _, statements, read, more, rfl⟩

/-- A statement begins in the one way there is. -/
theorem gives_readBeginning_of_starts {start : Start} {s : Statement}
    (one : t.lexeme.starts size = [start])
    (given : Gives (r.readStart nested scope context t ts start) s rest) :
    Gives (r.readBeginning nested scope context t ts) s rest := by
  have starts : r.dialect.starts t = [] ++ start :: [] := (standard.starts t).trans one
  exact gives_readBeginning.2 ⟨[], start, [], starts, given, nofun⟩

theorem finds_counted {l : Lexeme} {k : Nat} {w : List Lexeme} {m : Meaning}
    (number : l.number? = some k) (derived : Derives size .statement w)
    (operand : Finds r size .statement w [m]) :
    Finds r size .statement (l :: mark "*" :: w) [(Wrapper.repetition k).meaning [m]] := by
  intro t us scope context levels rest whole long stops
  obtain ⟨rfl, same⟩ := List.cons.inj whole
  obtain ⟨asterisk, us, rfl, operator, same⟩ := List.map_eq_cons_iff.1 same
  obtain ⟨u, us, _, rfl, _⟩ := exists_cons_of_derives derived (by decide) same
  cases levels with
  | zero => simp at long
  | succ levels =>
    simp only [List.length_cons] at long
    obtain ⟨s, read, meaning⟩ := operand u us scope .operand levels rest same (by omega) stops
    obtain rfl := List.singleton_inj.1 meaning
    have counts : r.countsNext asterisk := by
      rw [standard.countsNext, operator]
      decide
    have one : t.lexeme.starts size = [.repetition] := if_pos (Lexeme.kind_of_number? number)
    refine ⟨.wrapped (.repetition k) [s] (t.range.cover s.range),
      gives_readStatement_succ.2 ⟨_, rest,
        gives_readBeginning_of_starts standard one (gives_check_iff.2 ⟨k, ?_, ?_⟩),
        gives_readBehind_of_stops standard stops _⟩, rfl⟩
    · rwa [repeatCount_eq_ok_iff, ← Token.number?_lexeme]
    · exact gives_readRepeated.2 ⟨u :: (us ++ rest), .inl ⟨asterisk, rfl, counts⟩,
        gives_readWrapped.2 ⟨u, us ++ rest, s, rfl, read, rfl⟩⟩

theorem finds_suffixed {w ss : List Lexeme} {m : Meaning} {wrappers : List Wrapper}
    (derived : Derives size .primary w) (inner : Finds r size .primary w [m])
    (suffixes : Suffixes ss wrappers) :
    Finds r size .statement (w ++ ss) [wrappers.foldl (fun m w => w.meaning [m]) m] := by
  intro t us scope context levels rest whole long stops
  obtain ⟨vs, us', split, same, rfl⟩ := List.map_eq_append_iff.1 whole
  obtain ⟨u, vs, _, rfl, _⟩ := exists_cons_of_derives derived (by decide) same
  obtain ⟨rfl, tail⟩ := List.cons.inj split
  obtain rfl : us = vs ++ us' := tail
  cases levels with
  | zero =>
    have filled := derived.length_pos (by decide)
    rw [List.length_append] at long
    omega
  | succ levels =>
    rw [List.length_append] at long
    obtain ⟨s, read, meaning⟩ :=
      inner t vs scope context levels (us' ++ rest) same (by omega)
    obtain rfl := List.singleton_inj.1 meaning
    obtain ⟨result, behind, meaning⟩ :=
      gives_readBehind_of_suffixes standard suffixes stops s
    refine ⟨result, ?_, congrArg (fun m => [m]) meaning⟩
    rw [List.append_assoc]
    exact gives_readStatement_succ.2 ⟨s, _, read, behind⟩

theorem finds_nop : Finds r size .primary [mark "."] [Atom.nop.meaning size.layers] := by
  intro t us scope context levels rest same _
  obtain ⟨dot, same⟩ := List.cons.inj same
  obtain rfl := List.map_eq_nil_iff.1 same
  have one : t.lexeme.starts size = [.nop] := by rw [dot, Lexeme.starts_dot]
  exact ⟨.atom .nop t.range,
    gives_readBeginning_of_starts standard one (gives_ok_iff.2 ⟨rfl, rfl⟩), rfl⟩

theorem gives_readBeginning_of_turn {name : String} {turn : Turn}
    (known : Lexicon.standardTurn? size name = some turn) (named : t.lexeme = mark name) :
    Gives (r.readBeginning nested scope context t ts) (.atom (.turn turn) t.range) ts := by
  have one : t.lexeme.starts size = [.turn] := by rw [named, Lexeme.starts_turn known]
  have text : t.text = name := congrArg Lexeme.text named
  refine gives_readBeginning_of_starts standard one ?_
  rw [readStart, standard.turn?, text, known]
  exact gives_ok_iff.2 ⟨rfl, rfl⟩

theorem finds_turn {name : String} {turn : Turn}
    (known : Lexicon.standardTurn? size name = some turn) :
    Finds r size .primary [mark name] [(Atom.turn turn).meaning size.layers] := by
  intro t us scope context levels rest same _
  obtain ⟨named, same⟩ := List.cons.inj same
  obtain rfl := List.map_eq_nil_iff.1 same
  exact ⟨_, gives_readBeginning_of_turn standard known named, rfl⟩

omit standard in
/-- A script between an opening mark and a closing one is found. -/
theorem gives_readSequence_of_finds {w : List Lexeme} {ms : List Meaning} {levels : Nat}
    {stop : SymbolSet} {marks : List String} {m : String} {closing : Token}
    (finds : Finds r size .script w ms) (same : us.map Token.lexeme = w) (long : w.length ≤ levels)
    (ends : r.dialect.EndsAt stop marks) (closers : ∀ m ∈ marks, m ∈ Lexeme.closers)
    (member : m ∈ marks) (closes : closing.lexeme = mark m) : ∃ statements,
      Gives (r.readSequence (r.readStatement levels) scope context stop (us ++ closing :: rest))
        statements (closing :: rest) ∧ Statement.meanings size.layers statements = ms :=
  finds us scope context levels stop marks (closing :: rest) same long ends closers
    (endsWith_cons member closes rest)

theorem finds_group {w : List Lexeme} {ms : List Meaning} (body : Finds r size .script w ms) :
    Finds r size .primary (mark "(" :: (w ++ [mark ")"])) [Wrapper.grouping.meaning ms] := by
  intro t us scope context levels rest whole long
  obtain ⟨opens, same⟩ := List.cons.inj whole
  obtain ⟨us, vs, rfl, inside, last⟩ := List.map_eq_append_iff.1 same
  obtain ⟨closing, vs, rfl, closes, empty⟩ := List.map_eq_cons_iff.1 last
  obtain rfl := List.map_eq_nil_iff.1 empty
  simp only [List.length_cons, List.length_append, List.length_nil] at long
  have shorter : w.length ≤ levels := by omega
  obtain ⟨statements, read, meanings⟩ := gives_readSequence_of_finds body inside shorter
    standard.endsAt_parenthesis (by decide) List.mem_cons_self closes
  have single : r.delimitedBy closing [.grouping] = [] :=
    Dialect.IsStandard.delimitedBy_grouping closing
  have closed : r.closedBy closing false [.grouping] = [.grouping] := by
    rw [standard.closedBy_grouping, if_pos closes]
  have starts : r.dialect.starts t = [] ++ .compound [.grouping] :: [.cycle] := by
    rw [standard.starts]
    change t.lexeme = mark "(" at opens
    rw [opens, Lexeme.starts_parenthesis]
    rfl
  refine ⟨.wrapped .grouping statements ⟨t.range.start, closing.range.stop⟩, ?_, ?_⟩
  · refine gives_readBeginning.2 ⟨[], _, _, starts, ?_, nofun⟩
    rw [List.append_assoc]
    refine gives_readCompound.2 ⟨statements, closing, rest, read, ?_⟩
    rw [if_pos single]
    exact gives_closeCompound.2 ⟨.grouping, closed, rfl, rfl⟩
  · rw [← meanings]
    rfl

theorem finds_paired {p : Pairing} {delimiter : String} {w v : List Lexeme}
    {ms ns : List Meaning} (delimits : p.delimiter? = some delimiter)
    (first : Finds r size .script w ms) (second : Finds r size .script v ns) :
    Finds r size .primary (mark "[" :: (w ++ mark delimiter :: (v ++ [mark "]"])))
      [p.meaning (.inSequence ms) (.inSequence ns)] := by
  intro t us scope context levels rest whole long
  obtain ⟨opens, same⟩ := List.cons.inj whole
  obtain ⟨us, vs, rfl, inside, same⟩ := List.map_eq_append_iff.1 same
  obtain ⟨between, vs, rfl, separates, same⟩ := List.map_eq_cons_iff.1 same
  obtain ⟨vs, last, rfl, behind, same⟩ := List.map_eq_append_iff.1 same
  obtain ⟨closing, last, rfl, closes, empty⟩ := List.map_eq_cons_iff.1 same
  obtain rfl := List.map_eq_nil_iff.1 empty
  simp only [List.length_cons, List.length_append, List.length_nil] at long
  obtain ⟨construct, square, one, pairing, member⟩ :
      ∃ construct : Construct, (construct = .commutation ∨ construct = .conjugation) ∧
        r.delimitedBy between [.commutation, .conjugation] = [construct] ∧
        construct.pairing = p ∧ delimiter ∈ ["]", ",", ":"] := by
    rw [standard.delimitedBy, separates]
    obtain ⟨rfl, rfl⟩ | ⟨rfl, rfl⟩ := Pairing.delimiter?_eq_some_iff.1 delimits
    · exact ⟨.commutation, .inl rfl, rfl, rfl, by decide⟩
    · exact ⟨.conjugation, .inr rfl, rfl, rfl, by decide⟩
  have shorter : w.length ≤ levels := by omega
  obtain ⟨statements, read, meanings⟩ := gives_readSequence_of_finds first inside shorter
    standard.endsAt_first (by decide) member separates
  have shorterToo : v.length ≤ levels := by omega
  obtain ⟨others, more, meaningsToo⟩ := gives_readSequence_of_finds second behind shorterToo
    (standard.endsAt_second square) (by decide) List.mem_cons_self closes
  have several : r.delimitedBy between [.commutation, .conjugation] ≠ [] := by
    rw [one]
    exact List.cons_ne_nil _ _
  have closed : r.closedBy closing true [construct] = [construct] := by
    rw [standard.closedBy_second square, if_pos closes]
  have starts : t.lexeme.starts size = [.compound [.commutation, .conjugation]] := by
    change t.lexeme = mark "[" at opens
    rw [opens, Lexeme.starts_square]
  refine ⟨.paired p statements others ⟨t.range.start, closing.range.stop⟩, ?_, ?_⟩
  · refine gives_readBeginning_of_starts standard starts ?_
    rw [List.append_assoc, List.cons_append, List.append_assoc, List.singleton_append]
    refine gives_readCompound.2 ⟨statements, between, _, read, ?_⟩
    rw [if_neg several, one]
    refine ⟨others, closing, rest, more, gives_closeCompound.2 ⟨construct, closed, ?_⟩⟩
    obtain rfl | rfl := square
    · exact ⟨by rw [← pairing], rfl⟩
    · exact ⟨by rw [← pairing], rfl⟩
  · rw [← meanings, ← meaningsToo]
    rfl

theorem finds_rotation {w v : List Lexeme} {ms : List Meaning} {m : Meaning}
    (derived : Derives size .statement v) (first : Finds r size .script w ms)
    (second : Finds r size .statement v [m]) :
    Finds r size .statement (mark "<" :: (w ++ mark ">" :: v))
      [Pairing.rotation.meaning (.inSequence ms) (.inSequence [m])] := by
  intro t us scope context levels rest whole long stops
  obtain ⟨opens, same⟩ := List.cons.inj whole
  obtain ⟨us, vs, rfl, inside, same⟩ := List.map_eq_append_iff.1 same
  obtain ⟨closing, vs, rfl, closes, same⟩ := List.map_eq_cons_iff.1 same
  obtain ⟨u, vs, start, rfl, begins⟩ := exists_cons_of_derives derived (by decide) same
  cases levels with
  | zero => simp at long
  | succ levels =>
    simp only [List.length_cons, List.length_append] at long
    have shorter : w.length ≤ levels := by omega
    obtain ⟨statements, read, meanings⟩ := gives_readSequence_of_finds first inside shorter
      standard.endsAt_angle (by decide) List.mem_cons_self closes
    obtain ⟨s, operand, meaning⟩ := second u vs scope .operand levels rest same (by omega) stops
    obtain rfl := List.singleton_inj.1 meaning
    have goes : ¬ (r.dialect.symbolsOf u).intersects allClosings :=
      not_intersects_of_begins standard.endsAt_allClosings (fun _ member => member) begins
    have closed : r.closedBy closing false [.rotation] = [.rotation] := by
      rw [standard.closedBy_rotation, if_pos closes]
    have starts : t.lexeme.starts size = [.compound [.rotation]] := by
      change t.lexeme = mark "<" at opens
      rw [opens, Lexeme.starts_angle]
    refine ⟨.paired .rotation statements [s]
      ((⟨t.range.start, closing.range.stop⟩ : Range).cover s.range),
      gives_readStatement_succ.2 ⟨_, rest, gives_readBeginning_of_starts standard starts ?_,
        gives_readBehind_of_stops standard stops _⟩, ?_⟩
    · rw [List.append_assoc]
      refine gives_readCompound.2 ⟨statements, closing, _, read, ?_⟩
      rw [if_pos (standard.delimitedBy_rotation closing)]
      refine gives_closeCompound.2 ⟨.rotation, closed, ?_⟩
      exact gives_readSecond.2 ⟨u, vs ++ rest, s, rfl, goes, operand, rfl⟩
    · rw [← meanings]
      rfl

/-- A cycle is read where its parts are no script. A group would have to end where the cycle
does. -/
theorem gives_readBeginning_of_parts {signs w : List Lexeme} {sign : Cycle.Sign}
    {items : List Cycle.Item} {c : Cycle} (signed : Signed signs sign) (parts : Parts size w items)
    (made : Cycle.make items sign = .ok c) (other : ¬ Derives size .script (signs ++ w))
    {closing : Token} (opens : t.lexeme = mark "(") (inside : us.map Token.lexeme = signs ++ w)
    (closes : closing.lexeme = mark ")") (levels : Nat) : ∃ range,
      Gives (r.readBeginning (r.readStatement levels) scope context t (us ++ closing :: rest))
        (.atom (.cycle c) range) rest := by
  have cycle : ∃ range, Gives (r.readCycle scope none t (us ++ closing :: rest))
      (.atom (.cycle c) range) rest :=
    gives_readCycle_of_parts standard inside closes signed parts made
  obtain ⟨range, given⟩ := cycle
  have starts : r.dialect.starts t = [.compound [.grouping]] ++ .cycle :: [] := by
    rw [standard.starts, opens, Lexeme.starts_parenthesis]
    rfl
  refine ⟨range, gives_readBeginning.2 ⟨_, _, _, starts, given, ?_⟩⟩
  intro group member s left taken
  obtain rfl := List.mem_singleton.1 member
  obtain ⟨vs, bracket, split, ends, derived⟩ :=
    script_of_readCompound_grouping (sound_readStatement standard levels) standard taken
  have inner : ∀ l ∈ us.map Token.lexeme, l.IsInner := by
    intro l member
    rw [inside] at member
    obtain member | member := List.mem_append.1 member
    · exact signed.isInner l member
    · exact parts.isInner l member
  have lexemes : us.map Token.lexeme ++ mark ")" :: rest.map Token.lexeme =
      vs.map Token.lexeme ++ mark ")" :: left.map Token.lexeme := by
    have mapped := congrArg (List.map Token.lexeme) split
    simpa [closes, ends] using mapped
  rw [← derived.guarded.unique inner lexemes, inside] at derived
  exact other derived

theorem finds_cycle {signs w : List Lexeme} {sign : Cycle.Sign} {items : List Cycle.Item}
    {c : Cycle} (signed : Signed signs sign) (parts : Parts size w items)
    (made : Cycle.make items sign = .ok c) (other : ¬ Derives size .script (signs ++ w)) :
    Finds r size .primary (mark "(" :: (signs ++ w ++ [mark ")"]))
      [(Atom.cycle c).meaning size.layers] := by
  intro t us scope context levels rest whole _
  obtain ⟨opens, same⟩ := List.cons.inj whole
  obtain ⟨us, vs, rfl, inside, last⟩ := List.map_eq_append_iff.1 same
  obtain ⟨closing, vs, rfl, closes, empty⟩ := List.map_eq_cons_iff.1 last
  obtain rfl := List.map_eq_nil_iff.1 empty
  obtain ⟨range, given⟩ := gives_readBeginning_of_parts standard signed parts made other opens
    inside closes levels
  refine ⟨.atom (.cycle c) range, ?_, rfl⟩
  rw [List.append_assoc]
  exact given

/-- Every reading of the grammar is found. -/
theorem finds_of_reads {c : Category} {w : List Lexeme} {ms : List Meaning}
    (reads : Reads size c w ms) : Finds r size c w ms := by
  induction reads with
  | nil => exact finds_nil
  | cons first second ih ihToo => exact finds_cons first.derives second.derives ih ihToo
  | counted number operand ih => exact finds_counted standard number operand.derives ih
  | rotation _ second ih ihToo => exact finds_rotation standard second.derives ih ihToo
  | suffixed inner suffixes ih => exact finds_suffixed standard inner.derives ih suffixes
  | turn known => exact finds_turn standard known
  | nop => exact finds_nop standard
  | group _ ih => exact finds_group standard ih
  | cycle signed parts made other => exact finds_cycle standard signed parts made other
  | paired delimits _ _ ih ihToo => exact finds_paired standard delimits ih ihToo

/-- The statements of a text are read, if the nesting may be as deep as the text is long. -/
theorem readStatements_of_reads {text : String} {ms : List Meaning}
    (reads : Reads size .script ((r.lexer.tokens text).map Token.lexeme) ms)
    (deep : (r.lexer.tokens text).length ≤ r.maxNesting) :
    ∃ statements, r.readStatements text = .ok statements ∧
      Statement.meanings size.layers statements = ms := by
  have long : ((r.lexer.tokens text).map Token.lexeme).length ≤ r.maxNesting := by
    rwa [List.length_map]
  obtain ⟨statements, given, meanings⟩ := finds_of_reads standard reads _
    ⟨text.utf8ByteSize, 0⟩ .script _ .empty [] [] rfl long standard.endsAt_empty nofun nofun
  rw [List.append_nil] at given
  exact ⟨statements, readStatements_eq_ok_iff.2 ⟨[], given⟩, meanings⟩

end Reader

end CubeScript
