import CubeScript.Proofs.Text.Keywords
import CubeScript.Proofs.Text.Skipping

/-!
# How a text falls apart into tokens

A text is gaps and tokens by turns, and nothing of it gets lost (`Lexer.Splits`). Every token is the
longest keyword that the text goes on with, or if there is none the longest number or word, or else
a single character (`Lexer.Leads`). Numbers and words are what the regular expressions `[0-9]+` and
`[a-zA-Z_][a-zA-Z0-9_]*` match.
-/

namespace CubeScript

/-! ### Pieces of a text -/

theorem utf8ByteSize_ofList (cs : List Char) : (String.ofList cs).utf8ByteSize = byteLength cs := by
  induction cs with
  | nil => rfl
  | cons c cs ih =>
    rw [String.ofList_cons, String.utf8ByteSize_append, String.utf8ByteSize_singleton, ih,
      byteLength_cons]

theorem byteLength_toList (text : String) : byteLength text.toList = text.utf8ByteSize := by
  rw [← utf8ByteSize_ofList, String.ofList_toList]

theorem byteLength_pos {cs : List Char} (filled : cs ≠ []) : 0 < byteLength cs := by
  cases cs with
  | nil => exact absurd rfl filled
  | cons c cs =>
    have := c.utf8Size_pos
    rw [byteLength_cons]
    omega

/-- Whether a range is one of a text: it lies in the text and cuts no character in two. -/
structure Range.In (range : Range) (text : String) : Prop where
  ordered : range.start ≤ range.stop
  inside : range.stop ≤ text.utf8ByteSize
  start : (⟨range.start⟩ : String.Pos.Raw).IsValid text
  stop : (⟨range.stop⟩ : String.Pos.Raw).IsValid text

/-- Whether a piece of text stands in a range of a text. -/
def Range.Shows (range : Range) (text piece : String) : Prop :=
  ∃ before behind, text = before ++ piece ++ behind ∧ range.start = before.utf8ByteSize ∧
    range.stop = before.utf8ByteSize + piece.utf8ByteSize

theorem isValid_utf8ByteSize (before behind : String) :
    (⟨before.utf8ByteSize⟩ : String.Pos.Raw).IsValid (before ++ behind) :=
  String.Pos.Raw.isValid_iff_exists_append.2 ⟨before, behind, rfl, rfl⟩

theorem Range.Shows.isIn {range : Range} {text piece : String} (shows : range.Shows text piece) :
    range.In text := by
  obtain ⟨before, behind, rfl, start, stop⟩ := shows
  refine ⟨by omega, ?_, ?_, ?_⟩
  · rw [stop, String.utf8ByteSize_append, String.utf8ByteSize_append]
    omega
  · rw [start, String.append_assoc]
    exact isValid_utf8ByteSize before _
  · rw [stop, ← String.utf8ByteSize_append]
    exact isValid_utf8ByteSize (before ++ piece) behind

/-! ### Where tokens lie -/

/-- Whether tokens lie one behind the other and none is empty. -/
def Placed (ts : List Token) : Prop :=
  (∀ t ∈ ts, t.range.start < t.range.stop) ∧
    ts.Pairwise fun t u => t.range.stop ≤ u.range.start

namespace Placed

variable {t : Token} {ts us : List Token}

theorem suffix (placed : Placed ts) (h : us <:+ ts) : Placed us :=
  ⟨fun t member => placed.1 t (h.subset member), placed.2.sublist h.sublist⟩

theorem tail (placed : Placed (t :: ts)) : Placed ts := placed.suffix (List.suffix_cons t ts)

theorem pos (placed : Placed (t :: ts)) : t.range.start < t.range.stop :=
  placed.1 t List.mem_cons_self

theorem le (placed : Placed (t :: ts)) {u : Token} (member : u ∈ ts) :
    t.range.stop ≤ u.range.start :=
  List.rel_of_pairwise_cons placed.2 member

end Placed

/-! ### What a token is -/

/-- Whether some characters are a run of characters of one sort that begins with one of another. -/
def IsRun (first more : Char → Bool) (w : List Char) : Prop :=
  ∃ c cs, w = c :: cs ∧ first c ∧ ∀ d ∈ cs, more d

/-- Whether some characters are decimal digits. -/
def IsNumber : List Char → Prop := IsRun Char.isDigit Char.isDigit

/-- Whether some characters are letters, digits and underscores, and the first is no digit. -/
def IsWord : List Char → Prop := IsRun Lexer.isWordStart Lexer.isWordPart

theorem longest_run {first more : Char → Bool} {c : Char} (begins : first c) (cs : List Char) :
    Longest (IsRun first more) (c :: cs) (c :: cs.takeWhile more) where
  has := ⟨c, _, rfl, begins, fun _ member => List.mem_takeWhile_imp member⟩
  begins := List.cons_prefix_cons.2 ⟨rfl, List.takeWhile_prefix more⟩
  most := by
    rintro _ ⟨d, ds, rfl, _, all⟩ other
    obtain ⟨rfl, es, rfl⟩ := List.cons_prefix_cons.1 other
    rw [List.takeWhile_append_of_pos all]
    simp

theorem not_isRun_of_prefix {first more : Char → Bool} {c : Char} (other : first c = false)
    {cs v : List Char} (begins : v <+: c :: cs) : ¬ IsRun first more v := by
  rintro ⟨d, ds, rfl, starts, _⟩
  obtain ⟨rfl, _⟩ := List.cons_prefix_cons.1 begins
  rw [other] at starts
  cases starts

namespace Lexer

variable {lexer : Lexer}

/-- The kind and the characters of the token that a text goes on with. -/
inductive Leads (lexer : Lexer) (cs : List Char) : Token.Kind → List Char → Prop where
  | keyword {w : List Char} (longest : Longest lexer.keywords.IsKeyword cs w) :
    Leads lexer cs .keyword w
  | number {w : List Char} (noKeyword : ∀ v, lexer.keywords.IsKeyword v → ¬ v <+: cs)
    (longest : Longest IsNumber cs w) : Leads lexer cs .number w
  | word {w : List Char} (noKeyword : ∀ v, lexer.keywords.IsKeyword v → ¬ v <+: cs)
    (noNumber : ∀ v, v <+: cs → ¬ IsNumber v) (longest : Longest IsWord cs w) :
    Leads lexer cs .word w
  | special {c : Char} (noKeyword : ∀ v, lexer.keywords.IsKeyword v → ¬ v <+: cs)
    (noNumber : ∀ v, v <+: cs → ¬ IsNumber v) (noWord : ∀ v, v <+: cs → ¬ IsWord v)
    (begins : [c] <+: cs) : Leads lexer cs .special [c]

namespace Leads

variable {cs w : List Char} {kind : Token.Kind}

theorem isPrefix (leads : lexer.Leads cs kind w) : w <+: cs := by
  cases leads with
  | keyword longest => exact longest.begins
  | number _ longest => exact longest.begins
  | word _ _ longest => exact longest.begins
  | special _ _ _ begins => exact begins

theorem ne_nil (leads : lexer.Leads cs kind w) : w ≠ [] := by
  cases leads with
  | keyword longest => exact longest.has.1
  | number _ longest =>
    obtain ⟨c, ds, rfl, _⟩ := longest.has
    exact List.cons_ne_nil c ds
  | word _ _ longest =>
    obtain ⟨c, ds, rfl, _⟩ := longest.has
    exact List.cons_ne_nil c ds
  | special _ _ _ _ => exact List.cons_ne_nil _ _

theorem kind_ne_eof (leads : lexer.Leads cs kind w) : kind ≠ .eof := by
  cases leads <;> nofun

end Leads

/-- What a text is found to go on with. -/
theorem exists_leads_classify (lexer : Lexer) {cs : List Char} (filled : cs ≠ []) :
    ∃ w, lexer.Leads cs (lexer.classify cs).1 w ∧ w.length = (lexer.classify cs).2 := by
  rw [classify.eq_def]
  cases found : lexer.keywords.longest? cs with
  | some n =>
    obtain ⟨w, longest, length⟩ := Trie.longest?_eq_some_iff.1 found
    exact ⟨w, .keyword longest, length⟩
  | none =>
    have noKeyword := Trie.longest?_eq_none_iff.1 found
    cases cs with
    | nil => exact absurd rfl filled
    | cons c cs =>
      dsimp only
      split
      · rename_i digit
        exact ⟨_, .number noKeyword (longest_run digit cs), Nat.add_comm ..⟩
      · rename_i noDigit
        have noNumber (v : List Char) (begins : v <+: c :: cs) : ¬ IsNumber v :=
          not_isRun_of_prefix (Bool.eq_false_iff.2 noDigit) begins
        split
        · rename_i letter
          exact ⟨_, .word noKeyword noNumber (longest_run letter cs), Nat.add_comm ..⟩
        · rename_i noLetter
          have noWord (v : List Char) (begins : v <+: c :: cs) : ¬ IsWord v :=
            not_isRun_of_prefix (Bool.eq_false_iff.2 noLetter) begins
          exact ⟨[c], .special noKeyword noNumber noWord
            (List.cons_prefix_cons.2 ⟨rfl, List.nil_prefix⟩), rfl⟩

/-! ### Gaps and tokens by turns -/

/-- How some characters, that begin at a byte of a text and go to its end, fall apart into gaps and
tokens. -/
inductive Splits (lexer : Lexer) : Nat → List Char → List Token → Prop where
  | done {offset : Nat} {gap : List Char} (between : lexer.Gap [] gap) : Splits lexer offset gap []
  | token {offset : Nat} {gap w behind : List Char} {kind : Token.Kind} {ts : List Token}
    (between : lexer.Gap (w ++ behind) gap)
    (clear : lexer.Advances → lexer.Clear (w ++ behind))
    (leads : lexer.Leads (w ++ behind) kind w)
    (later : Splits lexer (offset + byteLength gap + byteLength w) behind ts) :
    Splits lexer offset (gap ++ (w ++ behind))
      (⟨kind, String.ofList w,
        ⟨offset + byteLength gap, offset + byteLength gap + byteLength w⟩⟩ :: ts)

/-- The tokens that are listed are those the text falls apart into. -/
theorem splits_tokensFrom (lexer : Lexer) (p : Cursor) :
    lexer.Splits p.offset p.rest (lexer.tokensFrom p) := by
  fun_induction lexer.tokensFrom p with
  | case1 p q none =>
    obtain ⟨gap, passes, between⟩ := lexer.exists_gap_skip p
    rw [none] at between
    rw [passes.rest, none, List.append_nil]
    exact .done between
  | case2 p q filled ih =>
    obtain ⟨gap, passes, between⟩ := lexer.exists_gap_skip p
    obtain ⟨w, leads, length⟩ := lexer.exists_leads_classify filled
    obtain ⟨behind, split⟩ := leads.isPrefix
    obtain ⟨past, left⟩ := Cursor.Passes.advance_length split.symm
    rw [length, ← pastToken] at past left
    have token : lexer.tokenAt q = ⟨(lexer.classify q.rest).1, String.ofList w,
        ⟨p.offset + byteLength gap, p.offset + byteLength gap + byteLength w⟩⟩ := by
      have taken : q.rest.take (lexer.classify q.rest).2 = w := by
        rw [← length, ← split, List.take_left]
      rw [tokenAt, if_neg filled, ← passes.offset, ← past.offset, pastToken]
      exact congrArg (Token.mk _ · _) (congrArg String.ofList taken)
    have rest : p.rest = gap ++ (w ++ behind) := by rw [passes.rest, split]
    have clear (advances : lexer.Advances) : lexer.Clear (w ++ behind) := by
      rw [split]
      exact (lexer.skips_skip advances p).clear
    rw [left, past.offset, passes.offset] at ih
    rw [token, rest]
    refine .token ?_ clear ?_ ih
    · rwa [split]
    · rwa [split]

theorem tokensFrom_of_nil (lexer : Lexer) {p : Cursor} (none : p.rest = []) :
    lexer.tokensFrom p = [] := by
  have short := lexer.length_skip_le p
  rw [none] at short
  rw [tokensFrom, dif_pos (List.length_eq_zero_iff.1 (Nat.le_zero.1 short))]

theorem splits_tokens (lexer : Lexer) (text : String) :
    lexer.Splits 0 text.toList (lexer.tokens text) :=
  lexer.splits_tokensFrom (.start text)

namespace Splits

variable {offset : Nat} {cs : List Char} {ts : List Token}

theorem placed (splits : lexer.Splits offset cs ts) :
    Placed ts ∧ ∀ t ∈ ts, offset ≤ t.range.start := by
  induction splits with
  | done => exact ⟨⟨nofun, .nil⟩, nofun⟩
  | @token offset gap w behind kind ts _ _ leads _ ih =>
    obtain ⟨⟨positive, ordered⟩, after⟩ := ih
    have long := byteLength_pos leads.ne_nil
    refine ⟨⟨fun t member => ?_, List.pairwise_cons.2 ⟨after, ordered⟩⟩, fun t member => ?_⟩
    · obtain rfl | member := List.mem_cons.1 member
      · exact Nat.lt_add_of_pos_right long
      · exact positive t member
    · obtain rfl | member := List.mem_cons.1 member
      · exact Nat.le_add_right ..
      · have := after t member
        omega

/-- A token is not empty, and its text is that at its range. -/
theorem shows (splits : lexer.Splits offset cs ts) (before : String)
    (start : offset = before.utf8ByteSize) :
    ∀ t ∈ ts, t.kind ≠ .eof ∧ t.text ≠ "" ∧
      t.range.Shows (before ++ String.ofList cs) t.text := by
  induction splits generalizing before with
  | done => nofun
  | @token offset gap w behind kind ts _ _ leads _ ih =>
    intro t member
    obtain rfl | member := List.mem_cons.1 member
    · refine ⟨leads.kind_ne_eof, fun empty => leads.ne_nil (String.ofList_eq_empty_iff.1 empty),
        before ++ String.ofList gap, String.ofList behind, ?_, ?_, ?_⟩
      · simp only [String.ofList_append, String.append_assoc]
      · rw [String.utf8ByteSize_append, utf8ByteSize_ofList, start]
      · rw [String.utf8ByteSize_append, utf8ByteSize_ofList, utf8ByteSize_ofList, start]
    · have later := ih (before ++ String.ofList gap ++ String.ofList w) (by
        rw [String.utf8ByteSize_append, String.utf8ByteSize_append, utf8ByteSize_ofList,
          utf8ByteSize_ofList, start]) t member
      simpa only [String.ofList_append, String.append_assoc] using later

end Splits

theorem placed_tokens (lexer : Lexer) (text : String) : Placed (lexer.tokens text) :=
  (lexer.splits_tokens text).placed.1

theorem shows_tokens (lexer : Lexer) (text : String) : ∀ t ∈ lexer.tokens text,
    t.kind ≠ .eof ∧ t.text ≠ "" ∧ t.range.Shows text t.text := by
  have shows := (lexer.splits_tokens text).shows "" rfl
  rwa [String.empty_append, String.ofList_toList] at shows

end Lexer

end CubeScript
