import CubeScript.Text.Token
import CubeScript.Text.Trie

/-!
# Splitting a text into tokens

Between tokens there may be blanks and comments, which a lexer skips. The token after them is the
longest keyword that the rest of the text begins with. If there is none, a digit starts a number
and a letter or an underscore starts a word, each as long as it can be, and any other character
is a token of its own. Numbers and words are made of ASCII characters only.

`Lexer.tokens` lists the tokens of a text up to its end. Every token takes at least one character
(`Lexer.classify_pos`), so the list is finite.
-/

namespace CubeScript

/-- The number of bytes that some characters take. -/
def byteLength : List Char → Nat
  | [] => 0
  | c :: cs => c.utf8Size + byteLength cs

@[simp] theorem byteLength_nil : byteLength [] = 0 := rfl

@[simp] theorem byteLength_cons (c : Char) (cs : List Char) :
    byteLength (c :: cs) = c.utf8Size + byteLength cs := rfl

@[simp] theorem byteLength_append (cs ds : List Char) :
    byteLength (cs ++ ds) = byteLength cs + byteLength ds := by
  induction cs with
  | nil => simp
  | cons c cs ih => simp [ih, Nat.add_assoc]

/-- The rest of a text, and how many bytes come before it, however many these are. -/
structure Cursor where
  offset : Nat
  rest : List Char
  deriving DecidableEq, Repr, Inhabited

namespace Cursor

/-- The beginning of a text. -/
def start (text : String) : Cursor := ⟨0, text.toList⟩

/-- The length of the whole text, in bytes. -/
def textEnd (p : Cursor) : Nat := p.offset + byteLength p.rest

/-- Go past some characters. -/
def advance (p : Cursor) (count : Nat) : Cursor :=
  ⟨p.offset + byteLength (p.rest.take count), p.rest.drop count⟩

theorem length_rest_advance (p : Cursor) (count : Nat) :
    (p.advance count).rest.length = p.rest.length - count := by
  simp [advance]

end Cursor

/-- What is skipped and what is a keyword. -/
structure Lexer where
  keywords : Trie
  blanks : List Char
  lineComment : Option (List Char) := none
  blockComment : Option (List Char × List Char) := none

namespace Lexer

/-- Whether a character is an ASCII letter or an underscore. -/
def isWordStart (c : Char) : Bool := c.isAlpha || c = '_'

/-- Whether a character is an ASCII letter or digit or an underscore. -/
def isWordPart (c : Char) : Bool := c.isAlphanum || c = '_'

/-- The number of characters before the first place where a pattern occurs. -/
def find? (pattern : List Char) : List Char → Option Nat
  | [] => if pattern = [] then some 0 else none
  | c :: cs =>
    if pattern.isPrefixOf (c :: cs) then some 0 else (find? pattern cs).map (· + 1)

/-- Whether a text begins with a delimiter. An empty delimiter delimits nothing. -/
def opens (delimiter cs : List Char) : Bool :=
  delimiter ≠ [] && delimiter.isPrefixOf cs

/-- The number of characters of a line comment at the start of a text. It ends before the first
line break. -/
def lineCommentLength? (lexer : Lexer) (cs : List Char) : Option Nat :=
  match lexer.lineComment with
  | none => none
  | some start =>
    if opens start cs then some (cs.takeWhile (· ≠ '\n')).length else none

/-- The number of characters of a block comment at the start of a text. It ends with the first
closing delimiter after the opening one, or with the text. -/
def blockCommentLength? (lexer : Lexer) (cs : List Char) : Option Nat :=
  match lexer.blockComment with
  | none => none
  | some (start, stop) =>
    if opens start cs then
      match find? stop (cs.drop start.length) with
      | some length => some (start.length + length + stop.length)
      | none => some cs.length
    else none

/-- The number of characters of a comment at the start of a text. -/
def commentLength? (lexer : Lexer) (cs : List Char) : Option Nat :=
  (lexer.lineCommentLength? cs).or (lexer.blockCommentLength? cs)

/-- Go past blanks. -/
def skipBlanks (lexer : Lexer) (p : Cursor) : Cursor :=
  p.advance (p.rest.takeWhile (lexer.blanks.contains ·)).length

theorem length_skipBlanks_le (lexer : Lexer) (p : Cursor) :
    (lexer.skipBlanks p).rest.length ≤ p.rest.length := by
  rw [skipBlanks, Cursor.length_rest_advance]
  omega

/-- Go past blanks and comments. A comment without characters is none, so that the end is
reached. -/
def skip (lexer : Lexer) (p : Cursor) : Cursor :=
  let q := lexer.skipBlanks p
  match lexer.commentLength? q.rest with
  | none => q
  | some length =>
    if (q.advance length).rest.length < p.rest.length then lexer.skip (q.advance length)
    else q
termination_by p.rest.length

theorem length_skip_le (lexer : Lexer) (p : Cursor) :
    (lexer.skip p).rest.length ≤ p.rest.length := by
  fun_induction lexer.skip p with
  | case1 p q => exact lexer.length_skipBlanks_le p
  | case2 p q length _ hlt ih => omega
  | case3 p q => exact lexer.length_skipBlanks_le p

/-- The kind and the number of characters of the token that a text begins with, if the text does
not end there. -/
def classify (lexer : Lexer) (cs : List Char) : Token.Kind × Nat :=
  match lexer.keywords.longest? cs with
  | some length => (.keyword, length)
  | none =>
    match cs with
    | [] => (.eof, 0)
    | c :: cs =>
      if c.isDigit then (.number, 1 + (cs.takeWhile Char.isDigit).length)
      else if isWordStart c then (.word, 1 + (cs.takeWhile isWordPart).length)
      else (.special, 1)

theorem classify_pos (lexer : Lexer) {cs : List Char} (h : cs ≠ []) :
    0 < (lexer.classify cs).2 := by
  unfold classify
  split
  · rename_i hlongest
    exact Trie.longest?_pos hlongest
  · split
    · exact absurd rfl h
    · split
      · simp only
        omega
      · split <;> simp only <;> omega

/-- The token at a cursor. -/
def tokenAt (lexer : Lexer) (p : Cursor) : Token :=
  if p.rest = [] then .atEnd p.offset
  else
    let (kind, length) := lexer.classify p.rest
    ⟨kind, String.ofList (p.rest.take length), ⟨p.offset, (p.advance length).offset⟩⟩

/-- The cursor behind the token at a cursor. -/
def pastToken (lexer : Lexer) (p : Cursor) : Cursor :=
  p.advance (lexer.classify p.rest).2

theorem length_pastToken_lt (lexer : Lexer) {p : Cursor} (h : p.rest ≠ []) :
    (lexer.pastToken p).rest.length < p.rest.length := by
  have := lexer.classify_pos h
  have := List.length_pos_iff.mpr h
  rw [pastToken, Cursor.length_rest_advance]
  omega

/-- The tokens from a cursor on, without the end of the text. -/
def tokensFrom (lexer : Lexer) (p : Cursor) : List Token :=
  let q := lexer.skip p
  if _ : q.rest = [] then []
  else lexer.tokenAt q :: lexer.tokensFrom (lexer.pastToken q)
termination_by p.rest.length
decreasing_by exact Nat.lt_of_lt_of_le (lexer.length_pastToken_lt ‹_›) (lexer.length_skip_le p)

/-- The tokens of a text, without its end. -/
def tokens (lexer : Lexer) (text : String) : List Token := lexer.tokensFrom (.start text)

end Lexer

end CubeScript
