import CubeScript.Text.Lexer

/-!
# Reading tokens one by one

A tokenizer hands out the tokens of a text in order, and after them the end of the text for
ever. The last token can be pushed back once, to be handed out again. Where a tokenizer has got
to can be kept in a checkpoint, and it can be taken back there.
-/

namespace CubeScript

/-- A text that has been read in part: where reading goes on, the last token, and whether that
token is to be handed out again. -/
structure Tokenizer where
  lexer : Lexer
  cursor : Cursor
  last : Option Token
  pushedBack : Bool

namespace Tokenizer

/-- A tokenizer at the beginning of a text. -/
def start (lexer : Lexer) (text : String) : Tokenizer := ⟨lexer, .start text, none, false⟩

/-- Read a token that has not been read yet. -/
def read (z : Tokenizer) : Token × Tokenizer :=
  let p := z.lexer.skip z.cursor
  let token := z.lexer.tokenAt p
  (token, { z with cursor := z.lexer.pastToken p, last := some token, pushedBack := false })

/-- The next token. -/
def next (z : Tokenizer) : Token × Tokenizer :=
  match z.pushedBack, z.last with
  | true, some token => (token, { z with pushedBack := false })
  | _, _ => z.read

/-- Hand out the last token again. Nothing happens before the first token. -/
def pushBack (z : Tokenizer) : Tokenizer :=
  if z.last.isSome then { z with pushedBack := true } else z

/-- The next token, which stays the next one. -/
def peek (z : Tokenizer) : Token × Tokenizer :=
  let (token, z) := z.next
  (token, z.pushBack)

end Tokenizer

/-- Where a tokenizer has got to in its text. -/
structure Checkpoint where
  cursor : Cursor
  last : Option Token
  pushedBack : Bool

namespace Tokenizer

/-- Where the tokenizer has got to. -/
def checkpoint (z : Tokenizer) : Checkpoint := ⟨z.cursor, z.last, z.pushedBack⟩

/-- Go back to where a tokenizer of the same text had got to. -/
def restore (z : Tokenizer) (c : Checkpoint) : Tokenizer :=
  { z with cursor := c.cursor, last := c.last, pushedBack := c.pushedBack }

/-- The length of the text, in bytes. -/
def textEnd (z : Tokenizer) : Nat := z.cursor.textEnd

/-- The tokens that are still to be handed out before the end of the text. -/
def remaining (z : Tokenizer) : List Token :=
  let unread := z.lexer.tokensFrom z.cursor
  match z.pushedBack, z.last with
  | true, some token => if token.isEnd then [] else token :: unread
  | _, _ => unread

/-- Where the last token starts. -/
def startPosition (z : Tokenizer) : Nat := (z.last.map (·.range.start)).getD 0

/-- Where the last token ends. -/
def endPosition (z : Tokenizer) : Nat := (z.last.map (·.range.stop)).getD 0

end Tokenizer

end CubeScript
