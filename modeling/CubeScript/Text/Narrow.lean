import CubeScript.Text.Tokenizer

/-!
# Reading tokens with offsets of 32 bits

A `Tokenizer` counts bytes without end. A `NarrowTokenizer` keeps each offset of a range in 32 bits,
and an offset that does not fit loses the bits above. After a token it goes on at the end that it
has kept. On a text that is too long this may be a place that it has been at before.

It has to give up where the offset to go on at cuts a character in two, and where the end of a token
does not fit although its start and its length do.
-/

namespace CubeScript

/-- The least offset that does not fit in 32 bits. -/
def offsetBound : Nat := 0x100000000

/-- The range of so many bytes from a place on. The place and the number of bytes only keep their
lower 32 bits, and there is no such range if their sum does not fit. -/
def Range.narrow (start length : Nat) : Option Range :=
  let first := start % offsetBound
  let behind := first + length % offsetBound
  if behind < offsetBound then some ⟨first, behind⟩ else none

namespace Cursor

/-- The place so many bytes further on in some characters, as the one with a given offset. The bytes
have to be there, and may not end within a character. -/
def seekFrom (offset : Nat) : List Char → (distance : Nat) → Option Cursor
  | cs, 0 => some ⟨offset, cs⟩
  | [], _ + 1 => none
  | c :: cs, distance + 1 =>
    if c.utf8Size ≤ distance + 1 then seekFrom offset cs (distance + 1 - c.utf8Size) else none

/-- The place with a given offset in a text, if there is one and it cuts no character in two. -/
def seek? (text : String) (offset : Nat) : Option Cursor := seekFrom offset text.toList offset

end Cursor

/-- A text that has been read in part, with offsets of 32 bits. -/
structure NarrowTokenizer where
  lexer : Lexer
  text : String
  position : Nat
  last : Option Token
  pushedBack : Bool

/-- Where a narrow tokenizer has got to in its text. -/
structure NarrowCheckpoint where
  position : Nat
  last : Option Token
  pushedBack : Bool

namespace NarrowTokenizer

/-- A tokenizer at the beginning of a text. -/
def start (lexer : Lexer) (text : String) : NarrowTokenizer := ⟨lexer, text, 0, none, false⟩

/-- Read a token that has not been read yet. -/
def read (z : NarrowTokenizer) : Option (Token × NarrowTokenizer) := do
  let p ← Cursor.seek? z.text z.position
  let p := z.lexer.skip p
  let t := z.lexer.tokenAt p
  let range ← Range.narrow p.offset t.text.utf8ByteSize
  let token := { t with range }
  return (token, { z with position := range.stop, last := some token, pushedBack := false })

/-- The next token. -/
def next (z : NarrowTokenizer) : Option (Token × NarrowTokenizer) :=
  match z.pushedBack, z.last with
  | true, some token => some (token, { z with pushedBack := false })
  | _, _ => z.read

/-- Hand out the last token again. Nothing happens before the first token. -/
def pushBack (z : NarrowTokenizer) : NarrowTokenizer :=
  if z.last.isSome then { z with pushedBack := true } else z

/-- The next token, which stays the next one. -/
def peek (z : NarrowTokenizer) : Option (Token × NarrowTokenizer) := do
  let (token, z) ← z.next
  return (token, z.pushBack)

/-- Where the tokenizer has got to. -/
def checkpoint (z : NarrowTokenizer) : NarrowCheckpoint := ⟨z.position, z.last, z.pushedBack⟩

/-- Go back to where a tokenizer of the same text had got to. -/
def restore (z : NarrowTokenizer) (c : NarrowCheckpoint) : NarrowTokenizer :=
  { z with position := c.position, last := c.last, pushedBack := c.pushedBack }

/-- Where the last token starts. -/
def startPosition (z : NarrowTokenizer) : Nat := (z.last.map (·.range.start)).getD 0

/-- Where the last token ends. -/
def endPosition (z : NarrowTokenizer) : Nat := (z.last.map (·.range.stop)).getD 0

end NarrowTokenizer

end CubeScript
