import CubeScript.Json.Value

/-!
# Reading JSON

A strict reader: one value, with nothing but blanks around it. There are no comments and no
trailing commas, numbers have no leading zeros, and control characters do not stand in strings.

Each reading function takes a text and gives a value and the rest of the text behind it. Values
nest, and `Json.read?` lets them nest as deeply as the length of the text allows.
-/

namespace CubeScript

namespace Json

/-- Whether a character may stand between the tokens of a JSON text. -/
def isBlank (c : Char) : Bool := c = ' ' || c = '\n' || c = '\t' || c = '\r'

/-- A text without the blanks at its beginning. -/
def skipBlanks (cs : List Char) : List Char := cs.dropWhile isBlank

/-- The value of a hexadecimal digit. -/
def hexDigit? (c : Char) : Option Nat :=
  if c.isDigit then some (c.toNat - '0'.toNat)
  else if 'a' ≤ c ∧ c ≤ 'f' then some (c.toNat - 'a'.toNat + 10)
  else if 'A' ≤ c ∧ c ≤ 'F' then some (c.toNat - 'A'.toNat + 10)
  else none

/-- The character that a backslash and a letter stand for. -/
def escaped? : Char → Option Char
  | '"' => some '"'
  | '\\' => some '\\'
  | '/' => some '/'
  | 'b' => some '\x08'
  | 'f' => some '\x0c'
  | 'n' => some '\n'
  | 'r' => some '\r'
  | 't' => some '\t'
  | _ => none

/-- The code points of a string whose opening quote has been read. Escapes may name the halves of
surrogate pairs, which are left as they are. -/
def codePoints? : List Char → Option (List Nat × List Char)
  | [] => none
  | '"' :: cs => some ([], cs)
  | '\\' :: 'u' :: a :: b :: c :: d :: cs => do
    let code := 4096 * (← hexDigit? a) + 256 * (← hexDigit? b) + 16 * (← hexDigit? c) +
      (← hexDigit? d)
    let (codes, rest) ← codePoints? cs
    return (code :: codes, rest)
  | '\\' :: e :: cs => do
    let c ← escaped? e
    let (codes, rest) ← codePoints? cs
    return (c.toNat :: codes, rest)
  | c :: cs => do
    if c.toNat < 0x20 ∨ c = '\\' then none
    else
      let (codes, rest) ← codePoints? cs
      return (c.toNat :: codes, rest)

/-- The characters of some code points, where the two halves of a surrogate pair make one. Half a
pair makes none. -/
def joinSurrogates? : List Nat → Option (List Char)
  | [] => some []
  | [code] => if 0xD800 ≤ code ∧ code < 0xE000 then none else some [Char.ofNat code]
  | code :: next :: codes =>
    if 0xD800 ≤ code ∧ code < 0xDC00 then
      if 0xDC00 ≤ next ∧ next < 0xE000 then
        (joinSurrogates? codes).map
          (Char.ofNat (0x10000 + 0x400 * (code - 0xD800) + (next - 0xDC00)) :: ·)
      else none
    else if 0xDC00 ≤ code ∧ code < 0xE000 then none
    else (joinSurrogates? (next :: codes)).map (Char.ofNat code :: ·)

/-- Read a string whose opening quote has been read. -/
def readString? (cs : List Char) : Option (Option String × List Char) := do
  let (codes, rest) ← codePoints? cs
  return ((joinSurrogates? codes).map String.ofList, rest)

/-- Go past at least one digit. -/
def skipDigits? : List Char → Option (List Char)
  | c :: cs => if c.isDigit then some (cs.dropWhile Char.isDigit) else none
  | [] => none

/-- Go past the fraction of a number, if it has one. -/
def skipFraction? : List Char → Option (List Char)
  | '.' :: cs => skipDigits? cs
  | cs => some cs

/-- Go past the exponent of a number, if it has one. -/
def skipExponent? : List Char → Option (List Char)
  | c :: cs =>
    if c = 'e' ∨ c = 'E' then
      match cs with
      | '+' :: cs => skipDigits? cs
      | '-' :: cs => skipDigits? cs
      | cs => skipDigits? cs
    else some (c :: cs)
  | [] => some []

/-- Read a number without its sign. -/
def readUnsigned? (negative : Bool) (cs : List Char) : Option (Option Int × List Char) := do
  let digits := cs.takeWhile Char.isDigit
  let rest := cs.dropWhile Char.isDigit
  if digits = [] ∨ (digits.head? = some '0' ∧ 1 < digits.length) then none
  else
    let tail ← skipExponent? (← skipFraction? rest)
    let value : Nat := digits.foldl (fun value c => 10 * value + (c.toNat - '0'.toNat)) 0
    if tail.length < rest.length ∨ (negative ∧ value = 0) then return (none, tail)
    else return (some (if negative then -(value : Int) else value), tail)

/-- Read a number. -/
def readNumber? : List Char → Option (Option Int × List Char)
  | '-' :: cs => readUnsigned? true cs
  | cs => readUnsigned? false cs

mutual

/-- Read a value, nested at most as deeply as `fuel` allows. -/
def readValue? : (fuel : Nat) → List Char → Option (Json × List Char)
  | 0, _ => none
  | fuel + 1, cs =>
    match skipBlanks cs with
    | 'n' :: 'u' :: 'l' :: 'l' :: cs => some (.null, cs)
    | 't' :: 'r' :: 'u' :: 'e' :: cs => some (.bool true, cs)
    | 'f' :: 'a' :: 'l' :: 's' :: 'e' :: cs => some (.bool false, cs)
    | '"' :: cs => do
      let (text, rest) ← readString? cs
      return (.string text, rest)
    | '[' :: cs =>
      match skipBlanks cs with
      | ']' :: cs => some (.array [], cs)
      | cs => do
        let (elements, rest) ← readElements? fuel cs
        return (.array elements, rest)
    | '{' :: cs =>
      match skipBlanks cs with
      | '}' :: cs => some (.object [], cs)
      | cs => do
        let (members, rest) ← readMembers? fuel cs
        return (.object members, rest)
    | cs => do
      let (value, rest) ← readNumber? cs
      return (.number value, rest)

/-- Read the elements of an array, at least one, and the bracket behind them. -/
def readElements? : (fuel : Nat) → List Char → Option (List Json × List Char)
  | 0, _ => none
  | fuel + 1, cs => do
    let (element, rest) ← readValue? fuel cs
    match skipBlanks rest with
    | ']' :: rest => return ([element], rest)
    | ',' :: rest =>
      let (elements, rest) ← readElements? fuel rest
      return (element :: elements, rest)
    | _ => none

/-- Read the members of an object, at least one, and the brace behind them. -/
def readMembers? : (fuel : Nat) → List Char → Option (List (Option String × Json) × List Char)
  | 0, _ => none
  | fuel + 1, cs =>
    match skipBlanks cs with
    | '"' :: cs => do
      let (key, rest) ← readString? cs
      match skipBlanks rest with
      | ':' :: rest =>
        let (value, rest) ← readValue? fuel rest
        match skipBlanks rest with
        | '}' :: rest => return ([(key, value)], rest)
        | ',' :: rest =>
          let (members, rest) ← readMembers? fuel rest
          return ((key, value) :: members, rest)
        | _ => none
      | _ => none
    | _ => none

end

/-- The value that a text describes. -/
def read? (text : String) : Option Json := do
  let cs := text.toList
  let (value, rest) ← readValue? (2 * cs.length + 2) cs
  if skipBlanks rest = [] then some value else none

end Json

end CubeScript
