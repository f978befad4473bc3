/-!
# JSON values

A value keeps what a reader of records needs to know of a JSON text: object members in their order
and with repetitions, and the integers. A number with a fraction or an exponent, and minus zero,
are numbers without an integer value. A string whose escapes name half of a surrogate pair is a
string without a text.
-/

namespace CubeScript

/-- A JSON value. -/
inductive Json where
  | null
  | bool (b : Bool)
  | number (value : Option Int)
  | string (text : Option String)
  | array (elements : List Json)
  | object (members : List (Option String × Json))

namespace Json

/-- The text of a string. -/
def string? : Json → Option String
  | .string text => text
  | _ => none

/-- The value of an integer that is at least `low` and at most `high`. -/
def intBetween? (low high : Int) : Json → Option Int
  | .number (some n) => if low ≤ n ∧ n ≤ high then some n else none
  | _ => none

/-- The value of an integer that is not negative and has at most `bits` binary digits. -/
def nat? (bits : Nat) : Json → Option Nat
  | .number (some (.ofNat n)) => if n >>> bits = 0 then some n else none
  | _ => none

/-- The elements of an array. -/
def array? : Json → Option (List Json)
  | .array elements => some elements
  | _ => none

/-- The elements of an array, each read in some way. -/
def listOf? {α : Type} (read : Json → Option α) (j : Json) : Option (List α) := do
  (← j.array?).mapM read

/-- The members of an object in order, each value read in some way. -/
def membersOf? {α : Type} (read : Json → Option α) : Json → Option (List (String × α))
  | .object members => members.mapM fun (key, value) => do return (← key, ← read value)
  | _ => none

/-- Null, or a value that is read in some way. -/
def nullable? {α : Type} (read : Json → Option α) : Json → Option (Option α)
  | .null => some none
  | j => (read j).map some

/-- The values of the fields of a record that is given as an object. No field may be there twice,
and members that are no fields are passed over. -/
def fieldsOfMembers? (names : List String) (members : List (Option String × Json)) :
    Option (List (Option Json)) := do
  let known ← members.mapM fun (key, value) => do return (← key, value)
  names.mapM fun name =>
    match known.filter (·.1 = name) with
    | [] => some none
    | [(_, value)] => some (some value)
    | _ => none

/-- The values of the fields of a record. It is an object, or an array of the values in the order
of the fields, from which values may be missing at the end. -/
def fields? (names : List String) : Json → Option (List (Option Json))
  | .object members => fieldsOfMembers? names members
  | .array elements =>
    if elements.length ≤ names.length then
      some (elements.map some ++ List.replicate (names.length - elements.length) none)
    else none
  | _ => none

end Json

end CubeScript
