import CubeScript.Cube.State

/-!
# Cycles of pieces

A cycle takes the piece in each of its places to the next one, and the piece in the last
place back to the first. The places are entered from a given face, so a piece keeps facing
the way the cycle says, and a sign twists the one piece that goes back to the start.

A cycle has at least one place, its places differ and are of one kind, and its sign is one that
makes sense for that kind. `Cycle.make` checks all this, and `Cycle.make_eq_ok_iff` says that it
refuses nothing else. An edge has only one twist, so both signs mean the same there and the minus
sign is the one that is kept.
-/

namespace CubeScript

namespace Cycle

/-- An extra twist at the end of a cycle. -/
inductive Sign where
  | none
  | plus
  | minus
  | plusPlus
  deriving DecidableEq, Repr, Inhabited

namespace Sign

/-- All signs. -/
def all : List Sign := [.none, .plus, .minus, .plusPlus]

/-- How a sign is written. -/
def text : Sign → String
  | .none => ""
  | .plus => "+"
  | .minus => "-"
  | .plusPlus => "++"

instance : ToString Sign := ⟨text⟩

/-- The sign written in a given way. -/
def ofText? (s : String) : Option Sign := all.find? fun sign => sign.text == s

/-- By how much a sign twists a piece that has `twists` twists. -/
def twist (twists : Nat) : Sign → Nat
  | .none => 0
  | .plus => 1 % twists
  | .minus => (twists - 1) % twists
  | .plusPlus => 2 % twists

/-- The sign with the opposite twist, where there is one. Two steps of four are as many
either way. -/
def negated : Sign → Sign
  | .plus => .minus
  | .minus => .plus
  | s => s

@[simp] theorem negated_negated (s : Sign) : s.negated.negated = s := by
  cases s <;> rfl

/-- The sign a cycle of some kind keeps for a sign it is given, if it may have one. -/
def legal? : PieceKind → Sign → Option Sign
  | _, .none => some .none
  | .corner, .plus => some .plus
  | .corner, .minus => some .minus
  | .edge, .plus => some .minus
  | .edge, .minus => some .minus
  | .side, s => some s
  | _, _ => Option.none

/-- A sign that is kept is kept as it is. -/
theorem legal?_of_legal? {kind : PieceKind} {s kept : Sign} (h : s.legal? kind = some kept) :
    kept.legal? kind = some kept := by
  cases kind <;> cases s <;> simp_all [legal?] <;> subst h <;> rfl

/-- The sign that undoes a sign of a kind of pieces. -/
def undoing (kind : PieceKind) (s : Sign) : Sign := (s.negated.legal? kind).getD .none

theorem legal?_undoing (kind : PieceKind) (s : Sign) :
    (s.undoing kind).legal? kind = some (s.undoing kind) := by
  cases kind <;> cases s <;> rfl

theorem undoing_undoing {kind : PieceKind} {s : Sign} (h : s.legal? kind = some s) :
    (s.undoing kind).undoing kind = s := by
  cases kind <;> cases s <;> simp_all [legal?, undoing, negated]

end Sign

/-- A place of a cycle. The orientation is the number of the face the place is entered from,
in the order of the faces of the place, and the name is what was written. -/
structure Item where
  kind : PieceKind
  place : Nat
  orientation : UInt8
  name : String
  deriving DecidableEq, Repr

/-- Why a cycle cannot be made. -/
inductive Fault where
  | mixedKinds (expected found : PieceKind)
  | repeatedPlace (name : String)
  | illegalSign (sign : Sign) (kind : PieceKind)
  | noItems
  | part (fault : Cube.Fault)
  deriving DecidableEq, Repr

/-- The wording of a fault. -/
def Fault.message : Fault → String
  | .mixedKinds expected found =>
    s!"cannot mix {expected} and {found} parts in one permutation cycle"
  | .repeatedPlace name => s!"part '{name}' appears more than once in the permutation cycle"
  | .illegalSign sign kind => s!"sign '{sign}' cannot be applied to {kind} parts"
  | .noItems => "a permutation cycle needs at least one part"
  | .part fault => fault.message

/-- The item that names a place of a cube by its faces and its number inside the slot. -/
def Item.ofFaces (size : Size) (faces : List Face) (number : Option Nat) : Except Fault Item :=
  match Place.locate size faces number with
  | .error fault => .error (.part fault)
  | .ok (kind, place, orientation) =>
    .ok ⟨kind, place, UInt8.ofNat orientation, Place.describe faces number⟩

/-- The first thing wrong with items that follow others in a cycle of some kind. -/
def itemFault? (kind : PieceKind) (earlier : List Item) : List Item → Option Fault
  | [] => none
  | item :: items =>
    if item.kind ≠ kind then some (.mixedKinds kind item.kind)
    else if earlier.any (·.place = item.place) then some (.repeatedPlace item.name)
    else itemFault? kind (item :: earlier) items

theorem itemFault?_eq_none_iff {kind : PieceKind} {earlier items : List Item} :
    itemFault? kind earlier items = none ↔
      (∀ item ∈ items, item.kind = kind) ∧ (items.map Item.place).Nodup ∧
        ∀ item ∈ items, ∀ other ∈ earlier, other.place ≠ item.place := by
  induction items generalizing earlier with
  | nil => simp [itemFault?]
  | cons item items ih =>
    by_cases hkind : item.kind = kind
    · by_cases hplace : earlier.any (·.place = item.place)
      · simp only [List.any_eq_true, decide_eq_true_eq] at hplace
        obtain ⟨other, hmem, heq⟩ := hplace
        have hany : earlier.any (·.place = item.place) := by simpa using ⟨other, hmem, heq⟩
        rw [itemFault?, if_neg (by simp [hkind]), if_pos hany]
        simp only [reduceCtorEq, false_iff]
        exact fun h => h.2.2 item (by simp) other hmem heq
      · have hearlier : ∀ other ∈ earlier, other.place ≠ item.place := by simpa using hplace
        rw [itemFault?, if_neg (by simp [hkind]), if_neg hplace, ih]
        simp only [List.mem_cons, List.map_cons, List.nodup_cons, List.mem_map]
        grind
    · simp [itemFault?, hkind]

end Cycle

/-- A cycle of pieces of one kind. -/
structure Cycle where
  kind : PieceKind
  items : List Cycle.Item
  sign : Cycle.Sign
  items_ne_nil : items ≠ []
  kind_eq : ∀ item ∈ items, item.kind = kind
  nodup_places : (items.map Cycle.Item.place).Nodup
  legal_sign : sign.legal? kind = some sign
  deriving DecidableEq, Repr

namespace Cycle

/-- The cycle through some items with a sign. Every item is compared with the first and then
with those before it, and the sign is looked at last. -/
def make : (items : List Item) → (sign : Sign) → Except Fault Cycle
  | [], _ => .error .noItems
  | first :: rest, sign =>
    match hitems : itemFault? first.kind [] (first :: rest) with
    | some fault => .error fault
    | none =>
      match hsign : sign.legal? first.kind with
      | none => .error (.illegalSign sign first.kind)
      | some kept =>
        .ok {
          kind := first.kind
          items := first :: rest
          sign := kept
          items_ne_nil := List.cons_ne_nil _ _
          kind_eq := (itemFault?_eq_none_iff.1 hitems).1
          nodup_places := (itemFault?_eq_none_iff.1 hitems).2.1
          legal_sign := Sign.legal?_of_legal? hsign }

theorem items_of_make {items : List Item} {sign : Sign} {c : Cycle}
    (h : make items sign = .ok c) : c.items = items ∧ sign.legal? c.kind = some c.sign := by
  unfold make at h
  split at h
  · cases h
  · split at h
    · cases h
    · split at h
      · cases h
      · cases h
        exact ⟨rfl, by assumption⟩

theorem make_items (c : Cycle) {sign : Sign} (h : sign.legal? c.kind = some c.sign) :
    make c.items sign = .ok c := by
  obtain ⟨kind, items, kept, hne, hkind, hnodup, hlegal⟩ := c
  cases items with
  | nil => exact absurd rfl hne
  | cons first rest =>
    obtain rfl : first.kind = kind := hkind first (by simp)
    have hitems : itemFault? first.kind [] (first :: rest) = none :=
      itemFault?_eq_none_iff.2 ⟨hkind, hnodup, by simp⟩
    change sign.legal? first.kind = some kept at h
    change make (first :: rest) sign = _
    rw [make]
    split
    · simp_all
    · split
      · simp_all
      · rename_i hsome
        obtain rfl := Option.some.inj (h.symm.trans hsome)
        rfl

/-- The cycles that can be made of some items and a sign are those with these items and the sign
that their kind keeps. -/
theorem make_eq_ok_iff {items : List Item} {sign : Sign} {c : Cycle} :
    make items sign = .ok c ↔ c.items = items ∧ sign.legal? c.kind = some c.sign :=
  ⟨items_of_make, fun ⟨hitems, hsign⟩ => hitems ▸ c.make_items hsign⟩

/-- The cycle that undoes a cycle. -/
def inverse (c : Cycle) : Cycle where
  kind := c.kind
  items := c.items.reverse
  sign := c.sign.undoing c.kind
  items_ne_nil := by simpa using c.items_ne_nil
  kind_eq := by simpa using c.kind_eq
  nodup_places := by
    rw [List.map_reverse]
    exact (List.reverse_perm _).nodup_iff.2 c.nodup_places
  legal_sign := Sign.legal?_undoing c.kind c.sign

@[simp] theorem inverse_inverse (c : Cycle) : c.inverse.inverse = c := by
  obtain ⟨kind, items, sign, hne, hkind, hnodup, hlegal⟩ := c
  simp [inverse, Sign.undoing_undoing hlegal]

/-- The items of a cycle, each with the one its piece goes to. -/
def steps (c : Cycle) : List (Item × Item) :=
  c.items.zip (c.items.rotateLeft 1)

/-- What is summed up for the twist of a piece that leaves one item with twist `twist` and enters
the next one. Of the two items only the one that is left is reduced before. -/
def twistSum (kind : PieceKind) (twist : Nat) (source target : Item) : Nat :=
  twist % kind.twists + kind.twists - source.orientation.toNat % kind.twists +
    target.orientation.toNat

/-- The twist of a piece that leaves one item with twist `twist` and enters the next one. -/
def twistAfter (kind : PieceKind) (twist : Nat) (source target : Item) : Nat :=
  twistSum kind twist source target % kind.twists

/-- Move the pieces along some steps, the last of which adds a twist of its own. The pieces are
found on the cube as it was at the start. Twists are summed up in bytes, and it all stops if a sum
does not fit, which only an item with an orientation that no face has can bring about. -/
def moveAlong (cube : Cube) (kind : PieceKind) (extra : Nat) :
    List (Item × Item) → List Seat → Except Cube.Fault (List Seat)
  | [], seats => .ok seats
  | (source, target) :: steps, seats =>
    match cube.pieceAt? kind source.place with
    | none => .error (.noSuchPart source.name)
    | some piece =>
      let before := ((cube.seats kind)[piece]?.map Seat.twist).getD 0
      if 256 ≤ twistSum kind before source target then .error .byteOverflow
      else
        let twist := twistAfter kind before source target
        let twist := if steps.isEmpty then (twist + extra) % kind.twists else twist
        moveAlong cube kind extra steps (seats.set piece ⟨target.place, twist⟩)

/-- Move the pieces of a cube along a cycle. Nothing moves unless all the places exist, and the
seats that come of it are assigned like any others. -/
def apply (c : Cycle) (cube : Cube) : Except Cube.Fault Cube := do
  let seats ← moveAlong cube c.kind (c.sign.twist c.kind.twists) c.steps (cube.seats c.kind)
  cube.assign c.kind (seats.map Seat.place) (seats.map Seat.twist)

/-- A cycle in writing: its sign and the names of its items in parentheses. -/
def text (c : Cycle) : String :=
  "(" ++ c.sign.text ++ ",".intercalate (c.items.map Item.name) ++ ")"

instance : ToString Cycle := ⟨text⟩

end Cycle

end CubeScript
