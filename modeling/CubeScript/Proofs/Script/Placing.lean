import CubeScript.Proofs.Script.Layout

/-!
# Where the nodes of statements are

Laying out statements adds nodes and leaves the old ones as they were. The nodes that the statements
are given have the statements' ranges. When a shorthand is read in place, its text is laid out
with the ranges it has there, and then all its nodes are put where the shorthand stands. This comes
to the same as laying out the text with that range in place of its own
(`Arena.place_setRangesFrom`).
-/

namespace CubeScript

namespace Arena

variable {arena larger : Arena}

theorem Keeps.refl (arena : Arena) : arena.Keeps arena := fun _ _ stored => stored

theorem Keeps.size_le (keeps : arena.Keeps larger) : arena.size ≤ larger.size := by
  rcases Nat.eq_zero_or_pos arena.size with none | some
  · omega
  · have last := keeps _ _ (Array.getElem?_eq_getElem (Nat.sub_one_lt_of_lt some))
    have := (Array.getElem?_eq_some_iff.1 last).1
    omega

/-- The old nodes are left if the new ones are forgotten. -/
theorem Keeps.truncate (keeps : arena.Keeps larger) : larger.truncate arena.size = arena := by
  have size := keeps.size_le
  rw [Arena.truncate]
  apply Array.ext
  · rw [Array.size_extract]
    omega
  · intro id _ inside
    have kept := keeps id _ (Array.getElem?_eq_getElem inside)
    rw [Array.getElem_extract]
    simp only [Nat.zero_add]
    exact (Array.getElem?_eq_some_iff.1 kept).2

/-- The old nodes keep their ranges if the new ones get another. -/
theorem Keeps.setRangesFrom (keeps : arena.Keeps larger) (range : Range) :
    arena.Keeps (larger.setRangesFrom arena.size range) := by
  intro id node stored
  obtain ⟨inside, _⟩ := Array.getElem?_eq_some_iff.1 stored
  rw [Arena.setRangesFrom, Array.getElem?_mapIdx, keeps id node stored, Option.map_some,
    if_neg (Nat.not_le_of_lt inside)]

mutual

theorem keeps_place (given : Option Range) (s : Statement) (arena : Arena) :
    arena.Keeps (place given s arena).2 := by
  match s with
  | .atom a range => exact keeps_push arena _
  | .wrapped w body range => exact (keeps_placeAll _ body arena).trans (keeps_push _ _)
  | .paired p first second range =>
    have both := (keeps_placeAll given first arena).trans (keeps_placeAll given second _)
    exact ((both.trans (keeps_push _ _)).trans (keeps_push _ _)).trans (keeps_push _ _)

theorem keeps_placeAll (given : Option Range) (statements : List Statement) (arena : Arena) :
    arena.Keeps (placeAll given statements arena).2 := by
  match statements with
  | [] => exact .refl arena
  | s :: statements => exact (keeps_place given s arena).trans (keeps_placeAll given statements _)

end

/-! ### The ranges of nodes -/

theorem range?_add (arena : Arena) (content : Content) (range : Range) :
    (arena.add content range).2.range? (arena.add content range).1 = some range := by
  simp [add, range?]

theorem Keeps.range? (keeps : arena.Keeps larger) {id : Nat} {range : Range}
    (stored : arena.range? id = some range) : larger.range? id = some range := by
  obtain ⟨node, known, same⟩ := Option.map_eq_some_iff.1 stored
  exact Option.map_eq_some_iff.2 ⟨node, keeps id node known, same⟩

/-- The node of a statement has its range. -/
theorem range?_place (s : Statement) (arena : Arena) :
    (place none s arena).2.range? (place none s arena).1 = some s.range := by
  cases s <;> exact range?_add _ _ _

theorem range?_placeAll (statements : List Statement) {arena : Arena}
    (keeps : (placeAll none statements arena).2.Keeps larger) :
    (placeAll none statements arena).1.filterMap larger.range? =
      statements.map Statement.range := by
  induction statements generalizing arena with
  | nil => rfl
  | cons s statements ih =>
    have first := ((keeps_placeAll none statements _).trans keeps).range? (range?_place s arena)
    rw [placeAll, List.filterMap_cons_some first, List.map_cons]
    exact congrArg (s.range :: ·) (ih keeps)

/-! ### Nodes that are moved -/

section

variable {first : Nat} {range : Range}

@[simp] theorem size_setRangesFrom : (arena.setRangesFrom first range).size = arena.size :=
  Array.size_mapIdx

theorem setRangesFrom_size (arena : Arena) (range : Range) :
    arena.setRangesFrom arena.size range = arena := by
  rw [setRangesFrom]
  apply Array.ext
  · exact Array.size_mapIdx
  · intro id _ inside
    rw [Array.getElem_mapIdx, if_neg (Nat.not_le_of_lt inside)]

theorem add_setRangesFrom (old : first ≤ arena.size) (content : Content) (given : Range) :
    (arena.setRangesFrom first range).add content range =
      ((arena.add content given).1, (arena.add content given).2.setRangesFrom first range) := by
  rw [add, add, size_setRangesFrom, setRangesFrom, setRangesFrom, Array.mapIdx_push, if_pos old]

mutual

/-- Nodes of a statement that are put in another range after it has been laid out are those that it
is given if it is laid out there. -/
theorem place_setRangesFrom (given : Option Range) (s : Statement) {arena : Arena}
    (old : first ≤ arena.size) : place (some range) s (arena.setRangesFrom first range) =
      ((place given s arena).1, (place given s arena).2.setRangesFrom first range) := by
  match s with
  | .atom a own => exact add_setRangesFrom old _ _
  | .wrapped w body own =>
    obtain ⟨inside, laid⟩ : ∃ inside, place given (.wrapped w body own) arena =
        (placeAll inside body arena).2.add (.group (.wrapper w) (placeAll inside body arena).1)
          (given.getD own) := ⟨_, rfl⟩
    have there : place (some range) (.wrapped w body own) (arena.setRangesFrom first range) =
        (placeAll (some range) body (arena.setRangesFrom first range)).2.add
          (.group (.wrapper w) (placeAll (some range) body (arena.setRangesFrom first range)).1)
          range := by
      cases w <;> rfl
    have later := Nat.le_trans old (keeps_placeAll inside body arena).size_le
    rw [there, laid, placeAll_setRangesFrom inside body old]
    exact add_setRangesFrom later _ _
  | .paired p left right own =>
    have afterLeft := Nat.le_trans old (keeps_placeAll given left arena).size_le
    have afterRight := Nat.le_trans afterLeft (keeps_placeAll given right _).size_le
    rw [place, place, placeAll_setRangesFrom given left old]
    dsimp only
    rw [placeAll_setRangesFrom given right afterLeft]
    have push {arena : Arena} (late : first ≤ arena.size) (content : Content) (own : Range) :
        first ≤ (arena.add content own).2.size :=
      Nat.le_trans late (keeps_push arena _).size_le
    dsimp only [Option.getD_some]
    rw [add_setRangesFrom afterRight _ (given.getD (Range.spanning (left.map Statement.range)))]
    dsimp only
    rw [add_setRangesFrom (push afterRight _ _) _
      (given.getD (Range.spanning (right.map Statement.range)))]
    exact add_setRangesFrom (push (push afterRight _ _) _ _) _ _

theorem placeAll_setRangesFrom (given : Option Range) (statements : List Statement)
    {arena : Arena} (old : first ≤ arena.size) :
    placeAll (some range) statements (arena.setRangesFrom first range) =
      ((placeAll given statements arena).1,
        (placeAll given statements arena).2.setRangesFrom first range) := by
  match statements with
  | [] => rfl
  | s :: statements =>
    have later := Nat.le_trans old (keeps_place given s arena).size_le
    rw [placeAll, placeAll, place_setRangesFrom given s old]
    dsimp only
    rw [placeAll_setRangesFrom given statements later]

end

end

end Arena

end CubeScript
