import CubeScript.Proofs.Cube.Cycling

/-!
# Consistent cubes

On a valid cube the piece that is found in a place is the one that sits there, and every place has
one: looking up is the exact inverse of the list of places. So a cube is solved in the sense of the
check exactly if it is the solved cube, and `Cube.assign` takes the lists that describe a valid cube
and no others.
-/

namespace CubeScript

namespace Cube

/-- Whether the lists of a cube agree with each other: the places of a kind are rearranged among the
pieces, looking up a place finds the piece that sits there, and every twist is one the kind has. -/
structure Consistent (cube : Cube) : Prop where
  rearranged : ∀ kind, (cube.places kind).Perm (List.range (cube.size.count kind))
  found : ∀ kind place piece,
    cube.pieceAt? kind place = some piece ↔ (cube.places kind)[piece]? = some place
  twisted : ∀ kind, (cube.twists kind).length = cube.size.count kind ∧
    ∀ twist ∈ cube.twists kind, twist < kind.twists

theorem getElem?_places_eq_some_iff {cube : Cube} {kind : PieceKind} {piece place : Nat} :
    (cube.places kind)[piece]? = some place ↔
      ∃ h : piece < (cube.seats kind).length, (cube.seats kind)[piece].place = place := by
  rw [places, List.getElem?_map, Option.map_eq_some_iff]
  constructor
  · rintro ⟨seat, stored, rfl⟩
    obtain ⟨inside, rfl⟩ := List.getElem?_eq_some_iff.1 stored
    exact ⟨inside, rfl⟩
  · rintro ⟨inside, rfl⟩
    exact ⟨_, List.getElem?_eq_getElem inside, rfl⟩

/-- Looking up is the inverse of the list of places. -/
theorem pieceAt?_eq_some_iff_of_legal {cube : Cube} {kind : PieceKind} (legal : Seat.Legal
    (cube.size.count kind) kind.twists (cube.seats kind)) {place piece : Nat} :
    cube.pieceAt? kind place = some piece ↔ (cube.places kind)[piece]? = some place := by
  rw [getElem?_places_eq_some_iff]
  constructor
  · exact Cycle.place_of_pieceAt?
  · rintro ⟨inside, rfl⟩
    have taken := (legal.inRange (List.getElem_mem inside)).1
    obtain ⟨other, found⟩ := Option.isSome_iff_exists.1 (Cycle.pieceAt?_isSome legal taken)
    obtain ⟨present, same⟩ := Cycle.place_of_pieceAt? found
    rw [found, legal.index_eq present inside same]

theorem pieceAt?_eq_some_iff {cube : Cube} (valid : cube.Valid) {kind : PieceKind}
    {place piece : Nat} :
    cube.pieceAt? kind place = some piece ↔ (cube.places kind)[piece]? = some place :=
  pieceAt?_eq_some_iff_of_legal (valid kind)

/-- The lists of a valid cube agree. -/
theorem Valid.consistent {cube : Cube} (valid : cube.Valid) : cube.Consistent where
  rearranged kind := (valid kind).1
  found _ _ _ := pieceAt?_eq_some_iff valid
  twisted kind := by
    refine ⟨?_, ?_⟩
    · rw [twists, List.length_map]
      exact (Seat.legal_iff.1 (valid kind)).1
    · rw [twists, List.forall_mem_map]
      exact (valid kind).2

theorem isSolved_iff {cube : Cube} (valid : cube.Valid) :
    cube.IsSolved ↔ cube = solved cube.size := by
  have count (kind : PieceKind) : (cube.seats kind).length = cube.size.count kind :=
    (Seat.legal_iff.1 (valid kind)).1
  have corners : cube.corners.length = cube.size.count .corner := count .corner
  have edges : cube.edges.length = cube.size.count .edge := count .edge
  have sides : cube.sides.length = cube.size.count .side := count .side
  rw [IsSolved, corners, edges, sides]
  constructor
  · rintro ⟨home, homeToo, homeAsWell⟩
    obtain ⟨size, _, _, _⟩ := cube
    simp only at home homeToo homeAsWell
    rw [home, homeToo, homeAsWell, solved]
  · intro same
    exact ⟨congrArg Cube.corners same, congrArg Cube.edges same, congrArg Cube.sides same⟩

/-! ### Assigning seats -/

theorem map_place_zipWith {places twists : List Nat} (length : places.length = twists.length) :
    (List.zipWith Seat.mk places twists).map Seat.place = places := by
  rw [List.map_zipWith]
  exact (List.map_zip_eq_zipWith ..).symm.trans (List.map_fst_zip length.le)

theorem map_twist_zipWith {places twists : List Nat} (length : places.length = twists.length) :
    (List.zipWith Seat.mk places twists).map Seat.twist = twists := by
  rw [List.map_zipWith]
  exact (List.map_zip_eq_zipWith ..).symm.trans (List.map_snd_zip length.ge)

/-- The seats that come of lists that are let in. -/
theorem legal_zipWith {count bound : Nat} {places twists : List Nat}
    (rearranged : IsPermutation count places) (length : twists.length = count)
    (range : ∀ twist ∈ twists, twist < bound) :
    Seat.Legal count bound (List.zipWith Seat.mk places twists) := by
  have same : places.length = twists.length := rearranged.1.trans length.symm
  constructor
  · rw [map_place_zipWith same]
    exact perm_range_iff.2 rearranged
  · intro seat member
    have twisted := List.mem_map_of_mem (f := Seat.twist) member
    rw [map_twist_zipWith same] at twisted
    exact range _ twisted

theorem valid_assign {cube after : Cube} (valid : cube.Valid) {kind : PieceKind}
    {places twists : List Nat} (assigned : cube.assign kind places twists = .ok after) :
    after.Valid ∧ after.size = cube.size := by
  obtain ⟨⟨rearranged, length, range⟩, rfl⟩ := assign_eq_ok_iff.1 assigned
  exact ⟨valid_withSeats valid (legal_zipWith rearranged length range), size_withSeats ..⟩

end Cube

end CubeScript
