/-!
# Ranges of a text

A range is a half open stretch of a text, counted in the bytes of its encoding as UTF-8. The counts
have no bound here. With offsets of 32 bits they are the same in all texts whose length fits, but
not in longer ones (`NarrowTokenizer`).
-/

namespace CubeScript

/-- The bytes of a text from `start` up to but not including `stop`. -/
structure Range where
  start : Nat
  stop : Nat
  deriving DecidableEq, Repr, Inhabited

namespace Range

/-- The empty range at the beginning of a text. -/
def zero : Range := ⟨0, 0⟩

/-- The smallest range that holds two ranges. -/
def cover (r s : Range) : Range := ⟨min r.start s.start, max r.stop s.stop⟩

/-- Whether a range lies inside another one. -/
def Within (r s : Range) : Prop := s.start ≤ r.start ∧ r.stop ≤ s.stop

instance (r s : Range) : Decidable (r.Within s) := inferInstanceAs (Decidable (_ ∧ _))

theorem within_cover_left (r s : Range) : r.Within (r.cover s) :=
  ⟨Nat.min_le_left .., Nat.le_max_left ..⟩

theorem within_cover_right (r s : Range) : s.Within (r.cover s) :=
  ⟨Nat.min_le_right .., Nat.le_max_right ..⟩

/-- The range from the start of the first to the end of the last of some ranges, which is
empty and at the beginning if there are none. -/
def spanning : List Range → Range
  | [] => zero
  | r :: rs => r.cover ((r :: rs).getLast (by simp))

end Range

end CubeScript
