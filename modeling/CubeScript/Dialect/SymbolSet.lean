import CubeScript.Dialect.Symbol

/-!
# Sets of symbols

The meanings of a token form a set of symbols, kept as one bit for each rank. All that is needed
of a set is which symbols it holds: `SymbolSet.ext` says that nothing else tells two sets apart,
and every operation comes with the lemma that says what it holds.
-/

namespace CubeScript

/-- A set of symbols, one bit for each rank. -/
structure SymbolSet where
  bits : BitVec 41
  deriving DecidableEq, Repr

namespace SymbolSet

/-- Whether a symbol is in a set. -/
def contains (set : SymbolSet) (s : Symbol) : Bool := set.bits.getLsbD s.rank

@[ext] theorem ext {a b : SymbolSet} (h : ∀ s, a.contains s = b.contains s) : a = b := by
  have hbits : a.bits = b.bits := by
    apply BitVec.eq_of_getLsbD_eq
    intro i hi
    obtain ⟨s, rfl⟩ := Symbol.exists_rank_eq hi
    exact h s
  cases a
  cases b
  simpa using hbits

/-- The set without symbols. -/
def empty : SymbolSet := ⟨0⟩

instance : EmptyCollection SymbolSet := ⟨empty⟩

instance : Inhabited SymbolSet := ⟨empty⟩

@[simp] theorem contains_empty (s : Symbol) : empty.contains s = false := by
  simp [empty, contains]

/-- A set with a symbol put in. -/
def insert (set : SymbolSet) (s : Symbol) : SymbolSet := ⟨set.bits ||| BitVec.twoPow 41 s.rank⟩

@[simp] theorem contains_insert (set : SymbolSet) (s t : Symbol) :
    (set.insert s).contains t = (set.contains t || decide (t = s)) := by
  simp [insert, contains, t.rank_lt]

/-- A set with a symbol taken out. -/
def erase (set : SymbolSet) (s : Symbol) : SymbolSet := ⟨set.bits &&& ~~~BitVec.twoPow 41 s.rank⟩

@[simp] theorem contains_erase (set : SymbolSet) (s t : Symbol) :
    (set.erase s).contains t = (set.contains t && !decide (t = s)) := by
  simp [erase, contains, t.rank_lt]

/-- The symbols of two sets. -/
def union (a b : SymbolSet) : SymbolSet := ⟨a.bits ||| b.bits⟩

@[simp] theorem contains_union (a b : SymbolSet) (s : Symbol) :
    (a.union b).contains s = (a.contains s || b.contains s) := by
  simp [union, contains]

/-- The set of some symbols. -/
def ofList (symbols : List Symbol) : SymbolSet := symbols.foldl insert empty

theorem contains_foldl_insert (symbols : List Symbol) (set : SymbolSet) (s : Symbol) :
    (symbols.foldl insert set).contains s = (set.contains s || decide (s ∈ symbols)) := by
  induction symbols generalizing set with
  | nil => simp
  | cons t symbols ih => simp [ih, Bool.or_assoc]

@[simp] theorem contains_ofList (symbols : List Symbol) (s : Symbol) :
    (ofList symbols).contains s = decide (s ∈ symbols) := by
  simp [ofList, contains_foldl_insert]

/-- Whether a set has no symbols. -/
def isEmpty (set : SymbolSet) : Bool := set.bits = 0

/-- The symbols of a set by rank. -/
def toList (set : SymbolSet) : List Symbol := Symbol.all.filter set.contains

@[simp] theorem mem_toList {set : SymbolSet} {s : Symbol} :
    s ∈ set.toList ↔ set.contains s = true := by
  simp [toList, Symbol.mem_all]

theorem isEmpty_iff {set : SymbolSet} : set.isEmpty = true ↔ ∀ s, set.contains s = false := by
  constructor
  · intro h s
    simp only [isEmpty, decide_eq_true_eq] at h
    simp [contains, h]
  · intro h
    have : set = empty := by ext s; simp [h s]
    simp [this, isEmpty, empty]

/-- How many symbols a set has. -/
def size (set : SymbolSet) : Nat := set.toList.length

/-- Whether two sets share a symbol. -/
def intersects (a b : SymbolSet) : Bool := a.bits &&& b.bits ≠ 0

theorem intersects_iff {a b : SymbolSet} :
    a.intersects b = true ↔ ∃ s, a.contains s = true ∧ b.contains s = true := by
  have key : (⟨a.bits &&& b.bits⟩ : SymbolSet).isEmpty = !a.intersects b := by
    by_cases h : a.bits &&& b.bits = 0#41 <;> simp [isEmpty, intersects, h]
  constructor
  · intro h
    rw [h] at key
    apply Classical.byContradiction
    intro hnone
    have : (⟨a.bits &&& b.bits⟩ : SymbolSet).isEmpty = true := by
      rw [isEmpty_iff]
      intro s
      simp only [contains, BitVec.getLsbD_and]
      cases ha : a.contains s <;> cases hb : b.contains s <;>
        simp_all [contains]
    simp_all
  · rintro ⟨s, ha, hb⟩
    cases h : a.intersects b
    · rw [h, Bool.not_false, isEmpty_iff] at key
      have := key s
      simp_all [contains]
    · rfl

@[simp] theorem intersects_empty (a : SymbolSet) : a.intersects .empty = false := by
  simp [intersects, empty]

/-- The faces among the symbols of a set. -/
def faces (set : SymbolSet) : List Face := set.toList.filterMap Symbol.face?

/-- The sign a set stands for. The sign of two characters wins over the plain one. -/
def sign? (set : SymbolSet) : Option Cycle.Sign :=
  if set.contains .permutationPlusPlus then some .plusPlus
  else if set.contains .permutationPlus then some .plus
  else if set.contains .permutationMinus then some .minus
  else none

end SymbolSet

end CubeScript
