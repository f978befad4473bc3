/-!
# Tables that keep their order

A table assigns values to keys and lists its keys in the order in which they came. A key that
is assigned again keeps its place, so no key is ever listed twice, and the table says so in
`Table.nodup`. `Table.get?` is the view of a table that the lemmas below describe each operation
by.
-/

namespace CubeScript

/-- Values by key, in the order in which the keys came. -/
structure Table (κ : Type) (α : Type) where
  entries : List (κ × α)
  nodup : (entries.map Prod.fst).Nodup

namespace Table

variable {κ α : Type} [DecidableEq κ]

/-! ### Entries -/

/-- The value of a key in some entries. -/
def lookup (k : κ) : List (κ × α) → Option α
  | [] => none
  | (l, a) :: rest => if l = k then some a else lookup k rest

/-- Assign a key in some entries a value that depends on the one it had. -/
def assign (k : κ) (f : Option α → α) : List (κ × α) → List (κ × α)
  | [] => [(k, f none)]
  | (l, a) :: rest => if l = k then (l, f (some a)) :: rest else (l, a) :: assign k f rest

theorem keys_assign (k : κ) (f : Option α → α) (entries : List (κ × α)) :
    (assign k f entries).map Prod.fst =
      if k ∈ entries.map Prod.fst then entries.map Prod.fst
      else entries.map Prod.fst ++ [k] := by
  induction entries with
  | nil => simp [assign]
  | cons entry rest ih =>
    obtain ⟨l, a⟩ := entry
    by_cases h : l = k
    · simp [assign, h]
    · by_cases hk : k ∈ rest.map Prod.fst <;>
        simp_all [assign, Ne.symm h]

theorem nodup_keys_assign (k : κ) (f : Option α → α) {entries : List (κ × α)}
    (h : (entries.map Prod.fst).Nodup) : ((assign k f entries).map Prod.fst).Nodup := by
  rw [keys_assign]
  split
  · exact h
  · rename_i hk
    refine List.nodup_append.2 ⟨h, by simp, fun l hl m hm => ?_⟩
    rintro rfl
    simp_all

omit [DecidableEq κ] in
theorem keys_filterMap_sublist {β : Type} (f : α → Option β) (entries : List (κ × α)) :
    ((entries.filterMap fun (k, a) => (f a).map (k, ·)).map Prod.fst).Sublist
      (entries.map Prod.fst) := by
  induction entries with
  | nil => simp
  | cons entry rest ih =>
    obtain ⟨k, a⟩ := entry
    cases h : f a with
    | none => simpa [h] using ih.cons k
    | some b => simpa [h] using ih.cons_cons k

/-! ### Operations -/

/-- The table without entries. -/
def empty : Table κ α := ⟨[], by simp⟩

instance : Inhabited (Table κ α) := ⟨empty⟩

/-- The keys in order. -/
def keys (t : Table κ α) : List κ := t.entries.map Prod.fst

/-- The values in the order of their keys. -/
def values (t : Table κ α) : List α := t.entries.map Prod.snd

/-- The value of a key. -/
def get? (t : Table κ α) (k : κ) : Option α := lookup k t.entries

/-- Assign a key a value that depends on the one it had. -/
def update (t : Table κ α) (k : κ) (f : Option α → α) : Table κ α :=
  ⟨assign k f t.entries, nodup_keys_assign k f t.nodup⟩

/-- Assign a key a value. -/
def set (t : Table κ α) (k : κ) (a : α) : Table κ α := t.update k fun _ => a

/-- Drop a key. -/
def erase (t : Table κ α) (k : κ) : Table κ α :=
  ⟨t.entries.filter (·.1 ≠ k), t.nodup.sublist (List.filter_sublist.map _)⟩

/-- Change every value, and drop the keys whose values become `none`. -/
def filterMap {β : Type} (t : Table κ α) (f : α → Option β) : Table κ β :=
  ⟨t.entries.filterMap fun (k, a) => (f a).map (k, ·),
    t.nodup.sublist (keys_filterMap_sublist f t.entries)⟩

/-- The table that assigns some keys one after the other. -/
def ofList (entries : List (κ × α)) : Table κ α :=
  entries.foldl (fun t (k, a) => t.set k a) empty

/-! ### What the operations do to the view -/

theorem lookup_assign (k l : κ) (f : Option α → α) (entries : List (κ × α)) :
    lookup l (assign k f entries) =
      if l = k then some (f (lookup k entries)) else lookup l entries := by
  induction entries with
  | nil => simp [assign, lookup, eq_comm]
  | cons entry rest ih =>
    obtain ⟨m, a⟩ := entry
    by_cases hm : m = k
    · subst hm
      by_cases h : l = m
      · simp [assign, lookup, h]
      · simp [assign, lookup, h, Ne.symm h]
    · by_cases h : l = m
      · subst h
        simp [assign, lookup, hm]
      · simp [assign, lookup, hm, Ne.symm h, ih]

theorem lookup_eq_none_iff {k : κ} {entries : List (κ × α)} :
    lookup k entries = none ↔ k ∉ entries.map Prod.fst := by
  induction entries with
  | nil => simp [lookup]
  | cons entry rest ih =>
    obtain ⟨l, a⟩ := entry
    by_cases h : l = k
    · simp [lookup, h]
    · simp_all [lookup, Ne.symm h]

theorem lookup_eq_some_iff {k : κ} {a : α} {entries : List (κ × α)}
    (nodup : (entries.map Prod.fst).Nodup) :
    lookup k entries = some a ↔ (k, a) ∈ entries := by
  induction entries with
  | nil => simp [lookup]
  | cons entry rest ih =>
    obtain ⟨l, b⟩ := entry
    obtain ⟨hl, hrest⟩ := List.nodup_cons.1 nodup
    by_cases h : l = k
    · subst h
      have : (l, a) ∉ rest := fun hmem => hl (List.mem_map.2 ⟨_, hmem, rfl⟩)
      simp [lookup, this, eq_comm]
    · simp [lookup, h, Ne.symm h, ih hrest]

@[simp] theorem get?_empty (k : κ) : (empty : Table κ α).get? k = none := rfl

@[simp] theorem get?_update (t : Table κ α) (k l : κ) (f : Option α → α) :
    (t.update k f).get? l = if l = k then some (f (t.get? k)) else t.get? l :=
  lookup_assign k l f t.entries

@[simp] theorem get?_set (t : Table κ α) (k l : κ) (a : α) :
    (t.set k a).get? l = if l = k then some a else t.get? l := by
  simp [set]

theorem get?_eq_none_iff {t : Table κ α} {k : κ} : t.get? k = none ↔ k ∉ t.keys :=
  lookup_eq_none_iff

theorem get?_eq_some_iff {t : Table κ α} {k : κ} {a : α} :
    t.get? k = some a ↔ (k, a) ∈ t.entries :=
  lookup_eq_some_iff t.nodup

@[simp] theorem get?_erase (t : Table κ α) (k l : κ) :
    (t.erase k).get? l = if l = k then none else t.get? l := by
  apply Option.ext
  intro a
  rw [get?_eq_some_iff]
  by_cases h : l = k
  · simp [erase, h]
  · simp [erase, h, get?_eq_some_iff]

@[simp] theorem get?_filterMap {β : Type} (t : Table κ α) (f : α → Option β) (k : κ) :
    (t.filterMap f).get? k = (t.get? k).bind f := by
  apply Option.ext
  intro b
  simp only [get?_eq_some_iff, filterMap, List.mem_filterMap, Option.bind_eq_some_iff]
  constructor
  · rintro ⟨⟨l, a⟩, hmem, h⟩
    obtain ⟨c, hc, h⟩ := Option.map_eq_some_iff.1 h
    simp only [Prod.mk.injEq] at h
    obtain ⟨rfl, rfl⟩ := h
    exact ⟨a, hmem, hc⟩
  · rintro ⟨a, hmem, h⟩
    exact ⟨(k, a), hmem, by simp [h]⟩

end Table

end CubeScript
