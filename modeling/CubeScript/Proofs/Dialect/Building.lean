import CubeScript.Dialect.Config
import CubeScript.Proofs.Dialect.Standard
import CubeScript.Proofs.Reading.Outcomes
import Mathlib.Logic.Relation

/-!
# Lexicons that have been built

A lexicon starts as the standard one or as what a configuration describes, and is changed from
there by one call after another (`Lexicon.Built`). A configuration makes no other changes than the
calls do (`Lexicon.edits_ofConfig`), so what a single change keeps holds of all that can be built.

Here this is what the turns of a lexicon are of: layers that its cubes have. The standard turns are,
a turn that is added is checked for it, and a call that does not add a turn adds none by accident.

A turn of no layer is not checked for. `Turn.make` refuses to make one, but a turn that has been made
for larger cubes can be reflected to one (`Turn.available`), and this one is added to any lexicon. So
the turns that may be added are a parameter of what is said here: those that can be had, or only
those of one or more layers (`Turn.Filled`).
-/

namespace CubeScript

namespace Turn

/-- Whether a turn is of one or more layers. -/
def Filled (t : Turn) : Prop := t.layers ≠ 0

instance (t : Turn) : Decidable t.Filled := inferInstanceAs (Decidable (t.layers ≠ 0))

/-- Whether a turn can be had: it can be made, or it is another one that can be had, undone or
reflected on cubes of any number of layers. -/
inductive Available : Turn → Prop where
  | made {axis : Nat} {layers : LayerMask} {quarters : Int} {t : Turn}
      (made : make axis layers quarters = .ok t) : Available t
  | inverse {t : Turn} (available : Available t) : Available t.inverse
  | reflected {t : Turn} (available : Available t) (n : Nat) : Available (t.reflected n)

theorem filled_of_make {axis : Nat} {layers : LayerMask} {quarters : Int} {t : Turn}
    (made : make axis layers quarters = .ok t) : t.Filled := by
  rw [make] at made
  split at made
  · cases made
  · split at made
    · cases made
    · rename_i filled
      split at made
      · cases made
      · cases made
        exact filled

theorem Filled.available {t : Turn} (filled : t.Filled) : t.Available := by
  have made : make t.axis.index t.layers t.angle.toInt = .ok t := by
    rw [make, Axis.ofIndex?_index, Angle.ofInt?_toInt]
    exact if_neg filled
  exact .made made

/-- Every turn can be had. One of no layer is a turn of the fourth layer, reflected on a cube of
three. -/
theorem available (t : Turn) : t.Available := by
  by_cases filled : t.Filled
  · exact filled.available
  · have fourth : Filled ⟨t.axis, 8, t.angle⟩ := show (8 : LayerMask) ≠ 0 by decide
    have gone : (⟨t.axis, 8, t.angle⟩ : Turn).reflected 3 = t := by
      obtain ⟨axis, layers, angle⟩ := t
      obtain rfl : layers = 0 := not_not.1 filled
      have reversed : (8 : LayerMask).reverse >>> (32 - min (max 3 1) 32) = 0 := by decide +kernel
      rw [reflected, reversed]
    rw [← gone]
    exact fourth.available.reflected 3

end Turn

namespace Lexicon

/-- Whether a lexicon is made of another one by one call, in which no other turns are added than
those admitted. -/
inductive Edits (admits : Turn → Prop) : Lexicon → Lexicon → Prop where
  | addMeaning (l : Lexicon) (token : String) (s : Symbol) : Edits admits l (l.addMeaning token s)
  | addTurn {l larger : Lexicon} {token : String} {t : Turn} (admitted : admits t)
      (added : l.addTurn? token t = .ok larger) : Edits admits l larger
  | setPlacements (l : Lexicon) (s : Symbol) (ps : List Placement) :
      Edits admits l (l.setPlacements s ps)
  | addShorthand (l : Lexicon) (token text : String) : Edits admits l (l.addShorthand token text)
  | eraseToken (l : Lexicon) (token : String) : Edits admits l (l.eraseToken token)
  | eraseMeaning (l : Lexicon) (s : Symbol) : Edits admits l (l.eraseMeaning s)
  | setBlanks (l : Lexicon) (blanks : List Char) : Edits admits l (l.setBlanks blanks)
  | setLineComment (l : Lexicon) (start : Option String) : Edits admits l (l.setLineComment start)
  | setBlockComment (l : Lexicon) (delimiters : Option (String × String)) :
      Edits admits l (l.setBlockComment delimiters)

/-- Whether a lexicon can be built: from the standard one or from a configuration, by calls in which
no other turns are added than those admitted. -/
inductive Built (admits : Turn → Prop) : Lexicon → Prop where
  | standard (size : Size) : Built admits (standard size)
  | configured {config : Config} {l : Lexicon} (described : ofConfig config = .ok l) :
      Built admits l
  | edited {l larger : Lexicon} (built : Built admits l) (edit : Edits admits l larger) :
      Built admits larger

variable {admits : Turn → Prop}

/-! ### What configurations do -/

/-- Whether a lexicon is made of another one by some calls. -/
abbrev EditsMany (admits : Turn → Prop) : Lexicon → Lexicon → Prop :=
  Relation.ReflTransGen (Edits admits)

section

variable {α ε : Type} {l larger : Lexicon}

theorem edits_foldl {step : Lexicon → α → Lexicon} (each : ∀ l a, Edits admits l (step l a))
    (items : List α) (l : Lexicon) : EditsMany admits l (items.foldl step l) := by
  induction items generalizing l with
  | nil => exact .refl
  | cons a items ih => exact (Relation.ReflTransGen.single (each l a)).trans (ih (step l a))

/-- What may be left out is one call if it is there, and none if it is not. -/
theorem edits_option {change : Option α → Lexicon} (without : EditsMany admits l (change none))
    (each : ∀ a, Edits admits (change none) (change (some a))) :
    ∀ choice, EditsMany admits l (change choice)
  | none => without
  | some a => without.tail (each a)

theorem edits_foldlM {step : Lexicon → α → Except ε Lexicon}
    (each : ∀ l a larger, step l a = .ok larger → EditsMany admits l larger) {items : List α}
    (done : items.foldlM step l = .ok larger) : EditsMany admits l larger := by
  induction items generalizing l with
  | nil =>
    cases done
    exact .refl
  | cons a items ih =>
    rw [List.foldlM_cons] at done
    obtain ⟨next, first, rest⟩ := Except.bind_eq_ok_iff.1 done
    exact (each l a next first).trans (ih rest)

theorem edits_addNamed? {token : String} {names : List String}
    (done : l.addNamed? token names = .ok larger) : EditsMany admits l larger := by
  refine edits_foldlM (fun l name larger step => ?_) done
  split at step
  · cases step
    exact .single (.addMeaning l token _)
  · cases step

theorem edits_makeTurn? (filled : ∀ t : Turn, t.Filled → admits t) {token : String} {axis : Nat}
    {layers : LayerMask} {quarters : Int}
    (done : l.makeTurn? token axis layers quarters = .ok larger) : EditsMany admits l larger := by
  rw [makeTurn?] at done
  split at done
  · cases done
  · rename_i made
    have admitted := filled _ (Turn.filled_of_make made)
    exact .single (.addTurn admitted (Except.mapError_eq_ok_iff.1 done))

theorem edits_setNamed? {construct : String} {names : List String}
    (done : l.setNamed? construct names = .ok larger) : EditsMany admits l larger := by
  rw [setNamed?] at done
  split at done
  · cases done
  · obtain ⟨ps, _, same⟩ := Except.bind_eq_ok_iff.1 done
    cases same
    exact .single (.setPlacements l _ ps)

end

/-- What a configuration describes is made of the standard lexicon by calls, in which only turns of
one or more layers are added. -/
theorem edits_ofConfig (filled : ∀ t : Turn, t.Filled → admits t) {config : Config} {l : Lexicon}
    (described : ofConfig config = .ok l) : ∃ size, EditsMany admits (standard size) l := by
  rw [ofConfig] at described
  obtain ⟨size, _, rest⟩ := Except.bind_eq_ok_iff.1 described
  obtain ⟨named, tokens, rest⟩ := Except.bind_eq_ok_iff.1 rest
  obtain ⟨turned, turns, rest⟩ := Except.bind_eq_ok_iff.1 rest
  obtain ⟨placed, placements, rest⟩ := Except.bind_eq_ok_iff.1 rest
  have toNamed : EditsMany admits (standard size) named :=
    (edits_foldl (fun l token => .eraseToken l token) _ _).trans
      (edits_foldlM (fun _ _ _ => edits_addNamed?) tokens)
  have toTurned : EditsMany admits named turned :=
    edits_foldlM (fun _ _ _ step => edits_makeTurn? filled (Except.mapError_eq_ok_iff.1 step)) turns
  have toPlaced : EditsMany admits turned placed :=
    edits_foldlM (fun _ _ _ => edits_setNamed?) placements
  have toShortened : EditsMany admits placed (config.shorthands.entries.foldl
      (fun l entry => l.addShorthand entry.1 entry.2) placed) :=
    edits_foldl (fun l entry => .addShorthand l entry.1 entry.2) config.shorthands.entries placed
  have toFilled := ((toNamed.trans toTurned).trans toPlaced).trans toShortened
  cases rest
  refine ⟨size, ?_⟩
  -- The entries that may be left out come last. They are taken away from the end.
  generalize config.blanks = blanks, config.lineComment = lineComment,
    config.blockComment = blockComment
  revert blockComment
  refine edits_option ?_ fun _ => .setBlockComment _ _
  revert lineComment
  refine edits_option ?_ fun _ => .setLineComment _ _
  revert blanks
  exact edits_option toFilled fun _ => .setBlanks _ _

/-! ### The turns of a lexicon -/

/-- Whether the turns of a lexicon are of layers that its cubes have, and all of them admitted. -/
def TurnsFit (admits : Turn → Prop) (l : Lexicon) : Prop :=
  ∀ word t, l.turns.get? word = some t → admits t ∧ t.layers.Within l.size.layers

theorem turns_addMeaning (l : Lexicon) (token : String) (s : Symbol) :
    (l.addMeaning token s).turns = l.turns := by
  unfold addMeaning
  split <;> rfl

theorem size_addMeaning (l : Lexicon) (token : String) (s : Symbol) :
    (l.addMeaning token s).size = l.size := by
  unfold addMeaning
  split <;> rfl

theorem means_addMeaning {l : Lexicon} {w : String} {s : Symbol} (filled : w ≠ "")
    (token : String) (m : Symbol) :
    (l.addMeaning token m).Means w s ↔ l.Means w s ∨ token = w ∧ s = m := by
  by_cases empty : token = ""
  · rw [addMeaning, if_pos empty, empty]
    exact (or_iff_left fun given => filled given.1.symm).symm
  · rw [(adds_addMeaning l empty m).means, List.mem_singleton, Prod.mk.injEq, eq_comm (a := w)]

theorem size_standard (size : Size) : (standard size).size = size :=
  (adds_standard size).size.trans (show (blank size).size = size from rfl)

/-- A call leaves the size as it is. A turn that there is after it has been there before or has just
been added. -/
theorem Edits.turned {l larger : Lexicon} (edit : Edits admits l larger) :
    larger.size = l.size ∧ ∀ word t, larger.turns.get? word = some t →
      l.turns.get? word = some t ∨ admits t ∧ t.layers.Within l.size.layers := by
  cases edit with
  | addMeaning token s =>
    rw [turns_addMeaning, size_addMeaning]
    exact ⟨rfl, fun _ _ => .inl⟩
  | addTurn admitted added =>
    rw [addTurn?] at added
    split at added
    · rename_i within
      cases added
      refine ⟨size_addMeaning .., fun word u known => ?_⟩
      rw [Lexicon.addTurn, Table.get?_set] at known
      split at known
      · cases known
        exact .inr ⟨admitted, within⟩
      · exact .inl known
    · cases added
  | addShorthand token text =>
    rw [Lexicon.addShorthand, turns_addMeaning, size_addMeaning]
    exact ⟨rfl, fun _ _ => .inl⟩
  | eraseToken token =>
    refine ⟨rfl, fun word u known => ?_⟩
    rw [Lexicon.eraseToken, Table.get?_erase] at known
    split at known
    · cases known
    · exact .inl known
  | eraseMeaning s =>
    refine ⟨rfl, fun word u known => ?_⟩
    rw [Lexicon.eraseMeaning] at known
    dsimp only at known
    split at known
    · cases known
    · exact .inl known
  | setPlacements | setBlanks | setLineComment | setBlockComment => exact ⟨rfl, fun _ _ => .inl⟩

theorem TurnsFit.edited {l larger : Lexicon} (fits : l.TurnsFit admits)
    (edit : Edits admits l larger) : larger.TurnsFit admits := by
  obtain ⟨size, turned⟩ := edit.turned
  intro word t known
  rw [size]
  obtain before | added := turned word t known
  · exact fits word t before
  · exact added

theorem TurnsFit.editedMany {l larger : Lexicon} (fits : l.TurnsFit admits)
    (edits : EditsMany admits l larger) : larger.TurnsFit admits := by
  induction edits with
  | refl => exact fits
  | tail _ edit ih => exact ih.edited edit

section

variable (filled : ∀ t : Turn, t.Filled → admits t)

include filled

theorem turnsFit_standard (size : Size) : (standard size).TurnsFit admits := by
  intro word t known
  rw [(adds_standard size).size]
  obtain ⟨some, within⟩ := layers_of_standardTurn? known
  exact ⟨filled t some, within⟩

/-- Whatever calls a lexicon has been built by, its turns are of layers that its cubes have, and no
others than those admitted. -/
theorem Built.turnsFit {l : Lexicon} (built : l.Built admits) : l.TurnsFit admits := by
  induction built with
  | standard size => exact turnsFit_standard filled size
  | configured described =>
    obtain ⟨size, edits⟩ := edits_ofConfig filled described
    exact (turnsFit_standard filled size).editedMany edits
  | edited _ edit ih => exact ih.edited edit

end

end Lexicon

end CubeScript
