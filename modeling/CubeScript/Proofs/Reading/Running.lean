import CubeScript.Proofs.Cube.Locating
import CubeScript.Proofs.Dialect.Coherence
import CubeScript.Proofs.Reading.Making
import CubeScript.Proofs.Script.Fitting

/-!
# Scripts that have been read can be run

Nothing is looked up on a cube while a script is read, and nothing is checked when a script is made.
That it can be run all the same is due to three things. A lexicon has only turns of layers that its
cubes have (`Lexicon.Built.turnsFit`), a cycle can only be read through places that can be named,
and a statement is made of nothing else (`Reader.composed_readStatements`).

There is one gap. A turn of no layer can be added to a lexicon, and a token for it can be read. A
script with such a turn stops there, and there is no other way for it to stop
(`Reader.run_of_read_iff`).
-/

namespace CubeScript

/-! ### Operations but for turns of no layer -/

namespace Op

/-- Whether an operation is for cubes of some size, but for turns of no layer: a turn selects none
but their layers, and the items of a cycle are places and faces that they have. -/
def Inside (size : Size) : Op → Prop
  | .turn t => t.layers.Within size.layers
  | .cycle c => (∀ item ∈ c.items, item.place < size.count c.kind) ∧ c.Oriented

variable {size : Size} {op : Op}

theorem Inside.oriented (inside : op.Inside size) : op.Oriented := by
  cases op with
  | turn t => trivial
  | cycle c => exact inside.2

theorem Inside.fits_iff (inside : op.Inside size) :
    op.Fits size ↔ ∀ t, op = .turn t → t.Filled := by
  cases op with
  | turn t =>
    rw [fits_turn_iff, and_iff_left (show t.layers.Within size.layers from inside)]
    exact ⟨fun filled u same => Op.turn.inj same ▸ filled, fun all => all t rfl⟩
  | cycle c => exact iff_of_true inside.1 nofun

theorem Inside.inverse (inside : op.Inside size) : op.inverse.Inside size := by
  cases op with
  | turn t => exact inside
  | cycle c => exact ⟨fun item member => inside.1 item (List.mem_reverse.1 member),
      inside.2.inverse⟩

/-- A reflected turn selects none but the layers of the cube, whatever the turn selects. -/
theorem Inside.reflected (inside : op.Inside size) : (op.reflected size.layers).Inside size := by
  cases op with
  | turn t =>
    refine LayerMask.within_iff.2 fun i set => ?_
    rw [Turn.getLsbD_reflected size.layers_pos size.layers_le_width, Bool.and_eq_true,
      decide_eq_true_iff] at set
    exact set.1
  | cycle c => exact inside

/-- If an operation inside the cube cannot be done, it is a turn of no layer. -/
theorem Inside.eq_of_apply_eq_error {cube : Cube} {fault : Cube.Fault}
    (inside : op.Inside cube.size) (valid : cube.Valid) (refused : op.apply cube = .error fault) :
    fault = .maskOutOfRange 0 cube.size.layers := by
  cases op with
  | turn t =>
    have empty : t.layers = 0 := by
      by_contra filled
      obtain ⟨after, done⟩ := exists_apply_turn_iff.2 (fits_turn_iff.2 ⟨filled, inside⟩)
      cases done.symm.trans refused
    have unfit : ¬ (turn t).Fits cube.size := fun fits => (fits_turn_iff.1 fits).1 empty
    rw [apply_turn_of_not_fits unfit, empty] at refused
    exact (Except.error.inj refused).symm
  | cycle c =>
    obtain ⟨after, done⟩ := exists_apply_of_fits valid inside.oriented inside.1
    cases done.symm.trans refused

end Op

namespace Script

variable {script : Script} {inverse : Bool} {cube : Cube}

/-- The operations of all nodes of a script are inside the cube if its atoms are. -/
theorem inside_of_mem_resolveNode (ordered : script.Ordered) {size : Size}
    (layers : script.layers = size.layers) (atoms : ∀ node ∈ script.nodes, ∀ a,
      node.content = .atom a → ∀ op ∈ a.meaning size.layers false false, op.Inside size)
    (id : Nat) (inverse : Bool) :
    ∀ op ∈ (script.resolveNode id inverse).toList, op.Inside size := by
  rw [toList_resolveNode ordered]
  refine all_meaning ordered (fun node stored a content => ?_) id inverse false
  rw [layers]
  exact Atom.all_meaning (fun _ inside => inside.inverse) (fun _ inside => inside.reflected)
    (atoms node stored a content)

/-- A script whose operations are inside the cube runs to its end exactly if none of its turns is of
no layer. -/
theorem run_iff_of_inside (valid : cube.Valid) (layers : cube.size.layers = script.layers)
    (inside : ∀ op ∈ (script.resolve inverse).toList, op.Inside cube.size) :
    (∃ after, script.run inverse cube = (after, none)) ↔
      ∀ t, .turn t ∈ (script.resolve inverse).toList → t.Filled := by
  constructor
  · rintro ⟨after, done⟩ t member
    rw [run, if_neg (not_not_intro layers), Resolver.run_eq_applyAll] at done
    have fits := Cube.fits_of_applyAll valid done _ member
    exact (inside _ member).fits_iff.1 fits t rfl
  · intro filled
    refine run_of_fits valid layers (fun op member => (inside op member).oriented) ?_
    exact fun op member => (inside op member).fits_iff.2 fun t same => filled t (same ▸ member)

theorem eq_of_run_of_inside (valid : cube.Valid) (layers : cube.size.layers = script.layers)
    (inside : ∀ op ∈ (script.resolve inverse).toList, op.Inside cube.size) {last : Cube}
    {fault : Cube.Fault} (stopped : script.run inverse cube = (last, some fault)) :
    fault = .maskOutOfRange 0 cube.size.layers := by
  rw [run, if_neg (not_not_intro layers), Resolver.run_eq_applyAll] at stopped
  obtain ⟨done, op, rest, same, before, refused⟩ := Cube.exists_of_applyAll stopped
  have kept := Cube.valid_applyAll valid done
  rw [before] at kept
  have member : op ∈ (script.resolve inverse).toList := by simp [same]
  rw [← kept.2]
  exact (kept.2 ▸ inside op member).eq_of_apply_eq_error kept.1 refused

end Script

/-! ### What is read -/

/-- An item that is made of faces is a place of the cube, and names one of its faces. -/
theorem Cycle.Item.inside_of_ofFaces {size : Size} {faces : List Face} {number : Option Nat}
    {item : Item} (named : ofFaces size faces number = .ok item) :
    item.place < size.count item.kind ∧ item.orientation.toNat < item.kind.twists := by
  rw [ofFaces] at named
  split at named
  · cases named
  · rename_i kind place offset located
    cases named
    refine ⟨Place.lt_of_locate located, ?_⟩
    obtain ⟨inside, counted, _⟩ := Place.locate_eq_ok_iff.1 located
    rw [counted] at inside
    rw [UInt8.toNat_ofNat']
    have few : kind.faceCount ≤ kind.twists := by cases kind <;> decide
    exact Nat.lt_of_le_of_lt (Nat.mod_le _ _) (Nat.lt_of_lt_of_le inside few)

namespace Dialect.Offers

variable {l : Lexicon} {a : Atom}

/-- The atoms of a lexicon are inside its cubes if its turns are. -/
theorem inside {admits : Turn → Prop} (turns : l.TurnsFit admits) (offered : l.dialect.Offers a) :
    ∀ op ∈ a.meaning l.size.layers false false, op.Inside l.size := by
  intro op member
  cases offered with
  | nop => cases member
  | turn _ meant =>
    obtain rfl := List.mem_singleton.1 member
    exact (turns _ _ meant).2
  | @cycle size c cube named =>
    obtain rfl := List.mem_singleton.1 member
    have same : Size.ofNat? l.size.layers = .ok size := cube
    rw [Size.ofNat?_layers] at same
    cases same
    have each : ∀ item ∈ c.items,
        item.place < l.size.count c.kind ∧ item.orientation.toNat < c.kind.twists := by
      intro item member
      obtain ⟨faces, number, made⟩ := named item member
      rw [← c.kind_eq item member]
      exact Cycle.Item.inside_of_ofFaces made
    exact ⟨fun item member => (each item member).1, fun item member => (each item member).2⟩

/-- The atoms of a lexicon are for its cubes if no token of it has a turn of no layer. -/
theorem fits {admits : Turn → Prop} (turns : l.TurnsFit admits) (coherent : l.Coherent)
    (filled : ∀ w t, w ≠ "" → l.dialect.turn? w = some t → t.Filled)
    (offered : l.dialect.Offers a) : a.Fits l.size := by
  have inside := offered.inside turns
  cases offered with
  | nop => trivial
  | cycle => exact (inside _ (List.mem_singleton.2 rfl)).1
  | @turn word t listed meant =>
    have word : word ≠ "" := coherent.ne_empty_of_means listed
    exact Op.fits_turn_iff.2 ⟨filled _ t word meant, inside _ (List.mem_singleton.2 rfl)⟩

end Dialect.Offers

namespace Reader

variable {l : Lexicon} {r : Reader} {text : String} {script : Script}

theorem offers_of_read (same : r.dialect = l.dialect) (read : r.read text = .ok script) :
    ∀ node ∈ script.nodes, ∀ a, node.content = .atom a → l.dialect.Offers a := by
  obtain ⟨statements, given, rfl⟩ := read_eq_ok_iff.1 read
  rw [← same]
  exact (Script.tidy_ofStatements (composed_readStatements given) _ _).atoms

/-- A script that has been read with a lexicon, whatever calls the lexicon has been built by, runs
to its end on a valid cube of the size, or undone, exactly if none of its turns is of no layer. It
can stop only at such a turn. Its other operations are for cubes of the size.

If no token of the lexicon has a turn of no layer, the script runs to its end. All its atoms are then
for cubes of the size, and so are the operations of all its nodes, with whatever is around the
atoms. -/
theorem run_of_read_iff (built : l.Built Turn.Available) (same : r.dialect = l.dialect)
    (read : r.read text = .ok script) {cube : Cube} (valid : cube.Valid) (size : cube.size = l.size)
    (inverse : Bool) :
    ((∃ after, script.run inverse cube = (after, none)) ↔
        ∀ t, .turn t ∈ (script.resolve inverse).toList → t.Filled) ∧
      (∀ last fault, script.run inverse cube = (last, some fault) →
        fault = .maskOutOfRange 0 l.size.layers) ∧
      (∀ id, ∀ op ∈ (script.resolveNode id inverse).toList, op.Inside l.size) ∧
      ((∀ w t, w ≠ "" → l.dialect.turn? w = some t → t.Filled) →
        (∃ after, script.run inverse cube = (after, none)) ∧
          (∀ node ∈ script.nodes, ∀ a, node.content = .atom a → a.Fits l.size) ∧
          ∀ id, ∀ op ∈ (script.resolveNode id inverse).toList, op.Fits l.size) := by
  have turns := built.turnsFit fun _ => Turn.Filled.available
  have offers := offers_of_read same read
  obtain ⟨statements, _, rfl⟩ := read_eq_ok_iff.1 read
  have layers : r.dialect.layers = l.size.layers := by rw [same]; rfl
  have ordered := Script.ordered_ofStatements statements text.utf8ByteSize r.dialect.layers
  have sized : cube.size.layers = r.dialect.layers := by rw [size, layers]
  have inside := fun id => Script.inside_of_mem_resolveNode ordered layers
    (fun node stored a content => (offers node stored a content).inside turns) id inverse
  refine ⟨?_, fun last fault stopped => ?_, inside, fun filled => ?_⟩
  · refine Script.run_iff_of_inside valid sized ?_
    rw [size]
    exact inside _
  · rw [← size]
    refine Script.eq_of_run_of_inside valid sized ?_ stopped
    rw [size]
    exact inside _
  · have atoms := fun node stored a content =>
      (offers node stored a content).fits turns built.coherent filled
    have fits := fun id => Script.fits_of_mem_resolveNode ordered layers atoms id inverse
    refine ⟨?_, atoms, fits⟩
    refine Script.run_of_fits valid sized (fun op member => (inside _ op member).oriented) ?_
    rw [size]
    exact fits _

/-- A lexicon with a turn of two layers and a shorthand, and without one of the letters. -/
def shortened (size : Size) : Lexicon :=
  (((Lexicon.standard size).addTurn "Q" ⟨.x, 3, .quarter⟩).addShorthand "QX" "Q~ [Q:R]").eraseToken
    "F"

theorem built_shortened (size : Size) : (shortened size).Built Turn.Filled := by
  have filled : Turn.Filled ⟨.x, 3, .quarter⟩ := by decide
  have within : LayerMask.Within 3 (Lexicon.standard size).size.layers := by
    rw [(Lexicon.adds_standard size).size, LayerMask.within_iff_toNat_lt]
    exact Nat.lt_of_lt_of_le (by decide : 3 < 2 ^ 2) (Nat.pow_le_pow_right (by decide) size.two_le)
  have added : (Lexicon.standard size).addTurn? "Q" ⟨.x, 3, .quarter⟩ =
      .ok ((Lexicon.standard size).addTurn "Q" ⟨.x, 3, .quarter⟩) := if_pos within
  have turned := (Lexicon.Built.standard size).edited (.addTurn filled added)
  exact (turned.edited (.addShorthand _ "QX" "Q~ [Q:R]")).edited (.eraseToken _ "F")

theorem nodeLabels_shortened :
    nodeLabels (Reader.read { dialect := (shortened ⟨2, by decide, by decide⟩).dialect }
      "(QX (+RfU,LDB))'2") = some ["move", "reflection", "move", "move", "sequence", "sequence",
        "conjugation", "macro", "permutation", "grouping", "inversion", "repetition",
        "sequence"] := by
  decide +kernel

theorem run_of_read_shortened :
    let lexicon := shortened ⟨2, by decide, by decide⟩
    let reader : Reader := { dialect := lexicon.dialect }
    lexicon.Built Turn.Available ∧ (Cube.solved lexicon.size).Valid ∧
      ∃ script, reader.read "(QX (+RfU,LDB))'2" = .ok script ∧
        ∃ after, script.run true (Cube.solved lexicon.size) = (after, none) := by
  intro lexicon reader
  obtain ⟨script, read⟩ := exists_of_nodeLabels nodeLabels_shortened
  have same : reader.dialect = lexicon.dialect := rfl
  have chosen : lexicon.Built Turn.Filled := built_shortened _
  have built := chosen.mono fun _ => Turn.Filled.available
  have valid := Cube.valid_solved lexicon.size
  have size : ∀ size, (Cube.solved size).size = size := fun _ => rfl
  have runs := (run_of_read_iff built same read valid (size lexicon.size) true).2.2.2
    fun _ _ _ known => chosen.filled_of_turn? known
  exact ⟨built, valid, script, read, runs.1⟩

/-- The script of one word that means a turn of no layer. -/
def idle : Script where
  nodes := #[⟨.atom (.turn ⟨.x, 0, .quarter⟩), ⟨0, 1⟩⟩, ⟨.group .sequence [0], ⟨0, 1⟩⟩]
  root := 1
  layers := 2

theorem read_hollow :
    (Reader.read { dialect := (Lexicon.hollow ⟨2, by decide, by decide⟩).dialect }
      "x").toOption = some idle := by
  decide +kernel

theorem ordered_idle : idle.Ordered := by
  rw [Script.ordered_iff]
  decide

theorem operations_idle : idle.operations false = [.turn ⟨.x, 0, .quarter⟩] := by
  have turn : idle.nodes[0]? = some ⟨.atom (.turn ⟨.x, 0, .quarter⟩), ⟨0, 1⟩⟩ := rfl
  have sequence : idle.nodes[1]? = some ⟨.group .sequence [0], ⟨0, 1⟩⟩ := rfl
  rw [Script.operations, show idle.root = 1 from rfl,
    Script.meaning_of_group ordered_idle sequence rfl, List.map_singleton,
    Script.meaning_of_atom turn rfl]
  rfl

/-- A word that means a turn of no layer is read, and the script stops at the turn. -/
theorem exists_read_run_refused :
    let lexicon := Lexicon.hollow ⟨2, by decide, by decide⟩
    let reader : Reader := { dialect := lexicon.dialect }
    lexicon.Built Turn.Available ∧
      (Cube.solved lexicon.size).Valid ∧
      ∃ script, reader.read "x" = .ok script ∧
        script.run false (.solved lexicon.size) =
          (.solved lexicon.size, some (.maskOutOfRange 0 2)) := by
  intro lexicon reader
  have read : reader.read "x" = .ok idle := by
    have known : (reader.read "x").toOption = some idle := read_hollow
    cases outcome : reader.read "x" with
    | error d => simp [outcome, Except.toOption] at known
    | ok script => simpa [outcome, Except.toOption] using known
  have size : lexicon.size = ⟨2, by decide, by decide⟩ := by
    change (Lexicon.hollow _).size = _
    rw [Lexicon.hollow, Lexicon.addTurn, Lexicon.size_addMeaning, Lexicon.size_standard]
  refine ⟨Lexicon.built_hollow _, Cube.valid_solved _, idle, read, ?_⟩
  rw [size, Script.run_eq_applyAll ordered_idle false rfl, operations_idle]
  rfl

end Reader

end CubeScript
