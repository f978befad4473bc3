import CubeScript.Proofs.Dialect.Building
import CubeScript.Proofs.Script.Fitting

/-!
# What is wrong with a configuration

A configuration can be wrong in many places at once, and a reader of it stops at the first. Here the
faults of a configuration are listed without reading it (`Config.faults`): the size, the names of
meanings, the turns and the placements, each in the order of the entries. Reading a configuration
gives a dialect exactly if the list is empty, and fails with the first fault on it otherwise
(`Lexicon.uncovers_ofConfig`).

A computation and its faults are put together in parallel. What comes second is only begun when
nothing is wrong with what comes first, so its faults may be listed for this case alone.

The four things that can be wrong with a turn are looked for in two places. The axis, the layers and
the angle are what every turn needs. Only then the layers are compared with those of the cube.
-/

namespace CubeScript

/-! ### Computations that report the first of their faults -/

/-- Whether a computation fails with the first of some faults, or succeeds if there are none. -/
def Uncovers {ε α : Type} (outcome : Except ε α) (faults : List ε) : Prop :=
  ∀ fault, outcome = .error fault ↔ faults.head? = some fault

namespace Uncovers

variable {ε ε' α β : Type} {outcome : Except ε α} {faults later : List ε}

theorem ok (a : α) : Uncovers (.ok a : Except ε α) [] := fun _ => ⟨nofun, nofun⟩

theorem error (fault : ε) (later : List ε) :
    Uncovers (.error fault : Except ε α) (fault :: later) := by
  intro other
  rw [List.head?_cons, Except.error.injEq, Option.some.injEq]

/-- A check for one fault. -/
theorem check {wrong : Prop} [Decidable wrong] {fault : ε} (failed : wrong → outcome = .error fault)
    (passed : ¬ wrong → Uncovers outcome faults) :
    Uncovers outcome ((if wrong then [fault] else []) ++ faults) := by
  by_cases isWrong : wrong
  · rw [failed isWrong, if_pos isWrong]
    exact error fault faults
  · rw [if_neg isWrong]
    exact passed isWrong

theorem exists_ok_iff (found : Uncovers outcome faults) :
    (∃ a, outcome = .ok a) ↔ faults = [] := by
  rw [← List.head?_eq_none_iff, Option.eq_none_iff_forall_ne_some]
  constructor
  · rintro ⟨a, rfl⟩ fault first
    cases (found fault).2 first
  · intro none
    cases same : outcome with
    | ok a => exact ⟨a, rfl⟩
    | error fault => exact absurd ((found fault).1 same) (none fault)

theorem bind {next : α → Except ε β} (first : Uncovers outcome faults)
    (second : ∀ a, outcome = .ok a → Uncovers (next a) later) :
    Uncovers (outcome >>= next) (faults ++ later) := by
  cases same : outcome with
  | ok a =>
    rw [first.exists_ok_iff.1 ⟨a, same⟩]
    exact second a same
  | error fault =>
    obtain ⟨rest, rfl⟩ := List.head?_eq_some_iff.1 ((first fault).1 same)
    exact error fault (rest ++ later)

theorem mapError (f : ε → ε') (found : Uncovers outcome faults) :
    Uncovers (outcome.mapError f) (faults.map f) := by
  cases same : outcome with
  | ok a =>
    rw [found.exists_ok_iff.1 ⟨a, same⟩]
    exact ok a
  | error fault =>
    obtain ⟨rest, rfl⟩ := List.head?_eq_some_iff.1 ((found fault).1 same)
    exact error (f fault) (rest.map f)

/-- Steps that keep some property between them report the first fault of all. -/
theorem foldlM {σ : Type} {K : σ → Prop} {step : σ → α → Except ε σ} {faultsOf : α → List ε}
    (each : ∀ s a, K s → Uncovers (step s a) (faultsOf a))
    (keeps : ∀ s a s', step s a = .ok s' → K s → K s') (items : List α) {s : σ}
    (kept : K s) : Uncovers (items.foldlM step s) (items.flatMap faultsOf) := by
  induction items generalizing s with
  | nil => exact ok s
  | cons a items ih =>
    rw [List.foldlM_cons, List.flatMap_cons]
    exact (each s a kept).bind fun s' done => ih (keeps s a s' done kept)

theorem mapM {f : α → Except ε β} {faultsOf : α → List ε}
    (each : ∀ a, Uncovers (f a) (faultsOf a)) (items : List α) :
    Uncovers (items.mapM f) (items.flatMap faultsOf) := by
  induction items with
  | nil => exact ok []
  | cons a items ih =>
    rw [List.mapM_cons, List.flatMap_cons]
    refine (each a).bind fun b _ => ?_
    rw [← List.append_nil (items.flatMap faultsOf)]
    exact ih.bind fun bs _ => ok (b :: bs)

end Uncovers

/-! ### Symbols and placements by name -/

theorem Symbol.ofName?_eq_some_iff {name : String} {s : Symbol} :
    Symbol.ofName? name = some s ↔ s.name = name := by
  constructor
  · intro found
    simpa using List.find?_some found
  · rintro rfl
    have all : ∀ s ∈ Symbol.all, Symbol.ofName? s.name = some s := by decide +kernel
    exact all s s.mem_all

theorem Symbol.ofName?_eq_none_iff {name : String} :
    Symbol.ofName? name = none ↔ name ∉ Symbol.all.map Symbol.name := by
  simp [Symbol.ofName?, List.find?_eq_none]

theorem Placement.ofName?_eq_some_iff {name : String} {p : Placement} :
    Placement.ofName? name = some p ↔ p.name = name := by
  constructor
  · intro found
    simpa using List.find?_some found
  · rintro rfl
    exact Placement.ofName?_name p

theorem Placement.ofName?_eq_none_iff {name : String} :
    Placement.ofName? name = none ↔ name ∉ Placement.all.map Placement.name := by
  simp [Placement.ofName?, List.find?_eq_none]

/-- A construct has the name of its symbol, and no other symbol has it. -/
theorem Symbol.filter_ofName?_eq_some_iff {name : String} {s : Symbol} :
    (Symbol.ofName? name).filter Symbol.isConstruct = some s ↔
      ∃ c : Construct, s = .construct c ∧ c.name = name := by
  rw [Option.filter_eq_some_iff, Symbol.ofName?_eq_some_iff]
  constructor
  · rintro ⟨named, isConstruct⟩
    cases s with
    | construct c => exact ⟨c, rfl, named⟩
    | _ => cases isConstruct
  · rintro ⟨c, rfl, named⟩
    exact ⟨named, rfl⟩

theorem Construct.mem_all (c : Construct) : c ∈ Construct.all := by
  cases c <;> decide

theorem Symbol.filter_ofName?_eq_none_iff {name : String} :
    (Symbol.ofName? name).filter Symbol.isConstruct = none ↔
      name ∉ Construct.all.map Construct.name := by
  rw [Option.eq_none_iff_forall_ne_some]
  constructor
  · intro none member
    obtain ⟨c, _, named⟩ := List.mem_map.1 member
    exact none (.construct c) (Symbol.filter_ofName?_eq_some_iff.2 ⟨c, rfl, named⟩)
  · intro missing s found
    obtain ⟨c, _, named⟩ := Symbol.filter_ofName?_eq_some_iff.1 found
    exact missing (List.mem_map.2 ⟨c, c.mem_all, named⟩)

/-! ### The faults of a configuration -/

namespace Config

/-- What is wrong with a turn of a cube with `n` layers, in the order in which it is looked for. -/
def TurnEntry.faults (n : Nat) (e : TurnEntry) : List TurnFault :=
  (if 2 < e.axis then [.turn (.noSuchAxis e.axis)] else []) ++
  ((if e.layers = 0 then [.turn .noLayers] else []) ++
  ((if 4 ∣ e.quarters then [.turn .noAngle] else []) ++
  (if 2 ^ n ≤ e.layers.toNat then [.cube (.maskOutOfRange e.layers n)] else [])))

/-- The names that are not names of symbols. -/
def symbolFaults (names : List String) : List Fault :=
  names.flatMap fun name =>
    if name ∉ Symbol.all.map Symbol.name then [.unknownSymbol name] else []

/-- What is wrong with the placements of a construct: the construct, or some of the placements. -/
def placementFaults (construct : String) (names : List String) : List Fault :=
  (if construct ∉ Construct.all.map Construct.name then [.unknownSymbol construct] else []) ++
  names.flatMap fun name =>
    if name ∉ Placement.all.map Placement.name then [.unknownPlacement name] else []

/-- Everything that is wrong with a configuration, in the order in which it is looked for. -/
def faults (config : Config) : List Fault :=
  (if ¬ (2 ≤ config.layers ∧ config.layers ≤ 16) then
    [.cube (.sizeOutOfRange config.layers)] else []) ++
  (config.tokens.entries.flatMap (fun (_, names) => symbolFaults names) ++
  (config.turns.entries.flatMap (fun (token, e) => (e.faults config.layers).map (.turn token)) ++
  config.placements.entries.flatMap fun (construct, names) => placementFaults construct names))

/-- Whether every part of a configuration means something. -/
structure Sound (config : Config) : Prop where
  layers : 2 ≤ config.layers ∧ config.layers ≤ 16
  tokens : ∀ token names, (token, names) ∈ config.tokens.entries → ∀ name ∈ names,
    ∃ s : Symbol, s.name = name
  turns : ∀ token e, (token, e) ∈ config.turns.entries →
    e.axis ≤ 2 ∧ 1 ≤ e.layers.toNat ∧ e.layers.toNat < 2 ^ config.layers ∧ ¬ 4 ∣ e.quarters
  placements : ∀ construct names, (construct, names) ∈ config.placements.entries →
    (∃ c : Construct, c.name = construct) ∧ ∀ name ∈ names, ∃ p : Placement, p.name = name

theorem TurnEntry.faults_eq_nil_iff {n : Nat} {e : TurnEntry} : e.faults n = [] ↔
    e.axis ≤ 2 ∧ 1 ≤ e.layers.toNat ∧ e.layers.toNat < 2 ^ n ∧ ¬ 4 ∣ e.quarters := by
  have filled : e.layers = 0 ↔ e.layers.toNat = 0 := BitVec.toNat_inj.symm
  simp only [TurnEntry.faults, List.append_eq_nil_iff, ite_eq_right_iff, List.cons_ne_nil,
    imp_false, filled]
  omega

theorem symbolFaults_eq_nil_iff {names : List String} :
    symbolFaults names = [] ↔ ∀ name ∈ names, ∃ s : Symbol, s.name = name := by
  simp [symbolFaults, Symbol.mem_all]

theorem placementFaults_eq_nil_iff {construct : String} {names : List String} :
    placementFaults construct names = [] ↔ (∃ c : Construct, c.name = construct) ∧
      ∀ name ∈ names, ∃ p : Placement, p.name = name := by
  have all (p : Placement) : p ∈ Placement.all := by cases p <;> decide
  simp [placementFaults, Construct.mem_all, all]

/-- A configuration without faults is one whose parts all mean something. -/
theorem faults_eq_nil_iff {config : Config} : config.faults = [] ↔ config.Sound := by
  simp only [faults, List.append_eq_nil_iff, ite_eq_right_iff, List.cons_ne_nil, imp_false,
    List.flatMap_eq_nil_iff, List.map_eq_nil_iff, Prod.forall, TurnEntry.faults_eq_nil_iff,
    symbolFaults_eq_nil_iff, placementFaults_eq_nil_iff, Decidable.not_not]
  exact ⟨fun ⟨layers, tokens, turns, placements⟩ => ⟨layers, tokens, turns, placements⟩,
    fun ⟨layers, tokens, turns, placements⟩ => ⟨layers, tokens, turns, placements⟩⟩

end Config

/-! ### Reading a configuration -/

theorem Axis.ofIndex?_eq_some_iff {i : Nat} {axis : Axis} :
    Axis.ofIndex? i = some axis ↔ axis.index = i := by
  constructor
  · intro known
    unfold Axis.ofIndex? at known
    split at known <;> cases known <;> rfl
  · rintro rfl
    exact Axis.ofIndex?_index axis

theorem Axis.ofIndex?_eq_none_iff {i : Nat} : Axis.ofIndex? i = none ↔ 2 < i := by
  constructor
  · intro unknown
    by_contra small
    obtain rfl | rfl | rfl : i = 0 ∨ i = 1 ∨ i = 2 := by omega
    all_goals cases unknown
  · intro large
    rw [Option.eq_none_iff_forall_ne_some]
    intro axis known
    rw [Axis.ofIndex?_eq_some_iff] at known
    cases axis <;> simp [Axis.index] at known <;> omega

/-- What a turn is made of. -/
theorem Turn.make_eq_ok_iff {axis : Nat} {layers : LayerMask} {quarters : Int} {t : Turn} :
    Turn.make axis layers quarters = .ok t ↔ t.axis.index = axis ∧ layers ≠ 0 ∧
      t.layers = layers ∧ Angle.ofInt? quarters = some t.angle := by
  constructor
  · intro made
    rw [Turn.make] at made
    split at made
    · cases made
    · rename_i known
      split at made
      · cases made
      · rename_i filled
        split at made
        · cases made
        · rename_i turned
          cases made
          exact ⟨Axis.ofIndex?_eq_some_iff.1 known, filled, rfl, turned⟩
  · rintro ⟨rfl, filled, rfl, turned⟩
    rw [Turn.make, Axis.ofIndex?_index]
    dsimp only
    rw [if_neg filled, turned]

theorem Turn.exists_make_eq_ok {axis : Nat} {layers : LayerMask} {quarters : Int}
    (hasAxis : axis ≤ 2) (filled : 1 ≤ layers.toNat) (turned : ¬ 4 ∣ quarters) :
    ∃ t, Turn.make axis layers quarters = .ok t := by
  obtain ⟨a, known⟩ : ∃ a, Axis.ofIndex? axis = some a :=
    Option.ne_none_iff_exists'.1 fun none => by
      have := Axis.ofIndex?_eq_none_iff.1 none
      omega
  obtain ⟨angle, hasAngle⟩ : ∃ angle, Angle.ofInt? quarters = some angle :=
    Option.ne_none_iff_exists'.1 fun none => turned (Angle.ofInt?_eq_none_iff.1 none)
  have some : layers ≠ 0 := by
    rintro rfl
    exact absurd filled (by decide)
  exact ⟨⟨a, layers, angle⟩,
    Turn.make_eq_ok_iff.2 ⟨Axis.ofIndex?_eq_some_iff.1 known, some, rfl, hasAngle⟩⟩

namespace Lexicon

variable {l : Lexicon}

theorem uncovers_makeTurn? (token : String) (e : Config.TurnEntry) :
    Uncovers (l.makeTurn? token e.axis e.layers e.quarters) (e.faults l.size.layers) := by
  unfold Config.TurnEntry.faults
  refine .check (fun noAxis => ?_) fun hasAxis => ?_
  · have unknown : Axis.ofIndex? e.axis = none := Axis.ofIndex?_eq_none_iff.2 noAxis
    simp only [makeTurn?, Turn.make, unknown]
  obtain ⟨axis, known⟩ : ∃ axis, Axis.ofIndex? e.axis = some axis :=
    Option.ne_none_iff_exists'.1 fun unknown => hasAxis (Axis.ofIndex?_eq_none_iff.1 unknown)
  refine .check (fun empty => ?_) fun filled => .check (fun still => ?_) fun turned => ?_
  · simp only [makeTurn?, Turn.make, known, empty, if_true]
  · have noAngle : Angle.ofInt? e.quarters = none := Angle.ofInt?_eq_none_iff.2 still
    simp only [makeTurn?, Turn.make, known, if_neg filled, noAngle]
  obtain ⟨angle, hasAngle⟩ : ∃ angle, Angle.ofInt? e.quarters = some angle :=
    Option.ne_none_iff_exists'.1 fun none => turned (Angle.ofInt?_eq_none_iff.1 none)
  have made : Turn.make e.axis e.layers e.quarters = .ok ⟨axis, e.layers, angle⟩ :=
    Turn.make_eq_ok_iff.2 ⟨Axis.ofIndex?_eq_some_iff.1 known, filled, rfl, hasAngle⟩
  -- The turn is one. What is left to check is whether the cube has its layers.
  simp only [makeTurn?, made, addTurn?, LayerMask.within_iff_toNat_lt]
  by_cases wide : 2 ^ l.size.layers ≤ e.layers.toNat
  · rw [if_neg (Nat.not_lt.2 wide), if_pos wide]
    exact .error _ _
  · rw [if_pos (Nat.lt_of_not_le wide), if_neg wide]
    exact .ok _

theorem uncovers_addNamed? (token : String) (names : List String) :
    Uncovers (l.addNamed? token names) (Config.symbolFaults names) := by
  refine .foldlM (K := fun _ => True) (fun l name _ => ?_) (fun _ _ _ _ _ => trivial) names
    trivial
  by_cases known : name ∈ Symbol.all.map Symbol.name
  · rw [if_neg (not_not.2 known)]
    split
    · exact .ok _
    · rename_i unknown
      exact absurd known (Symbol.ofName?_eq_none_iff.1 unknown)
  · rw [if_pos known, Symbol.ofName?_eq_none_iff.2 known]
    exact .error _ _

theorem uncovers_placementsNamed? (names : List String) :
    Uncovers (placementsNamed? names) (names.flatMap fun name =>
      if name ∉ Placement.all.map Placement.name then [.unknownPlacement name] else []) := by
  refine .mapM (fun name => ?_) names
  by_cases known : name ∈ Placement.all.map Placement.name
  · rw [if_neg (not_not.2 known)]
    split
    · exact .ok _
    · rename_i unknown
      exact absurd known (Placement.ofName?_eq_none_iff.1 unknown)
  · rw [if_pos known, Placement.ofName?_eq_none_iff.2 known]
    exact .error _ _

theorem uncovers_setNamed? (construct : String) (names : List String) :
    Uncovers (l.setNamed? construct names) (Config.placementFaults construct names) := by
  refine .check (fun missing => ?_) fun known => ?_
  · rw [setNamed?, Symbol.filter_ofName?_eq_none_iff.2 missing]
  · obtain ⟨s, found⟩ := Option.ne_none_iff_exists'.1 fun none =>
      known (Symbol.filter_ofName?_eq_none_iff.1 none)
    rw [setNamed?, found]
    have placed := (uncovers_placementsNamed? names).bind fun ps _ => .ok (l.setPlacements s ps)
    rwa [List.append_nil] at placed

theorem uncovers_ofNat? (layers : Nat) : Uncovers ((Size.ofNat? layers).mapError Config.Fault.cube)
    (if ¬ (2 ≤ layers ∧ layers ≤ 16) then [.cube (.sizeOutOfRange layers)] else []) := by
  rw [Size.ofNat?]
  by_cases fits : 2 ≤ layers ∧ layers ≤ 16
  · rw [dif_pos fits, if_neg (not_not.2 fits)]
    exact .ok _
  · rw [dif_neg fits, if_pos fits]
    exact .error _ _

theorem EditsMany.size {admits : Turn → Prop} {larger : Lexicon}
    (edits : EditsMany admits l larger) : larger.size = l.size := by
  induction edits with
  | refl => rfl
  | tail _ edit ih => exact edit.turned.1.trans ih

/-- A configuration describes a dialect, or the first of its faults is reported. -/
theorem uncovers_ofConfig (config : Config) : Uncovers (ofConfig config) config.faults := by
  refine .bind (uncovers_ofNat? config.layers) fun size sized => ?_
  have layers : size.layers = config.layers := by
    rw [Except.mapError_eq_ok_iff, Size.ofNat?] at sized
    split at sized <;> cases sized
    rfl
  have forgetting : EditsMany Turn.Filled (standard size)
      (config.removed.foldl eraseToken (standard size)) :=
    edits_foldl (fun l token => .eraseToken l token) config.removed _
  refine .bind (.foldlM (K := fun _ => True) (fun l entry _ => uncovers_addNamed? entry.1 entry.2)
    (fun _ _ _ _ _ => trivial) _ trivial) fun named naming => ?_
  have size_named : named.size = size := by
    have filling : EditsMany Turn.Filled _ named :=
      edits_foldlM (fun _ _ _ => edits_addNamed?) naming
    rw [filling.size, forgetting.size, size_standard]
  -- The layers of a turn are compared with the size, which no turn before has changed.
  refine .bind (.foldlM (K := fun l => l.size.layers = config.layers)
    (fun l entry kept => ?_) (fun l entry next done kept => ?_) _ (size_named ▸ layers))
    fun turned _ => ?_
  · rw [← kept]
    exact (uncovers_makeTurn? entry.1 entry.2).mapError _
  · rw [(edits_makeTurn? (fun _ => id) (Except.mapError_eq_ok_iff.1 done)).size, kept]
  rw [← List.append_nil (config.placements.entries.flatMap _)]
  exact .bind (.foldlM (K := fun _ => True) (fun l entry _ => uncovers_setNamed? entry.1 entry.2)
    (fun _ _ _ _ _ => trivial) _ trivial) fun placed _ => .ok _

end Lexicon

end CubeScript
