import CubeScript.Proofs.Dialect.Checking

/-!
# What a configured dialect answers

A configuration is taken up in five passes over its entries. Tokens are forgotten, meanings are
added by name, turns are set, placements are set, and texts are set, and every pass goes through
calls that touch several tables. A dialect that is described answers by its configuration all the
same: what was given last for a token is what it means, and what was not given is as in the standard
dialect, if it was not forgotten (`Config.Answers`).

A pass is looked at through one answer at a time. An answer that no step of the pass changes is kept
(`Lexicon.keeps_foldlM`), a meaning is there after it if it was there before or is added by some
step (`Lexicon.means_foldlM`), and what is set under a key is what the entry of the key says, since
a table lists every key once (`Lexicon.get?_foldlM`).

A token may be forgotten and given a meaning again. Forgetting comes first, so only the meanings
from the standard dialect are lost.
-/

namespace CubeScript

namespace Config

/-- Whether a meaning is given to a token by its name. -/
def Names (config : Config) (token : String) (s : Symbol) : Prop :=
  ∃ names, config.tokens.get? token = some names ∧ s.name ∈ names

/-- Whether a dialect answers what a configuration says, and else what the standard one does. -/
structure Answers (config : Config) (standard d : Dialect) : Prop where
  layers : d.layers = config.layers
  means : ∀ token, token ≠ "" → ∀ s, (d.symbols token).contains s ↔
    token ∉ config.removed ∧ (standard.symbols token).contains s ∨ config.Names token s ∨
      s = .move ∧ token ∈ config.turns.keys ∨ s = .shorthand ∧ token ∈ config.shorthands.keys
  turns_given : ∀ token e, config.turns.get? token = some e → ∃ t, d.turn? token = some t ∧
    t.axis.index = e.axis ∧ t.layers = e.layers ∧ t.angle.toInt = Angle.normalize e.quarters
  turns_kept : ∀ token, token ∉ config.turns.keys →
    d.turn? token = if token ∈ config.removed then none else standard.turn? token
  expansions : ∀ token, d.expansion? token = config.shorthands.get? token
  placements_given : ∀ (c : Construct) names, config.placements.get? c.name = some names →
    ∀ p, d.allows (.construct c) p ↔ p.name ∈ names
  placements_kept : ∀ c : Construct, c.name ∉ config.placements.keys →
    ∀ p, d.allows (.construct c) p = standard.allows (.construct c) p

end Config

namespace Lexicon

/-! ### Passes -/

section

variable {α β ε : Type} {l larger : Lexicon}

/-- An answer that no step changes is kept. -/
theorem keeps_foldlM {v : Lexicon → β} {step : Lexicon → α → Except ε Lexicon}
    (each : ∀ l a larger, step l a = .ok larger → v larger = v l) {items : List α}
    (done : items.foldlM step l = .ok larger) : v larger = v l := by
  induction items generalizing l with
  | nil =>
    cases done
    rfl
  | cons a items ih =>
    rw [List.foldlM_cons] at done
    obtain ⟨next, first, rest⟩ := Except.bind_eq_ok_iff.1 done
    exact (ih rest).trans (each l a next first)

/-- A meaning that steps may add is there if it was there or some step adds it. -/
theorem means_foldlM {w : String} {s : Symbol} {given : α → Prop}
    {step : Lexicon → α → Except ε Lexicon}
    (each : ∀ l a larger, step l a = .ok larger → (larger.Means w s ↔ l.Means w s ∨ given a))
    {items : List α} (done : items.foldlM step l = .ok larger) :
    larger.Means w s ↔ l.Means w s ∨ ∃ a ∈ items, given a := by
  induction items generalizing l with
  | nil =>
    cases done
    simp
  | cons a items ih =>
    rw [List.foldlM_cons] at done
    obtain ⟨next, first, rest⟩ := Except.bind_eq_ok_iff.1 done
    rw [ih rest, each l a next first, or_assoc, List.exists_mem_cons_iff]

/-- An answer that only the entry of some key changes is what this entry makes it. -/
theorem get?_foldlM {κ : Type} [DecidableEq κ] {k : κ} {v : Lexicon → Option β}
    {value : α → Option β} {step : Lexicon → κ × α → Except ε Lexicon}
    (each : ∀ l entry larger, step l entry = .ok larger →
      v larger = if entry.1 = k then value entry.2 else v l)
    {table : Table κ α} (done : table.entries.foldlM step l = .ok larger) :
    v larger = ((table.get? k).map value).getD (v l) := by
  obtain ⟨entries, nodup⟩ := table
  change entries.foldlM step l = .ok larger at done
  change v larger = ((Table.lookup k entries).map value).getD (v l)
  induction entries generalizing l with
  | nil =>
    cases done
    rfl
  | cons entry entries ih =>
    obtain ⟨other, a⟩ := entry
    rw [List.map_cons, List.nodup_cons] at nodup
    rw [List.foldlM_cons] at done
    obtain ⟨next, first, rest⟩ := Except.bind_eq_ok_iff.1 done
    rw [ih nodup.2 rest, each l _ next first, Table.lookup]
    by_cases same : other = k
    · subst same
      rw [Table.lookup_eq_none_iff.2 nodup.1, if_pos rfl, if_pos rfl]
      rfl
    · rw [if_neg same, if_neg same]

/-- What is erased with a token is gone if the token is among those that are. -/
theorem get?_foldl_eraseToken {w : String} {v : Lexicon → Option β}
    (each : ∀ l token, v (l.eraseToken token) = if w = token then none else v l)
    (tokens : List String) (l : Lexicon) :
    v (tokens.foldl eraseToken l) = if w ∈ tokens then none else v l := by
  induction tokens generalizing l with
  | nil => rfl
  | cons token tokens ih =>
    rw [List.foldl_cons, ih, each]
    by_cases first : w = token
    · simp [first]
    · simp [first]

end

/-! ### What one entry does -/

section

variable {l larger : Lexicon} {w : String} {s : Symbol}

/-- What is not looked up in the table of tokens. -/
def beside (l : Lexicon) :
    Size × Table String Turn × Table Symbol (List Placement) × Table String String :=
  (l.size, l.turns, l.placements, l.shorthands)

theorem beside_addMeaning (l : Lexicon) (token : String) (m : Symbol) :
    (l.addMeaning token m).beside = l.beside := by
  rw [addMeaning]
  split <;> rfl

theorem beside_addNamed? {token : String} {names : List String}
    (done : l.addNamed? token names = .ok larger) : larger.beside = l.beside := by
  refine keeps_foldlM (fun l name larger step => ?_) done
  split at step
  · cases step
    exact beside_addMeaning l token _
  · cases step

theorem means_addNamed? (filled : w ≠ "") {token : String} {names : List String}
    (done : l.addNamed? token names = .ok larger) :
    larger.Means w s ↔ l.Means w s ∨ token = w ∧ s.name ∈ names := by
  have added : larger.Means w s ↔ l.Means w s ∨ ∃ name ∈ names, token = w ∧ s.name = name := by
    refine means_foldlM (fun l name larger step => ?_) done
    split at step
    · rename_i m known
      cases step
      rw [means_addMeaning filled, ← Symbol.ofName?_eq_some_iff, known, Option.some.injEq,
        eq_comm (a := m)]
    · cases step
  rw [added]
  exact or_congr_right ⟨fun ⟨_, member, same, named⟩ => ⟨same, named ▸ member⟩,
    fun ⟨same, member⟩ => ⟨s.name, member, same, rfl⟩⟩

theorem exists_of_makeTurn? {token : String} {axis : Nat} {layers : LayerMask} {quarters : Int}
    (done : l.makeTurn? token axis layers quarters = .ok larger) :
    ∃ t, Turn.make axis layers quarters = .ok t ∧ larger = l.addTurn token t := by
  rw [makeTurn?] at done
  split at done
  · cases done
  · rename_i t made
    rw [Except.mapError_eq_ok_iff, addTurn?] at done
    split at done
    · cases done
      exact ⟨t, made, rfl⟩
    · cases done

theorem exists_of_setNamed? {construct : String} {names : List String}
    (done : l.setNamed? construct names = .ok larger) :
    ∃ (c : Construct) (ps : List Placement), c.name = construct ∧ placementsNamed? names = .ok ps ∧
      larger = l.setPlacements (.construct c) ps := by
  rw [setNamed?] at done
  split at done
  · cases done
  · rename_i found
    obtain ⟨c, rfl, named⟩ := Symbol.filter_ofName?_eq_some_iff.1 found
    obtain ⟨ps, placed, same⟩ := Except.bind_eq_ok_iff.1 done
    cases same
    exact ⟨c, ps, named, placed, rfl⟩

theorem mem_placementsNamed? {names : List String} {ps : List Placement}
    (placed : placementsNamed? names = .ok ps) {p : Placement} : p ∈ ps ↔ p.name ∈ names := by
  induction names generalizing ps with
  | nil =>
    cases placed
    simp
  | cons name names ih =>
    rw [placementsNamed?, List.mapM_cons] at placed
    obtain ⟨q, first, rest⟩ := Except.bind_eq_ok_iff.1 placed
    obtain ⟨qs, others, same⟩ := Except.bind_eq_ok_iff.1 rest
    cases same
    split at first
    · rename_i known
      cases first
      rw [List.mem_cons, List.mem_cons, ih others, ← Placement.ofName?_eq_some_iff, known,
        Option.some.injEq, eq_comm (a := p)]
    · cases first

theorem construct_name_injective {c d : Construct} (same : c.name = d.name) : c = d := by
  have own : Symbol.ofName? c.name = some (.construct c) := Symbol.ofName?_eq_some_iff.2 rfl
  have other : Symbol.ofName? c.name = some (.construct d) := Symbol.ofName?_eq_some_iff.2 same.symm
  cases own.symm.trans other
  rfl

end

/-! ### All passes -/

section

variable {config : Config} {l larger : Lexicon}

theorem exists_mem_entries_iff {α : Type} {table : Table String α} {w : String} {p : Prop} :
    (∃ entry ∈ table.entries, entry.1 = w ∧ p) ↔ p ∧ w ∈ table.keys := by
  rw [Table.keys, List.mem_map]
  exact ⟨fun ⟨entry, member, same, holds⟩ => ⟨holds, entry, member, same⟩,
    fun ⟨holds, entry, member, same⟩ => ⟨entry, member, same, holds⟩⟩

theorem pass_tokens (done : config.tokens.entries.foldlM (fun l (token, names) =>
      l.addNamed? token names) l = .ok larger) :
    larger.beside = l.beside ∧ ∀ w, w ≠ "" → ∀ s,
      (larger.Means w s ↔ l.Means w s ∨ config.Names w s) := by
  refine ⟨keeps_foldlM (fun _ _ _ => beside_addNamed?) done, fun w filled s => ?_⟩
  have added : larger.Means w s ↔
      l.Means w s ∨ ∃ entry ∈ config.tokens.entries, entry.1 = w ∧ s.name ∈ entry.2 :=
    means_foldlM (fun _ _ _ step => means_addNamed? filled step) done
  rw [added, Config.Names]
  refine or_congr_right ⟨?_, ?_⟩
  · rintro ⟨⟨_, names⟩, member, rfl, named⟩
    exact ⟨names, Table.get?_eq_some_iff.2 member, named⟩
  · rintro ⟨names, given, named⟩
    exact ⟨(w, names), Table.get?_eq_some_iff.1 given, rfl, named⟩

theorem pass_turns (done : config.turns.entries.foldlM (fun l (token, entry) =>
      (l.makeTurn? token entry.axis entry.layers entry.quarters).mapError (.turn token)) l =
        (.ok larger : Except Config.Fault Lexicon)) :
    (larger.size, larger.placements, larger.shorthands) = (l.size, l.placements, l.shorthands) ∧
      (∀ w, w ≠ "" → ∀ s,
        (larger.Means w s ↔ l.Means w s ∨ s = .move ∧ w ∈ config.turns.keys)) ∧
      ∀ w, larger.turns.get? w = ((config.turns.get? w).map fun e =>
        (Turn.make e.axis e.layers e.quarters).toOption).getD (l.turns.get? w) := by
  have each (l : Lexicon) (entry : String × Config.TurnEntry) (larger : Lexicon)
      (step : (l.makeTurn? entry.1 entry.2.axis entry.2.layers entry.2.quarters).mapError
        (Config.Fault.turn entry.1) = .ok larger) :
      ∃ t, Turn.make entry.2.axis entry.2.layers entry.2.quarters = .ok t ∧
        larger = l.addTurn entry.1 t :=
    exists_of_makeTurn? (Except.mapError_eq_ok_iff.1 step)
  refine ⟨?_, fun w filled s => ?_, fun w => ?_⟩
  · refine keeps_foldlM (v := fun l => (l.size, l.placements, l.shorthands))
      (fun l entry larger step => ?_) done
    obtain ⟨t, _, rfl⟩ := each l entry larger step
    exact congrArg (fun b => (b.1, b.2.2)) (beside_addMeaning l entry.1 .move)
  · rw [← exists_mem_entries_iff]
    refine means_foldlM (fun l entry larger step => ?_) done
    obtain ⟨t, _, rfl⟩ := each l entry larger step
    exact means_addMeaning filled entry.1 .move
  · refine get?_foldlM (v := fun l => l.turns.get? w) (fun l entry larger step => ?_) done
    obtain ⟨t, made, rfl⟩ := each l entry larger step
    rw [made, addTurn, Table.get?_set]
    simp only [eq_comm (a := w), Except.toOption]

theorem pass_placements (done : config.placements.entries.foldlM (fun l (construct, names) =>
      l.setNamed? construct names) l = .ok larger) :
    (larger.size, larger.tokens, larger.turns, larger.shorthands) =
        (l.size, l.tokens, l.turns, l.shorthands) ∧
      ∀ c : Construct, larger.placements.get? (.construct c) =
        ((config.placements.get? c.name).map fun names =>
          (placementsNamed? names).toOption).getD (l.placements.get? (.construct c)) := by
  refine ⟨?_, fun c => ?_⟩
  · refine keeps_foldlM (v := fun l => (l.size, l.tokens, l.turns, l.shorthands))
      (fun l entry larger step => ?_) done
    obtain ⟨_, _, _, _, rfl⟩ := exists_of_setNamed? step
    rfl
  · refine get?_foldlM (v := fun l => l.placements.get? (.construct c))
      (fun l entry larger step => ?_) done
    obtain ⟨d, ps, named, placed, rfl⟩ := exists_of_setNamed? step
    rw [placed, setPlacements, Table.get?_set, ← named]
    by_cases same : c = d
    · subst same
      simp
      rfl
    · have apart : d.name ≠ c.name := fun h => same (construct_name_injective h.symm)
      simp [same, apart]

theorem pass_shorthands (l : Lexicon) (entries : Table String String) {larger : Lexicon}
    (done : larger = entries.entries.foldl (fun l (token, text) => l.addShorthand token text) l) :
    (larger.size, larger.turns, larger.placements) = (l.size, l.turns, l.placements) ∧
      (∀ w, w ≠ "" → ∀ s,
        (larger.Means w s ↔ l.Means w s ∨ s = .shorthand ∧ w ∈ entries.keys)) ∧
      ∀ w, larger.shorthands.get? w = ((entries.get? w).map some).getD (l.shorthands.get? w) := by
  -- This pass cannot fail. It is taken as one that may, like the ones before it.
  have steps : entries.entries.foldlM
      (fun l (token, text) => (.ok (l.addShorthand token text) : Except Config.Fault Lexicon)) l =
        .ok larger := done ▸ List.foldlM_pure
  refine ⟨?_, fun w filled s => ?_, fun w => ?_⟩
  · refine keeps_foldlM (v := fun l => (l.size, l.turns, l.placements))
      (fun l entry larger step => ?_) steps
    cases step
    exact congrArg (fun b => (b.1, b.2.1, b.2.2.1)) (beside_addMeaning l entry.1 .shorthand)
  · rw [← exists_mem_entries_iff]
    refine means_foldlM (fun l entry larger step => ?_) steps
    cases step
    exact means_addMeaning filled entry.1 .shorthand
  · refine get?_foldlM (v := fun l => l.shorthands.get? w) (fun l entry larger step => ?_) steps
    cases step
    rw [addShorthand, Table.get?_set]
    simp only [eq_comm (a := w)]

/-- What is left of the standard dialect when some tokens are forgotten. -/
theorem pass_removed (size : Size) (removed : List String) {larger : Lexicon}
    (done : larger = removed.foldl eraseToken (standard size)) :
    (larger.size, larger.placements) = ((standard size).size, (standard size).placements) ∧
      (∀ w s, larger.Means w s ↔ w ∉ removed ∧ (standard size).Means w s) ∧
      (∀ w, larger.turns.get? w =
        if w ∈ removed then none else (standard size).turns.get? w) ∧
      ∀ w, larger.shorthands.get? w = none := by
  subst done
  refine ⟨?_, fun w s => ?_, fun w => ?_, fun w => ?_⟩
  · generalize standard size = l
    induction removed generalizing l with
    | nil => rfl
    | cons token removed ih => exact ih (l.eraseToken token)
  · rw [Means, get?_foldl_eraseToken (v := fun l => l.tokens.get? w)
      (fun l token => Table.get?_erase l.tokens token w)]
    by_cases gone : w ∈ removed
    · simp [gone]
    · simp [gone, Means]
  · exact get?_foldl_eraseToken (v := fun l => l.turns.get? w)
      (fun l token => Table.get?_erase l.turns token w) removed _
  · rw [get?_foldl_eraseToken (v := fun l => l.shorthands.get? w)
      (fun l token => Table.get?_erase l.shorthands token w), (adds_standard size).shorthands]
    exact ite_self none

end

theorem contains_symbols_dialect {l : Lexicon} {w : String} {s : Symbol} :
    (l.dialect.symbols w).contains s ↔ l.Means w s := Iff.rfl

theorem turn?_dialect (l : Lexicon) (w : String) : l.dialect.turn? w = l.turns.get? w := rfl

theorem expansion?_dialect (l : Lexicon) (w : String) :
    l.dialect.expansion? w = l.shorthands.get? w := rfl

theorem allows_dialect (l : Lexicon) (s : Symbol) (p : Placement) :
    l.dialect.allows s p = ((l.placements.get? s).getD []).contains p := rfl

/-- The passes over a configuration that describes a dialect. The blanks and the comments come last
and touch no table. -/
theorem exists_passes {config : Config} {l : Lexicon} (described : ofConfig config = .ok l) :
    ∃ size erased named turned placed shortened, size.layers = config.layers ∧
      erased = config.removed.foldl eraseToken (standard size) ∧
      config.tokens.entries.foldlM (fun l (token, names) => l.addNamed? token names) erased =
        .ok named ∧
      config.turns.entries.foldlM (fun l (token, entry) =>
        (l.makeTurn? token entry.axis entry.layers entry.quarters).mapError (.turn token)) named =
          (.ok turned : Except Config.Fault Lexicon) ∧
      config.placements.entries.foldlM (fun l (construct, names) =>
        l.setNamed? construct names) turned = .ok placed ∧
      shortened = config.shorthands.entries.foldl (fun l (token, text) =>
        l.addShorthand token text) placed ∧
      (l.tokens, l.beside) = (shortened.tokens, shortened.beside) := by
  rw [ofConfig] at described
  obtain ⟨size, sized, rest⟩ := Except.bind_eq_ok_iff.1 described
  obtain ⟨named, tokens, rest⟩ := Except.bind_eq_ok_iff.1 rest
  obtain ⟨turned, turns, rest⟩ := Except.bind_eq_ok_iff.1 rest
  obtain ⟨placed, placements, rest⟩ := Except.bind_eq_ok_iff.1 rest
  refine ⟨size, _, named, turned, placed, _, ?_, rfl, tokens, turns, placements, rfl, ?_⟩
  · rw [Except.mapError_eq_ok_iff, Size.ofNat?] at sized
    split at sized <;> cases sized
    rfl
  · cases rest
    cases config.blanks <;> cases config.lineComment <;> cases config.blockComment <;> rfl

/-- A dialect that is described by a configuration answers what the configuration says. -/
theorem answers_of_ofConfig {config : Config} {l : Lexicon} (described : ofConfig config = .ok l) :
    config.Answers (standard l.size).dialect l.dialect := by
  obtain ⟨size, erased, named, turned, placed, shortened, layers, removed, tokens, turns,
    placements, shorthands, last⟩ := exists_passes described
  obtain ⟨erased_kept, erased_means, erased_turns, erased_texts⟩ := pass_removed size _ removed
  obtain ⟨named_kept, named_means⟩ := pass_tokens tokens
  obtain ⟨turned_kept, turned_means, turned_turns⟩ := pass_turns turns
  obtain ⟨placed_kept, placed_placements⟩ := pass_placements placements
  obtain ⟨short_kept, short_means, short_texts⟩ := pass_shorthands placed _ shorthands
  simp only [Prod.mk.injEq] at erased_kept turned_kept placed_kept short_kept
  simp only [beside, Prod.mk.injEq] at named_kept last
  obtain ⟨last_tokens, last_size, last_turns, last_placements, last_shorthands⟩ := last
  have sized : l.size = size := by
    rw [last_size, short_kept.1, placed_kept.1, turned_kept.1, named_kept.1, erased_kept.1,
      size_standard]
  have turn (w : String) : l.turns.get? w = ((config.turns.get? w).map fun e =>
      (Turn.make e.axis e.layers e.quarters).toOption).getD (erased.turns.get? w) := by
    rw [last_turns, short_kept.2.1, placed_kept.2.2.1, turned_turns, named_kept.2.1]
  have placement (c : Construct) : l.placements.get? (.construct c) =
      ((config.placements.get? c.name).map fun names => (placementsNamed? names).toOption).getD
        ((standard size).placements.get? (.construct c)) := by
    rw [last_placements, short_kept.2.2, placed_placements, turned_kept.2.1, named_kept.2.2.1,
      erased_kept.2]
  have sound : config.Sound :=
    Config.faults_eq_nil_iff.1 ((uncovers_ofConfig config).exists_ok_iff.1 ⟨l, described⟩)
  rw [sized]
  refine ⟨?_, fun w filled s => ?_, fun w e given => ?_, fun w other => ?_, fun w => ?_,
    fun c names given p => ?_, fun c other p => ?_⟩
  · rw [← layers, ← sized]
    rfl
  · have here : l.Means w s ↔ shortened.Means w s := by rw [Means, Means, last_tokens]
    have there : placed.Means w s ↔ turned.Means w s := by rw [Means, Means, placed_kept.2.1]
    rw [contains_symbols_dialect, contains_symbols_dialect, here, short_means w filled, there,
      turned_means w filled, named_means w filled, erased_means, or_assoc, or_assoc]
  · obtain ⟨axis, filled, _, turned⟩ := sound.turns w e (Table.get?_eq_some_iff.1 given)
    obtain ⟨t, made⟩ := Turn.exists_make_eq_ok axis filled turned
    obtain ⟨named, _, selected, angle⟩ := Turn.make_eq_ok_iff.1 made
    refine ⟨t, ?_, named, selected, ?_⟩
    · rw [turn?_dialect, turn, given, Option.map_some, Option.getD_some, made]
      rfl
    · rw [Angle.normalize, angle]
      rfl
  · rw [turn?_dialect, turn?_dialect, turn, Table.get?_eq_none_iff.2 other, Option.map_none,
      Option.getD_none, erased_turns]
  · rw [expansion?_dialect, last_shorthands, short_texts, placed_kept.2.2.2, turned_kept.2.2,
      named_kept.2.2.2, erased_texts]
    cases config.shorthands.get? w <;> rfl
  · have known := (sound.placements _ names (Table.get?_eq_some_iff.1 given)).2
    obtain ⟨_, noFault⟩ := List.append_eq_nil_iff.1
      (Config.placementFaults_eq_nil_iff.2 ⟨⟨c, rfl⟩, known⟩)
    obtain ⟨ps, placed⟩ := (uncovers_placementsNamed? names).exists_ok_iff.2 noFault
    rw [allows_dialect, placement, given, Option.map_some, Option.getD_some, placed,
      ← mem_placementsNamed? placed]
    exact List.contains_iff_mem
  · rw [allows_dialect, allows_dialect, placement, Table.get?_eq_none_iff.2 other, Option.map_none,
      Option.getD_none]

/-- A configuration describes a dialect exactly if every part of it means something, and the first
part that does not is reported otherwise. A dialect that is described answers what the configuration
says, and else what the standard dialect of the size answers. -/
theorem ofConfig_describes (config : Config) :
    ((∃ l, ofConfig config = .ok l) ↔ config.Sound) ∧
      (∀ fault, ofConfig config = .error fault ↔ config.faults.head? = some fault) ∧
      ∀ l, ofConfig config = .ok l → config.Answers (standard l.size).dialect l.dialect := by
  refine ⟨?_, uncovers_ofConfig config, fun l described => answers_of_ofConfig described⟩
  rw [← Config.faults_eq_nil_iff]
  exact (uncovers_ofConfig config).exists_ok_iff

/-- A turn by no angle of a layer that the cube does not have. -/
def wideAndStill : Config where
  layers := 3
  turns := .ofList [("x", { axis := 0, layers := 8, quarters := 0 })]

/-- The layers of this turn are not layers of the cube, but the angle is reported. -/
theorem ofConfig_wideAndStill : ¬ (8 : LayerMask).toNat < 2 ^ 3 ∧
    wideAndStill.turns.get? "x" = some { axis := 0, layers := 8, quarters := 0 } ∧
    ofConfig wideAndStill ≠ .error (.turn "x" (.cube (.maskOutOfRange 8 3))) ∧
    ofConfig wideAndStill = .error (.turn "x" (.turn .noAngle)) := by
  have reported : ofConfig wideAndStill = .error (.turn "x" (.turn .noAngle)) :=
    (uncovers_ofConfig wideAndStill _).2 (by decide)
  refine ⟨by decide, by decide, ?_, reported⟩
  rw [reported]
  nofun

end Lexicon

end CubeScript
