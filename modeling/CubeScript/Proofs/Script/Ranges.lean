import CubeScript.Proofs.Script.Placing
import CubeScript.Proofs.Script.Trees
import CubeScript.Proofs.Text.Splitting
import Mathlib.Logic.Relation
import Mathlib.Order.MinMax

/-!
# How the ranges of nodes nest

The range of a statement holds the ranges of its parts. It does not if the statement is a shorthand,
whose parts have been read from another text (`Statement.Nests`). When statements are laid out, the
nodes of a shorthand all get the range where it stands, and so do those of shorthands inside
(`Arena.Stays`). An operand gets the range from its first statement to its last, or an empty one at
the beginning of the text if it has no statements. So in the script the range of a node lies in that
of its parent, but for the empty operands outside of shorthands (`Script.RangesNest`).
-/

namespace CubeScript

/-! ### Ranges that hold others -/

namespace Range

variable {text : String} {r s t : Range} {ranges : List Range}

theorem Within.refl (r : Range) : r.Within r := ⟨Nat.le_refl _, Nat.le_refl _⟩

theorem Within.trans (first : r.Within s) (second : s.Within t) : r.Within t :=
  ⟨Nat.le_trans second.1 first.1, Nat.le_trans first.2 second.2⟩

theorem Within.cover (first : r.Within t) (second : s.Within t) : (r.cover s).Within t :=
  ⟨Nat.le_min.2 ⟨first.1, second.1⟩, Nat.max_le.2 ⟨first.2, second.2⟩⟩

theorem In.zero (text : String) : zero.In text := by
  have start := isValid_utf8ByteSize "" text
  rw [String.empty_append] at start
  exact ⟨Nat.le_refl 0, Nat.zero_le _, start, start⟩

theorem In.cover (first : r.In text) (second : s.In text) : (r.cover s).In text where
  ordered := Nat.le_trans (Nat.min_le_left ..)
    (Nat.le_trans first.ordered (Nat.le_max_left ..))
  inside := Nat.max_le.2 ⟨first.inside, second.inside⟩
  start := by
    change (⟨min r.start s.start⟩ : String.Pos.Raw).IsValid text
    obtain same | same := min_choice r.start s.start
    · rw [same]
      exact first.start
    · rw [same]
      exact second.start
  stop := by
    change (⟨max r.stop s.stop⟩ : String.Pos.Raw).IsValid text
    obtain same | same := max_choice r.stop s.stop
    · rw [same]
      exact first.stop
    · rw [same]
      exact second.stop

theorem spanning_in (each : ∀ r ∈ ranges, r.In text) : (spanning ranges).In text := by
  cases ranges with
  | nil => exact .zero text
  | cons r rs => exact (each r List.mem_cons_self).cover (each _ (List.getLast_mem _))

theorem spanning_within (filled : ranges ≠ []) (each : ∀ r ∈ ranges, r.Within t) :
    (spanning ranges).Within t := by
  cases ranges with
  | nil => exact absurd rfl filled
  | cons r rs => exact (each r List.mem_cons_self).cover (each _ (List.getLast_mem _))

/-- Ranges that lie one behind the other lie between the start of the first and the end of the
last. -/
theorem within_spanning (forward : ∀ r ∈ ranges, r.start ≤ r.stop)
    (ordered : ranges.Pairwise fun a b => a.stop ≤ b.start) :
    ∀ r ∈ ranges, r.Within (spanning ranges) := by
  intro s member
  cases ranges with
  | nil => cases member
  | cons r rs =>
    refine ⟨Nat.le_trans (Nat.min_le_left ..) ?_, Nat.le_trans ?_ (Nat.le_max_right ..)⟩
    · obtain rfl | later := List.mem_cons.1 member
      · exact Nat.le_refl _
      · exact Nat.le_trans (forward r List.mem_cons_self) (List.rel_of_pairwise_cons ordered later)
    · have last := List.getLast_mem (List.cons_ne_nil r rs)
      rw [← List.dropLast_concat_getLast (List.cons_ne_nil r rs)] at member ordered
      obtain before | same := List.mem_append.1 member
      · have le := (List.pairwise_append.1 ordered).2.2 s before _ (List.mem_singleton_self _)
        exact Nat.le_trans le (forward _ last)
      · rw [List.mem_singleton.1 same]

end Range

/-! ### Statements that nest -/

/-- Whether a statement has been read from a text with some tokens, and its range holds those of its
parts, each operand of a pairing being written from left to right. A shorthand has the range of a
token. Its parts may have any. -/
inductive Statement.Nests (text : String) (tokens : List Token) : Statement → Prop where
  | atom {a : Atom} {range : Range} (inText : range.In text) : Nests text tokens (.atom a range)
  | shorthand {t : Token} {body : List Statement} (inText : t.range.In text)
      (member : t ∈ tokens) : Nests text tokens (.wrapped (.shorthand t.text) body t.range)
  | wrapped {w : Wrapper} {body : List Statement} {range : Range}
      (plain : ∀ name, w ≠ .shorthand name) (inText : range.In text)
      (parts : ∀ s ∈ body, Nests text tokens s)
      (within : ∀ s ∈ body, s.range.Within range) : Nests text tokens (.wrapped w body range)
  | paired {p : Pairing} {first second : List Statement} {range : Range}
      (inText : range.In text) (left : ∀ s ∈ first, Nests text tokens s)
      (right : ∀ s ∈ second, Nests text tokens s)
      (within : ∀ s ∈ first ++ second, s.range.Within range)
      (leftOrdered : first.Pairwise fun s t => s.range.stop ≤ t.range.start)
      (rightOrdered : second.Pairwise fun s t => s.range.stop ≤ t.range.start) :
      Nests text tokens (.paired p first second range)

theorem Statement.Nests.isIn {text : String} {tokens : List Token} {s : Statement}
    (nests : s.Nests text tokens) : s.range.In text := by
  cases nests <;> assumption

/-! ### Nodes that nest -/

/-- Whether a node lies in a range, or, if it is an operand without statements, at the beginning of
the text. -/
def Node.Inside (node : Node) (range : Range) : Prop :=
  if node.content = .group .sequence [] then node.range = .zero else node.range.Within range

namespace Arena

/-- Whether a node and all nodes below have some range. -/
inductive Stays (arena : Arena) (range : Range) : Nat → Prop where
  | node {id : Nat} {content : Content} (stored : arena[id]? = some ⟨content, range⟩)
      (parts : ∀ child ∈ content.children, Stays arena range child) : Stays arena range id

/-- Whether a node and the nodes below have ranges of a text that nest, and every shorthand among
them stands where a token does, with all that is below. -/
inductive Nests (text : String) (tokens : List Token) (arena : Arena) : Nat → Prop where
  | shorthand {id : Nat} {t : Token} {ids : List Nat}
      (stored : arena[id]? = some ⟨.group (.wrapper (.shorthand t.text)) ids, t.range⟩)
      (inText : t.range.In text) (member : t ∈ tokens)
      (parts : ∀ child ∈ ids, arena.Stays t.range child) : Nests text tokens arena id
  | node {id : Nat} {node : Node} (stored : arena[id]? = some node)
      (plain : ∀ name ids, node.content ≠ .group (.wrapper (.shorthand name)) ids)
      (inText : node.range.In text)
      (parts : ∀ child ∈ node.content.children, Nests text tokens arena child)
      (inside : ∀ child ∈ node.content.children, ∃ below, arena[child]? = some below ∧
        below.Inside node.range) : Nests text tokens arena id

variable {text : String} {tokens : List Token} {arena larger : Arena} {range : Range} {id : Nat}

theorem Stays.mono (stays : arena.Stays range id) (keeps : arena.Keeps larger) :
    larger.Stays range id := by
  induction stays with
  | node stored _ ih => exact .node (keeps _ _ stored) ih

theorem Nests.mono (nests : arena.Nests text tokens id) (keeps : arena.Keeps larger) :
    larger.Nests text tokens id := by
  induction nests with
  | shorthand stored inText member parts =>
    exact .shorthand (keeps _ _ stored) inText member fun child below =>
      (parts child below).mono keeps
  | node stored plain inText _ inside ih =>
    refine .node (keeps _ _ stored) plain inText ih fun child below => ?_
    obtain ⟨node, kept, lies⟩ := inside child below
    exact ⟨node, keeps _ _ kept, lies⟩

theorem stored_add (arena : Arena) (content : Content) (range : Range) :
    (arena.add content range).2[(arena.add content range).1]? = some ⟨content, range⟩ := by
  simp [add]

/-! ### Laying out -/

theorem stays_add {content : Content}
    (parts : ∀ child ∈ content.children, arena.Stays range child) :
    (arena.add content range).2.Stays range (arena.add content range).1 :=
  .node (stored_add arena content range) fun child below =>
    (parts child below).mono (keeps_push arena _)

theorem stays_pair (p : Pairing) {first second : List Nat}
    (left : ∀ child ∈ first, arena.Stays range child)
    (right : ∀ child ∈ second, arena.Stays range child) :
    let one := arena.add (.group .sequence first) range
    let two := one.2.add (.group .sequence second) range
    let pair := two.2.add (.group (.pairing p) [one.1, two.1]) range
    pair.2.Stays range pair.1 := by
  intro one two pair
  have operand : one.2.Stays range one.1 := stays_add left
  have other : two.2.Stays range two.1 :=
    stays_add fun child below => (right child below).mono (keeps_push arena _)
  refine stays_add fun child below => ?_
  obtain rfl | below := List.mem_cons.1 below
  · exact operand.mono (keeps_push one.2 _)
  · rw [List.mem_singleton.1 below]
    exact other

mutual

/-- All nodes of a statement that is laid out in some range have this range. -/
theorem stays_place (range : Range) (s : Statement) (arena : Arena) :
    (place (some range) s arena).2.Stays range (place (some range) s arena).1 := by
  match s with
  | .atom a own => exact stays_add nofun
  | .wrapped w body own =>
    have there : place (some range) (.wrapped w body own) arena =
        (placeAll (some range) body arena).2.add
          (.group (.wrapper w) (placeAll (some range) body arena).1) range := by
      cases w <;> rfl
    rw [there]
    exact stays_add (stays_placeAll range body arena)
  | .paired p first second own =>
    have left := fun child below => (stays_placeAll range first arena child below).mono
      (keeps_placeAll (some range) second (placeAll (some range) first arena).2)
    exact stays_pair p left (stays_placeAll range second (placeAll (some range) first arena).2)

theorem stays_placeAll (range : Range) (statements : List Statement) (arena : Arena) :
    ∀ id ∈ (placeAll (some range) statements arena).1,
      (placeAll (some range) statements arena).2.Stays range id := by
  match statements with
  | [] => nofun
  | s :: statements =>
    intro id member
    obtain rfl | member := List.mem_cons.1 member
    · exact (stays_place range s arena).mono (keeps_placeAll _ statements _)
    · exact stays_placeAll range statements _ id member

end

/-- The nodes of statements have their ranges, and none of them is a sequence. -/
theorem exists_of_mem_placeAll (statements : List Statement) {arena : Arena}
    (keeps : (placeAll none statements arena).2.Keeps larger) :
    ∀ id ∈ (placeAll none statements arena).1, ∃ s ∈ statements, ∃ node, larger[id]? = some node ∧
      node.range = s.range ∧ ∀ ids, node.content ≠ .group .sequence ids := by
  induction statements generalizing arena with
  | nil => nofun
  | cons s statements ih =>
    intro id member
    obtain rfl | member := List.mem_cons.1 member
    · obtain ⟨node, stored, same, form⟩ : ∃ node,
          (place none s arena).2[(place none s arena).1]? = some node ∧ node.range = s.range ∧
            ∀ ids, node.content ≠ .group .sequence ids := by
        cases s <;> exact ⟨_, stored_add _ _ _, rfl, nofun⟩
      have kept := (keeps_placeAll none statements _).trans keeps
      exact ⟨s, List.mem_cons_self, node, kept _ _ stored, same, form⟩
    · obtain ⟨other, listed, found⟩ := ih keeps id member
      exact ⟨other, List.mem_cons_of_mem s listed, found⟩

theorem inside_placeAll {statements : List Statement} {arena : Arena}
    (keeps : (placeAll none statements arena).2.Keeps larger)
    (within : ∀ s ∈ statements, s.range.Within range) :
    ∀ id ∈ (placeAll none statements arena).1, ∃ below, larger[id]? = some below ∧
      below.Inside range := by
  intro id member
  obtain ⟨s, listed, node, stored, same, form⟩ := exists_of_mem_placeAll statements keeps id member
  refine ⟨node, stored, ?_⟩
  rw [Node.Inside, if_neg (form []), same]
  exact within s listed

theorem nests_add {content : Content}
    (plain : ∀ name ids, content ≠ .group (.wrapper (.shorthand name)) ids)
    (inText : range.In text) (parts : ∀ child ∈ content.children, arena.Nests text tokens child)
    (inside : ∀ child ∈ content.children, ∃ below, arena[child]? = some below ∧
      below.Inside range) :
    (arena.add content range).2.Nests text tokens (arena.add content range).1 := by
  have keeps := keeps_push arena ⟨content, range⟩
  refine .node (stored_add arena content range) plain inText
    (fun child below => (parts child below).mono keeps) fun child member => ?_
  obtain ⟨below, stored, lies⟩ := inside child member
  exact ⟨below, keeps child below stored, lies⟩

/-- Statements that each nest when they are laid out do so together. -/
theorem nests_placeAll {statements : List Statement} (each : ∀ s ∈ statements, ∀ arena,
      (place none s arena).2.Nests text tokens (place none s arena).1) (arena : Arena) :
    ∀ id ∈ (placeAll none statements arena).1,
      (placeAll none statements arena).2.Nests text tokens id := by
  induction statements generalizing arena with
  | nil => nofun
  | cons s statements ih =>
    obtain ⟨first, others⟩ := List.forall_mem_cons.1 each
    intro id member
    obtain rfl | member := List.mem_cons.1 member
    · exact (first arena).mono (keeps_placeAll none statements _)
    · exact ih others _ id member

/-- An operand lies where its statements do. -/
theorem inside_operand {statements : List Statement} {arena : Arena}
    (within : ∀ s ∈ statements, s.range.Within range) :
    (⟨.group .sequence (placeAll none statements arena).1,
      Range.spanning (statements.map Statement.range)⟩ : Node).Inside range := by
  cases statements with
  | nil => exact rfl
  | cons s statements =>
    rw [Node.Inside, if_neg nofun]
    exact Range.spanning_within nofun (List.forall_mem_map.2 within)

theorem nests_operand {statements : List Statement} {arena : Arena}
    (keeps : (placeAll none statements arena).2.Keeps larger)
    (each : ∀ s ∈ statements, s.range.In text)
    (ordered : statements.Pairwise fun s t => s.range.stop ≤ t.range.start)
    (parts : ∀ id ∈ (placeAll none statements arena).1, larger.Nests text tokens id) :
    let operand := larger.add (.group .sequence (placeAll none statements arena).1)
      (Range.spanning (statements.map Statement.range))
    operand.2.Nests text tokens operand.1 := by
  have forward : ∀ s ∈ statements, s.range.start ≤ s.range.stop := fun s member =>
    (each s member).ordered
  have within := Range.within_spanning (List.forall_mem_map.2 forward)
    (List.pairwise_map.2 ordered)
  exact nests_add nofun (Range.spanning_in (List.forall_mem_map.2 each)) parts
    (inside_placeAll keeps (List.forall_mem_map.1 within))

/-- A statement that nests is laid out as nodes that do. -/
theorem nests_place {s : Statement} (nests : s.Nests text tokens) (arena : Arena) :
    (place none s arena).2.Nests text tokens (place none s arena).1 := by
  induction nests generalizing arena with
  | atom inText => exact nests_add nofun inText nofun nofun
  | @shorthand t body inText member =>
    refine .shorthand (stored_add _ _ _) inText member fun child below => ?_
    exact (stays_placeAll t.range body arena child below).mono (keeps_push _ _)
  | @wrapped w body range plain inText _ within ih =>
    have there : place none (.wrapped w body range) arena =
        (placeAll none body arena).2.add (.group (.wrapper w) (placeAll none body arena).1)
          range := by
      cases w with
      | shorthand name => exact absurd rfl (plain name)
      | _ => rfl
    rw [there]
    refine nests_add ?_ inText (nests_placeAll ih arena) (inside_placeAll (.refl _) within)
    rintro name ids ⟨⟩
    exact plain name rfl
  | @paired p first second range inText left right within leftOrdered rightOrdered
      ihFirst ihSecond =>
    obtain ⟨withinLeft, withinRight⟩ := List.forall_mem_append.1 within
    have keeps := keeps_placeAll none second (placeAll none first arena).2
    have one := nests_operand keeps (fun s member => (left s member).isIn) leftOrdered
      fun child below => (nests_placeAll ihFirst arena child below).mono keeps
    have push := keeps_push (placeAll none second (placeAll none first arena).2).2
      ⟨.group .sequence (placeAll none first arena).1,
        Range.spanning (first.map Statement.range)⟩
    have two := nests_operand push (fun s member => (right s member).isIn) rightOrdered
      fun child below => (nests_placeAll ihSecond _ child below).mono push
    refine nests_add nofun inText (fun child below => ?_) fun child below => ?_
    · obtain rfl | below := List.mem_cons.1 below
      · exact one.mono (keeps_push _ _)
      · rw [List.mem_singleton.1 below]
        exact two
    · obtain rfl | below := List.mem_cons.1 below
      · exact ⟨_, keeps_push _ _ _ _ (stored_add _ _ _), inside_operand withinLeft⟩
      · rw [List.mem_singleton.1 below]
        exact ⟨_, stored_add _ _ _, inside_operand withinRight⟩

end Arena

/-! ### Scripts whose ranges nest -/

namespace Script

/-- Whether a node is another one or below it. -/
def Contains (script : Script) : Nat → Nat → Prop :=
  Relation.ReflTransGen fun parent child => child ∈ script.children parent

/-- Whether a node is a shorthand. -/
def IsShorthand (script : Script) (id : Nat) (name : String) : Prop :=
  ∃ ids range, script.nodes[id]? = some ⟨.group (.wrapper (.shorthand name)) ids, range⟩

/-- Whether a node belongs to what a shorthand stands for. -/
def IsExpanded (script : Script) (id : Nat) : Prop :=
  ∃ outer name, script.IsShorthand outer name ∧ script.Contains outer id

/-- Whether a node is a shorthand that stands in no other one. -/
structure IsOutermost (script : Script) (id : Nat) (name : String) : Prop where
  shorthand : script.IsShorthand id name
  alone : ∀ outer name, script.IsShorthand outer name → script.Contains outer id → outer = id

/-- Whether the ranges of a script that has been read from a text with some tokens nest. A node lies
in its parent, unless it is an operand without statements outside of shorthands, and all nodes of a
shorthand are where the token of the outermost one is. -/
structure RangesNest (script : Script) (text : String) (tokens : List Token) : Prop where
  inText : ∀ (id : Nat) node, script.nodes[id]? = some node → node.range.In text
  within : ∀ (id : Nat) node, script.nodes[id]? = some node → ∀ child ∈ node.content.children,
    ∃ below, script.nodes[child]? = some below ∧
      (below.content = .group .sequence [] → ¬ script.IsExpanded child → below.range = .zero) ∧
      (below.content ≠ .group .sequence [] ∨ script.IsExpanded child →
        below.range.Within node.range)
  outermost : ∀ id, script.IsExpanded id → ∃ outer name, script.IsOutermost outer name ∧
    script.Contains outer id
  token : ∀ outer name, script.IsOutermost outer name → ∃ t ∈ tokens, t.text = name ∧
    ∀ id, script.Contains outer id → script.nodes.range? id = some t.range

variable {script : Script} {text : String} {tokens : List Token} {id child : Nat} {range : Range}
  {node : Node} {name : String}

theorem mem_children_of_stored (stored : script.nodes[id]? = some node) :
    child ∈ script.children id ↔ child ∈ node.content.children := by
  rw [children, stored]
  rfl

/-! ### Below a shorthand -/

theorem range?_of_stays (stays : script.nodes.Stays range id) :
    script.nodes.range? id = some range := by
  obtain ⟨stored, _⟩ := stays
  rw [Arena.range?, stored]
  rfl

theorem stays_child (stays : script.nodes.Stays range id) (member : child ∈ script.children id) :
    script.nodes.Stays range child := by
  obtain ⟨stored, parts⟩ := stays
  exact parts child ((mem_children_of_stored stored).1 member)

theorem stays_of_contains (stays : script.nodes.Stays range id) (below : script.Contains id child) :
    script.nodes.Stays range child := by
  induction below with
  | refl => exact stays
  | tail _ member ih => exact stays_child ih member

/-- A shorthand outside of all others is where its token is, with all that is below. -/
theorem exists_stays_of_nests (nests : script.nodes.Nests text tokens id)
    (shorthand : script.IsShorthand id name) : ∃ t ∈ tokens, t.text = name ∧ t.range.In text ∧
      script.nodes.Stays t.range id := by
  obtain ⟨ids, range, known⟩ := shorthand
  cases nests with
  | @shorthand _ t others stored inText member parts =>
    cases stored.symm.trans known
    exact ⟨t, member, rfl, inText, .node stored parts⟩
  | node stored plain =>
    cases stored.symm.trans known
    exact absurd rfl (plain name ids)

/-- Whether a node is outside of all shorthands, or inside of one that is. -/
inductive Settled (script : Script) (text : String) (tokens : List Token) (id : Nat) : Prop where
  | outside (nests : script.nodes.Nests text tokens id)
  | inside {outer : Nat} {name : String} {range : Range} (shorthand : script.IsShorthand outer name)
      (nests : script.nodes.Nests text tokens outer) (below : script.Contains outer id)
      (inText : range.In text) (stays : script.nodes.Stays range id)

theorem Settled.step (settled : script.Settled text tokens id)
    (member : child ∈ script.children id) : script.Settled text tokens child := by
  cases settled with
  | outside nests =>
    cases nests with
    | shorthand stored inText token parts =>
      exact .inside ⟨_, _, stored⟩ (.shorthand stored inText token parts) (.single member) inText
        (parts child ((mem_children_of_stored stored).1 member))
    | node stored _ _ parts =>
      exact .outside (parts child ((mem_children_of_stored stored).1 member))
  | inside shorthand nests below inText stays =>
    exact .inside shorthand nests (below.tail member) inText (stays_child stays member)

/-- A shorthand is in one range with all that is below, wherever it stands. -/
theorem Settled.exists_stays (settled : script.Settled text tokens id)
    (shorthand : script.IsShorthand id name) :
    ∃ range : Range, range.In text ∧ script.nodes.Stays range id := by
  cases settled with
  | outside nests =>
    obtain ⟨t, _, _, inText, stays⟩ := exists_stays_of_nests nests shorthand
    exact ⟨t.range, inText, stays⟩
  | inside _ _ _ inText stays => exact ⟨_, inText, stays⟩

theorem range_of_stays (stays : script.nodes.Stays range id)
    (stored : script.nodes[id]? = some node) : node.range = range := by
  have known := range?_of_stays stays
  rw [Arena.range?, stored] at known
  exact Option.some.inj known

theorem Settled.inText (settled : script.Settled text tokens id)
    (stored : script.nodes[id]? = some node) : node.range.In text := by
  cases settled with
  | outside nests =>
    cases nests with
    | shorthand known inText =>
      cases known.symm.trans stored
      exact inText
    | node known _ inText =>
      cases known.symm.trans stored
      exact inText
  | inside _ _ _ inText stays =>
    rw [range_of_stays stays stored]
    exact inText

/-- A node belongs to a shorthand, where all is in one range, or has its children inside. -/
theorem Settled.stays_or_inside (settled : script.Settled text tokens id)
    (stored : script.nodes[id]? = some node) :
    (script.IsExpanded id ∧ ∃ range, script.nodes.Stays range id) ∨
      ∀ child ∈ node.content.children, ∃ below, script.nodes[child]? = some below ∧
        below.Inside node.range := by
  cases settled with
  | outside nests =>
    cases nests with
    | shorthand known _ _ parts =>
      exact .inl ⟨⟨id, _, ⟨_, _, known⟩, .refl⟩, _, .node known parts⟩
    | node known _ _ _ inside =>
      cases known.symm.trans stored
      exact .inr inside
  | inside shorthand _ below _ stays => exact .inl ⟨⟨_, _, shorthand, below⟩, _, stays⟩

theorem settled_of_contains (nests : script.nodes.Nests text tokens script.root)
    (below : script.Contains script.root id) : script.Settled text tokens id := by
  induction below with
  | refl => exact .outside nests
  | tail _ member ih => exact ih.step member

/-! ### In a tree -/

section

variable (tree : script.IsTree)

include tree

theorem le_of_contains (below : script.Contains id child) : child ≤ id := by
  induction below with
  | refl => exact Nat.le_refl _
  | tail _ member ih => exact Nat.le_trans (Nat.le_of_lt (tree.earlier _ _ member)) ih

/-- Every node of a tree is below its root. The induction goes up from the node to its parent. -/
theorem contains_root (stored : id ≤ script.root) : script.Contains script.root id := by
  induction gap : script.root - id using Nat.strongRecOn generalizing id with
  | ind n ih =>
    obtain rfl | before := Nat.eq_or_lt_of_le stored
    · exact .refl
    · obtain ⟨parent, once, _⟩ := tree.named id before
      have member : id ∈ script.children parent := List.count_pos_iff.1 (by omega)
      have later := tree.earlier parent id member
      have inside : parent ≤ script.root := by
        obtain ⟨node, known, _⟩ := mem_children_iff.1 member
        have := (List.getElem?_eq_some_iff.1 known).1
        have := tree.root
        rw [Array.length_toList] at *
        omega
      exact (ih (script.root - parent) (by omega) inside rfl).tail member

/-- Every shorthand stands in an outermost one or is one. -/
theorem exists_outermost (shorthand : script.IsShorthand id name) :
    ∃ outer name, script.IsOutermost outer name ∧ script.Contains outer id := by
  induction gap : script.nodes.size - id using Nat.strongRecOn generalizing id name with
  | ind n ih =>
    obtain ⟨outer, other, larger, contains, apart⟩ | none := em (∃ outer other,
      script.IsShorthand outer other ∧ script.Contains outer id ∧ outer ≠ id)
    · have later := le_of_contains tree contains
      obtain ⟨_, _, known⟩ := larger
      have stored := (Array.getElem?_eq_some_iff.1 known).1
      obtain ⟨outermost, named, holds, below⟩ :=
        ih (script.nodes.size - outer) (by omega) ⟨_, _, known⟩ rfl
      exact ⟨outermost, named, holds, below.trans contains⟩
    · refine ⟨id, name, ⟨shorthand, fun outer other larger contains => ?_⟩, .refl⟩
      exact by_contra fun apart => none ⟨outer, other, larger, contains, apart⟩

/-- What contains a node contains its parent, unless it is the node. -/
theorem contains_parent {outer parent : Nat} (contains : script.Contains outer child)
    (apart : outer ≠ child) (member : child ∈ script.children parent) :
    script.Contains outer parent := by
  obtain same | ⟨other, above, memberToo⟩ := contains.cases_tail
  · exact absurd same.symm apart
  · have before := tree.earlier parent child member
    obtain ⟨node, stored, _⟩ := mem_children_iff.1 member
    have inside := (List.getElem?_eq_some_iff.1 stored).1
    rw [Array.length_toList, ← tree.root] at inside
    obtain ⟨only, _, unique⟩ := tree.named child (by omega)
    rw [unique parent member, ← unique other memberToo]
    exact above

section

variable (nests : script.nodes.Nests text tokens script.root)

include nests

theorem settled_of_stored (stored : script.nodes[id]? = some node) :
    script.Settled text tokens id := by
  have inside := (Array.getElem?_eq_some_iff.1 stored).1
  have root := tree.root
  exact settled_of_contains nests (contains_root tree (by omega))

/-- A child lies in its parent, unless it is an operand without statements outside of shorthands. -/
theorem exists_below (stored : script.nodes[id]? = some node)
    (listed : child ∈ node.content.children) : ∃ below, script.nodes[child]? = some below ∧
      (below.content = .group .sequence [] → ¬ script.IsExpanded child → below.range = .zero) ∧
      (below.content ≠ .group .sequence [] ∨ script.IsExpanded child →
        below.range.Within node.range) := by
  have member := (mem_children_of_stored stored).2 listed
  have before := tree.earlier id child member
  have inside := Nat.lt_trans before (Array.getElem?_eq_some_iff.1 stored).1
  obtain ⟨below, known⟩ : ∃ below, script.nodes[child]? = some below :=
    ⟨_, Array.getElem?_eq_getElem inside⟩
  have together {range : Range} (stays : script.nodes.Stays range id) :
      below.range.Within node.range := by
    rw [range_of_stays stays stored, range_of_stays (stays_child stays member) known]
    exact .refl range
  obtain ⟨⟨outer, name, shorthand, contains⟩, range, stays⟩ | inside :=
    (settled_of_stored tree nests stored).stays_or_inside stored
  · refine ⟨below, known, fun _ apart => ?_, fun _ => together stays⟩
    exact absurd ⟨outer, name, shorthand, contains.tail member⟩ apart
  obtain ⟨_, same, lies⟩ := inside child listed
  cases same.symm.trans known
  refine ⟨below, known, fun empty _ => ?_, fun either => ?_⟩
  · rwa [Node.Inside, if_pos empty] at lies
  by_cases empty : below.content = .group .sequence []
  · -- An operand is no shorthand, so a shorthand that it belongs to contains the pairing.
    obtain ⟨outer, name, shorthand, contains⟩ := either.resolve_left (not_not.2 empty)
    have apart : outer ≠ child := by
      rintro rfl
      obtain ⟨_, _, larger⟩ := shorthand
      rw [Option.some.inj (known.symm.trans larger)] at empty
      cases empty
    have ⟨_, _, larger⟩ := shorthand
    obtain ⟨_, _, stays⟩ := (settled_of_stored tree nests larger).exists_stays shorthand
    exact together (stays_of_contains stays (contains_parent tree contains apart member))
  · rwa [Node.Inside, if_neg empty] at lies

/-- An outermost shorthand is where its token is, with all that is below. -/
theorem exists_token {outer : Nat} (outermost : script.IsOutermost outer name) :
    ∃ t ∈ tokens, t.text = name ∧
      ∀ id, script.Contains outer id → script.nodes.range? id = some t.range := by
  obtain ⟨shorthand, alone⟩ := outermost
  have ⟨_, _, known⟩ := shorthand
  have outside : script.nodes.Nests text tokens outer := by
    cases settled_of_stored tree nests known with
    | outside nests => exact nests
    | inside larger nests below =>
      rw [← alone _ _ larger below]
      exact nests
  obtain ⟨t, member, named, _, stays⟩ := exists_stays_of_nests outside shorthand
  exact ⟨t, member, named, fun id below => range?_of_stays (stays_of_contains stays below)⟩

/-- A script that is one tree, whose root nests, has ranges that nest. -/
theorem rangesNest_of_nests : script.RangesNest text tokens where
  inText id node stored := (settled_of_stored tree nests stored).inText stored
  within id node stored child listed := exists_below tree nests stored listed
  outermost := by
    rintro id ⟨outer, name, shorthand, below⟩
    obtain ⟨outermost, named, holds, contains⟩ := exists_outermost tree shorthand
    exact ⟨outermost, named, holds, contains.trans below⟩
  token outer name outermost := exists_token tree nests outermost

end

end

end Script

end CubeScript
