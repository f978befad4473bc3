import CubeScript.Proofs.Dialect.Names
import CubeScript.Proofs.Reading.Acceptance
import CubeScript.Proofs.Script.Placing

/-!
# Turns without spaces

Turns may be written one behind the other with nothing in between. The names are scanned one by one,
and since nothing that a turn begins with belongs to the statement before it, each is read as a
statement of its own. So the script is the list of the turns.
-/

namespace CubeScript

open Lexeme (mark)
open Reading

/-! ### Laying out turns -/

/-- Whether a statement is a turn, wherever it stands. -/
def Statement.IsTurn (s : Statement) (t : Turn) : Prop := ∃ range, s = .atom (.turn t) range

/-- Whether a node of an arena is a turn. -/
def Arena.IsTurn (arena : Arena) (id : Nat) (t : Turn) : Prop :=
  ∃ node, arena[id]? = some node ∧ node.content = .atom (.turn t)

/-- Whether a script is some turns and nothing else. -/
def Script.IsTurns (script : Script) (turns : List Turn) : Prop :=
  List.Forall₂ script.nodes.IsTurn (script.children script.root) turns

theorem Arena.isTurn_placeAll {statements : List Statement} {turns : List Turn}
    (each : List.Forall₂ Statement.IsTurn statements turns) {given : Option Range}
    {arena larger : Arena} (keeps : (placeAll given statements arena).2.Keeps larger) :
    List.Forall₂ larger.IsTurn (placeAll given statements arena).1 turns := by
  induction each generalizing arena with
  | nil => exact .nil
  | @cons s t statements turns first _ ih =>
    obtain ⟨range, rfl⟩ := first
    have kept := (keeps_placeAll given statements _).trans keeps
    refine .cons ⟨⟨.atom (.turn t), given.getD range⟩, kept _ _ ?_, rfl⟩ (ih keeps)
    exact Array.getElem?_push_size

theorem Script.isTurns_ofStatements {statements : List Statement} {turns : List Turn}
    (each : List.Forall₂ Statement.IsTurn statements turns) (length layers : Nat) :
    (ofStatements statements length layers).IsTurns turns := by
  have root : (ofStatements statements length layers).children
      (ofStatements statements length layers).root = (Arena.placeAll none statements #[]).1 := by
    simp [ofStatements, children, Arena.add, Content.children]
  rw [IsTurns, root]
  exact Arena.isTurn_placeAll each (Arena.keeps_push _ _)

/-! ### Reading turns -/

/-- Whether a token is the name of a turn. -/
def Token.IsTurn (size : Size) (token : Token) (t : Turn) : Prop :=
  ∃ name, token.lexeme = mark name ∧ Lexicon.standardTurn? size name = some t

theorem isTurn_of_lexemes {size : Size} {tokens : List Token} {names : List String}
    {turns : List Turn}
    (named : List.Forall₂ (fun name t => Lexicon.standardTurn? size name = some t) names turns)
    (lexemes : tokens.map Token.lexeme = names.map mark) :
    List.Forall₂ (Token.IsTurn size) tokens turns := by
  induction named generalizing tokens with
  | nil =>
    obtain rfl := List.map_eq_nil_iff.1 lexemes
    exact .nil
  | @cons name t names turns known _ ih =>
    obtain ⟨token, tokens, rfl, first, others⟩ := List.map_eq_cons_iff.1 lexemes
    exact .cons ⟨name, first, known⟩ (ih others)

/-- A statement ends before the name of a turn. -/
theorem stops_of_isTurn {size : Size} {tokens : List Token} {turns : List Turn}
    (each : List.Forall₂ (Token.IsTurn size) tokens turns) : Stops (tokens.map Token.lexeme) := by
  cases each with
  | nil => trivial
  | cons first _ =>
    obtain ⟨name, named, known⟩ := first
    have noMark : ∀ w ∈ ["'", "~", "*"], w ∈ Lexicon.standardMarks.map Prod.fst := by decide
    rw [List.map_cons, named]
    refine stops_mark (fun member => ?_) _
    rw [Lexicon.standardTurn?_mark (noMark name member)] at known
    cases known

namespace Reader

variable {r : Reader} {size : Size} {depth nesting : Nat} {turns : List Turn}

theorem gives_readSequence_of_turns (standard : r.dialect.IsStandard size) (levels : Nat)
    (scope : Scope) (context : Diagnostic.Context) {tokens : List Token}
    (each : List.Forall₂ (Token.IsTurn size) tokens turns) :
    ∃ statements, Gives (r.readSequence (r.readStatement (levels + 1)) scope context .empty tokens)
        statements [] ∧ List.Forall₂ Statement.IsTurn statements turns := by
  induction each with
  | nil => exact ⟨[], gives_readSequence_nil.2 ⟨rfl, rfl⟩, .nil⟩
  | @cons token t tokens turns first others ih =>
    obtain ⟨name, named, known⟩ := first
    obtain ⟨statements, given, follow⟩ := ih
    have begins : token.lexeme.Begins size .turn :=
      .turn (by rw [named]; rfl) (by rw [named]; exact known)
    have goes := not_intersects_of_begins standard.endsAt_empty nofun begins
    have one : Gives (r.readStatement (levels + 1) scope context token tokens)
        (.atom (.turn t) token.range) tokens :=
      gives_readStatement_succ.2 ⟨_, tokens, gives_readBeginning_of_turn standard known named,
        gives_readBehind_of_stops standard (stops_of_isTurn others) _⟩
    refine ⟨.atom (.turn t) token.range :: statements, ?_, .cons ⟨_, rfl⟩ follow⟩
    rw [gives_readSequence_cons, if_neg goes]
    exact ⟨_, tokens, statements, one, given, rfl⟩

end Reader

end CubeScript
