import CubeScript.Dialect.Standard
import CubeScript.Proofs.Reading.Accompanying
import CubeScript.Proofs.Reading.Outcomes

/-!
# What blanks and comments do not change

Between the tokens of a text there may be any blanks and comments, and every token stands somewhere
else if they are changed. The ranges of statements and errors tell, and so does the choice among
several errors, which goes by how far they got. But none of this gets into a decision: two texts
with the same kinds of tokens and the same texts of tokens are read or refused together, and the
scripts they are read into are the same up to the ranges of their nodes (`Reader.read_respaced`).
-/

namespace CubeScript

namespace Reader

open Statement

theorem agrees_readStatements_respaced (r : Reader) {text other : String}
    (same : (r.lexer.tokens text).map Token.lexeme = (r.lexer.tokens other).map Token.lexeme) :
    Agrees (fun _ => false) (AllAlike id) (r.readStatements text) (r.readStatements other) := by
  have inside : StopsInside fun _ => false := fun _ _ _ stops => stops
  rw [← readStatementsUnless_never r text]
  exact agrees_readStatements inside (inertSwaps_noSwaps r) (agreesAtSwaps_noSwaps _ id r)
    (.of_lexemes same)

end Reader

end CubeScript
