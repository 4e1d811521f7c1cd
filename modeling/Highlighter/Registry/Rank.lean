import Highlighter.Registry.Catalog
import Highlighter.Result

/-!
# Ranking

The results of detection, the best first: higher relevance comes first, and among results of one
relevance a language moves ahead of the first language that it extends.
-/

namespace Highlighter.Rank

/-- Puts an element before the first one it belongs ahead of, or at the end. -/
def place {α : Type} (isAhead : α → α → Bool) (a : α) : List α → List α
  | [] => [a]
  | b :: rest => if isAhead a b then a :: b :: rest else b :: place isAhead a rest

/-- Places the elements of a list one after the other. -/
def arrange {α : Type} (isAhead : α → α → Bool) (elements : List α) : List α :=
  elements.foldl (fun placed a => place isAhead a placed) []

/-- Whether the language of one result extends that of another. -/
def isAhead (catalog : Catalog) (first second : Highlighted) : Bool :=
  match first.language, second.language with
  | some language, some base => catalog.isExtension language base
  | _, _ => false

/-- Ranks results. -/
def rank (catalog : Catalog) (results : List Highlighted) : List Highlighted :=
  let sorted := results.mergeSort fun first second => second.relevance ≤ first.relevance
  let ties := sorted.splitBy fun first second => first.relevance == second.relevance
  ties.flatMap (arrange (isAhead catalog))

end Highlighter.Rank
