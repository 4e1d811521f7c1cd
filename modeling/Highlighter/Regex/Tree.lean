import Highlighter.Regex.CharSet

/-!
# Expressions

A regular expression as its source gives it: inline flags are already applied, names of groups are
already numbers.
-/

namespace Highlighter.Regex

/-- A condition on a position in the text. -/
inductive Anchor where
  | textStart
  | textEnd
  | lineStart
  | lineEnd
  | wordBoundary
  | notWordBoundary
  | wordStart
  | wordEnd
  deriving DecidableEq, Repr, Inhabited

/-- Whether the anchor looks at word characters. -/
def Anchor.isWordAnchor : Anchor → Bool
  | .wordBoundary | .notWordBoundary | .wordStart | .wordEnd => true
  | _ => false

/-- The side of the current position that a lookaround inspects. -/
inductive Side where
  | ahead
  | behind
  deriving DecidableEq, Repr, Inhabited

/-- A regular expression. -/
inductive Tree where
  | empty
  | char (set : CharSet)
  | anchor (anchor : Anchor)
  | concat (items : List Tree)
  | alt (choices : List Tree)
  | group (number : Nat) (body : Tree)
  /-- Between `least` and `most` copies, any number from `least` on when `most` is missing. -/
  | repeated (body : Tree) (least : Nat) (most : Option Nat) (greedy : Bool)
  | look (side : Side) (negated : Bool) (body : Tree)
  | atomic (body : Tree)
  | backref (number : Nat)
  deriving Repr, Inhabited

end Highlighter.Regex
