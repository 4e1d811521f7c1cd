import Highlighter.Fault
import Highlighter.Hook
import Highlighter.TokenTree

/-!
# Results

What a call to highlight a text gives.
-/

namespace Highlighter

/-- A mode that is active during a scan. -/
structure Frame where
  /-- The number of the mode in its lexer. -/
  mode : Nat
  data : FrameData := {}
  /-- The score of the mode has been counted by an earlier call. -/
  isCredited : Bool := false
  deriving DecidableEq, Inhabited

/-- What highlighting a text gives. -/
structure Highlighted where
  /-- The language; missing for plain text that detection falls back to. -/
  language : Option String
  /-- The HTML. -/
  value : String
  relevance : Nat := 0
  /-- The illegal match that was recovered from. -/
  illegalBy : Option IllegalContext := none
  /-- The wording of the fault that was recovered from. -/
  errorRaised : Option String := none
  /-- The runner-up of detection. -/
  secondBest : Option Highlighted := none
  tree : TokenTree
  /-- The modes active at the end, the innermost first, without the top mode. -/
  frames : List Frame := []

instance : Inhabited Highlighted :=
  ⟨{ language := none, value := "", tree := {} }⟩

namespace Highlighted

/-- Whether an illegal match was recovered from. -/
def isIllegal (result : Highlighted) : Bool :=
  result.illegalBy.isSome

/-- The result of a finished tree. -/
def ofTree (language : Option String) (tree : TokenTree) (classPrefix : String) : Highlighted :=
  { language := language, value := tree.html classPrefix, tree := tree }

/-- A text as it stands, without highlighting. -/
def plain (language : Option String) (text classPrefix : String) : Highlighted :=
  ofTree language (TokenTree.empty.addText text).finish classPrefix

/-- The text of a result. -/
def text (result : Highlighted) : String :=
  result.tree.plain

end Highlighted

end Highlighter
