/-!
# Settings

What a user may set: how classes are named in the output, what happens to faults, which languages
are tried, and the limits of a scan.
-/

namespace Highlighter

/-- The settings of a registry. -/
structure Settings where
  /-- What every class in the output starts with. -/
  classPrefix : String := "hljs-"
  /-- Recover from faults and illegal text instead of failing. -/
  safeMode : Bool := true
  /-- The languages that detection tries; all of them when missing. -/
  languages : Option (List String) := none
  /-- How often one keyword may add to the relevance of one call. -/
  maxKeywordHits : Nat := 7
  /-- The number of iterations of a scan that is always allowed. -/
  iterationFloor : Nat := 100000
  /-- The number of further iterations per byte of progress. -/
  iterationRatio : Nat := 3
  /-- The number of bytes shown on each side of an illegal match. -/
  contextWindow : Nat := 100
  deriving DecidableEq, Repr, Inhabited

/-- The largest number of a machine word. Products beyond it stop there. -/
def Settings.wordMax : Nat := UInt64.size - 1

/-- The number of iterations of a scan that is allowed at an offset. -/
def Settings.iterationLimit (settings : Settings) (offset : Nat) : Nat :=
  max settings.iterationFloor (min (settings.iterationRatio * offset) wordMax)

end Highlighter
