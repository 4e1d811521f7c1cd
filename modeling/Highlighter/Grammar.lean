import Highlighter.Mode

/-!
# Grammars

A grammar is a named tree of modes with the properties of the language as a whole.
-/

namespace Highlighter

/-- A language definition. -/
structure Grammar where
  name : String := ""
  aliases : List String := []
  caseInsensitive : Bool := false
  /-- The pattern that finds words, for modes whose keywords have none. -/
  keywordPattern : Option String := none
  /-- Scopes that are emitted in the place of others. -/
  scopeAliases : List (String × String) := []
  /-- Keeps the language out of automatic detection. -/
  disableAutodetect : Bool := false
  /-- The language that this one extends. -/
  supersetOf : Option String := none
  root : RawMode := default
  deriving Inhabited

namespace Grammar

/-- The grammar that stands in for one that could not be registered. -/
def placeholder (name : String) : Grammar :=
  { name := name, disableAutodetect := true }

end Grammar

end Highlighter
