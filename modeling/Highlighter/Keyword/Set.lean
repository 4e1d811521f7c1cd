import Highlighter.SortedEntries

/-!
# Keywords as a grammar gives them

A grammar lists keywords in a string, in a list, or by category. Each word may carry a score after
a bar, as in `for|2`.
-/

namespace Highlighter

/-- A set of keywords. -/
inductive KeywordSet where
  /-- Words with blanks between them. -/
  | words (text : String)
  | list (items : List String)
  /-- Sets by category, in order of the categories' names. -/
  | categories (entries : List (String × KeywordSet))
  deriving Repr, Inhabited

namespace KeywordSet

/-- The category of words that stand in none. -/
def defaultCategory : String := "keyword"

/-- Files words under a category, in the place of what stood under it. A set without categories
becomes the default category. -/
def withCategory (set : KeywordSet) (category text : String) : KeywordSet :=
  let entries := match set with
    | .categories entries => entries
    | other => [(defaultCategory, other)]
  .categories (SortedEntries.insert category (.words text) entries)

end KeywordSet

/-- The keywords of a mode, and the pattern that finds the words to look up. -/
structure Keywords where
  pattern : Option String := none
  set : KeywordSet
  deriving Repr, Inhabited

namespace Keywords

/-- The key under which a pattern may stand among the categories. -/
def patternKey : String := "$pattern"

/-- Keywords from a set: a string under the pattern's key is the pattern, and nothing stays under
that key. -/
def ofSet : KeywordSet → Keywords
  | .categories entries =>
    let pattern := match entries.lookup patternKey with
      | some (.words source) => some source
      | _ => none
    { pattern := pattern, set := .categories (entries.filter (·.1 != patternKey)) }
  | set => { set := set }

/-- Words with blanks between them, in the default category. -/
def words (text : String) : Keywords := ofSet (.words text)

/-- A list of words in the default category. -/
def list (items : List String) : Keywords := ofSet (.list items)

/-- No words, by category. -/
def byCategory : Keywords := ofSet (.categories [])

/-- Files words under a category. -/
def category (keywords : Keywords) (name text : String) : Keywords :=
  { keywords with set := keywords.set.withCategory name text }

/-- Sets the pattern that finds words. -/
def withPattern (keywords : Keywords) (source : String) : Keywords :=
  { keywords with pattern := some source }

end Keywords

end Highlighter
