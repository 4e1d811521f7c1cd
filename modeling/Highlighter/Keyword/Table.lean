import Highlighter.Keyword.Set
import Highlighter.Text.Blank
import Highlighter.Text.Case
import Highlighter.Text.Number
import Highlighter.Text.Replace
import Std.Data.HashMap

/-!
# Keyword tables

A set of keywords, flattened: what each word means. Of several entries for one word the last one
counts, in the order in which the set lists them, categories in order of their names.
-/

namespace Highlighter

/-- What a keyword means: its category and the score for finding it. -/
structure KeywordEntry where
  category : String
  relevance : Nat
  deriving DecidableEq, Repr, Inhabited

/-- Whether a category is scored but not highlighted. -/
def KeywordEntry.isHidden (entry : KeywordEntry) : Bool :=
  entry.category.toList.head? == some '_'

/-- From words to their entries. -/
structure KeywordTable where
  entries : Std.HashMap String KeywordEntry := ∅

namespace KeywordTable

/-- Words that are as common in prose as in code and score nothing by themselves. -/
def fillerWords : List String :=
  ["of", "and", "for", "in", "not", "or", "if", "then", "parent", "list", "value"]

/-- The score of a word that carries none. -/
def defaultRelevance (word : String) : Nat :=
  if fillerWords.contains (Text.lower word) then 0 else 1

/-- A word as written in a set: the word itself and the score after its bar. -/
def readWord (ignoreCase : Bool) (raw : String) : String × Option Nat :=
  let raw := if ignoreCase then Text.lower raw else raw
  match Text.splitOnce '|' raw.toList with
  | some (word, score) => (String.ofList word, Text.unsigned? 32 score)
  | none => (raw, none)

/-- Adds a word as written in a set; nothing is added for an empty word. -/
def addWord (ignoreCase : Bool) (category : String) (table : KeywordTable) (raw : String) :
    KeywordTable :=
  let (word, score) := readWord ignoreCase raw
  if word.isEmpty then table
  else ⟨table.entries.insert word ⟨category, score.getD (defaultRelevance word)⟩⟩

mutual
/-- Adds a set; `category` is where words go that stand in no category of the set. -/
def addSet (ignoreCase : Bool) (category : String) (table : KeywordTable) :
    KeywordSet → KeywordTable
  | .words text => (Text.words text).foldl (addWord ignoreCase category) table
  | .list items => items.foldl (addWord ignoreCase category) table
  | .categories entries => addCategories ignoreCase table entries

/-- Adds the sets of several categories. -/
def addCategories (ignoreCase : Bool) (table : KeywordTable) :
    List (String × KeywordSet) → KeywordTable
  | [] => table
  | (name, set) :: entries => addCategories ignoreCase (addSet ignoreCase name table set) entries
end

/-- The table of a set; words are looked up in lower case when case is ignored. -/
def ofSet (set : KeywordSet) (ignoreCase : Bool) : KeywordTable :=
  addSet ignoreCase KeywordSet.defaultCategory {} set

/-- The entry of a word, which is in lower case already when case is ignored. -/
def get? (table : KeywordTable) (word : String) : Option KeywordEntry :=
  table.entries[word]?

/-- The number of words. -/
def size (table : KeywordTable) : Nat :=
  table.entries.size

end KeywordTable

end Highlighter
