import Highlighter.Text.Replace

/-!
# Text inside HTML

`escape` writes the five characters that mean something in HTML as entities, and `unescape` reads
those entities back.
-/

namespace Highlighter.Text.Html

/-- One character as it is written in HTML text. -/
def escapeChar : Char → List Char
  | '&' => "&amp;".toList
  | '<' => "&lt;".toList
  | '>' => "&gt;".toList
  | '"' => "&quot;".toList
  | '\'' => "&#x27;".toList
  | c => [c]

/-- Text as it is written in HTML, on lists of characters. -/
def escapeChars (text : List Char) : List Char :=
  text.flatMap escapeChar

/-- The entities in the order in which they are read back. The ampersand comes last, so an
ampersand that reading produces never starts another entity. -/
def entities : List (String × Char) :=
  [("&lt;", '<'), ("&gt;", '>'), ("&quot;", '"'), ("&#x27;", '\''), ("&amp;", '&')]

/-- Reading back on lists of characters: one global replacement per entity. -/
def unescapeChars (text : List Char) : List Char :=
  entities.foldl (fun text (entity, c) => replaceAll entity.toList [c] text) text

/-- Text as it is written in HTML. -/
def escape (text : String) : String :=
  String.ofList (escapeChars text.toList)

/-- Text with the entities that `escape` writes replaced by their characters. -/
def unescape (text : String) : String :=
  String.ofList (unescapeChars text.toList)

end Highlighter.Text.Html
