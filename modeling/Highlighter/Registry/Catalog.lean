import Highlighter.Lexer.Build
import Highlighter.Settings
import Highlighter.Text.Case

/-!
# Catalogues

A catalogue holds languages under their names in lower case, in the order in which they were first
added, and further names that lead to them. Every language in it comes with its lexer.
-/

namespace Highlighter

/-- A language of a catalogue. A lexer that is not started is reported as built when it is first
used. -/
structure Language where
  grammar : Grammar
  lexer : Lexer
  isStarted : Bool := true
  deriving Inhabited

/-- Languages and the names that lead to them. -/
structure Catalog where
  languages : List (String × Language) := []
  /-- Further names in lower case, each with the name it leads to. -/
  aliases : List (String × String) := []
  deriving Inhabited

namespace Catalog

/-- Sets the value of a key in its place, or adds it at the end. -/
def put {β : Type} (key : String) (value : β) : List (String × β) → List (String × β)
  | [] => [(key, value)]
  | (other, old) :: rest =>
    if other == key then (key, value) :: rest else (other, old) :: put key value rest

/-- Adds a language under a name, in the place of one that had it. -/
def insert (catalog : Catalog) (name : String) (language : Language) : Catalog :=
  { catalog with languages := put (Text.lower name) language catalog.languages }

/-- Lets a name lead to a language. -/
def addAlias (catalog : Catalog) (name language : String) : Catalog :=
  { catalog with aliases := put (Text.lower name) (Text.lower language) catalog.aliases }

/-- Lets several names lead to a language. -/
def addAliases (catalog : Catalog) (names : List String) (language : String) : Catalog :=
  names.foldl (·.addAlias · language) catalog

/-- Removes a language and every name that leads to it. -/
def erase (catalog : Catalog) (name : String) : Catalog :=
  let key := Text.lower name
  { languages := catalog.languages.filter (·.1 != key)
    aliases := catalog.aliases.filter (·.2 != key) }

/-- The key and the language that a name leads to: by its own name first. -/
def find? (catalog : Catalog) (name : String) : Option (String × Language) :=
  let key := Text.lower name
  match catalog.languages.lookup key with
  | some language => some (key, language)
  | none => do
    let target ← catalog.aliases.lookup key
    let language ← catalog.languages.lookup target
    return (target, language)

/-- The names of the languages. -/
def names (catalog : Catalog) : List String :=
  catalog.languages.map (·.1)

/-- Whether a name leads to a language that takes part in detection. -/
def takesPart (catalog : Catalog) (name : String) : Bool :=
  match catalog.find? name with
  | some (_, language) => !language.grammar.disableAutodetect
  | none => false

/-- Whether `language` declares to extend the language named `base`. -/
def isExtension (catalog : Catalog) (language base : String) : Bool :=
  match catalog.find? language with
  | some (_, entry) =>
    match entry.grammar.supersetOf with
    | some declared => declared.map Char.toLower == base.map Char.toLower
    | none => false
  | none => false

/-- Marks languages as started. -/
def start (catalog : Catalog) (keys : List String) : Catalog :=
  { catalog with languages := catalog.languages.map fun (key, language) =>
      (key, if keys.contains key then { language with isStarted := true } else language) }

end Catalog

end Highlighter
