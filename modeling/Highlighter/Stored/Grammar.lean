import Highlighter.Fault
import Highlighter.Grammar
import Highlighter.Stored.Mode
import Highlighter.Toml.Document

/-!
# Grammars in documents

A grammar is a document with the properties of the language and the fields of its top mode next to
each other.
-/

namespace Highlighter

namespace Stored

open Toml (Value Table Problem)

/-- The texts of a table of texts. -/
def textEntries? (value : Value) : Option (List (String × String)) := do
  (← value.entries?).mapM fun (key, value) => do return (key, ← value.string?)

/-- The value of a key that may be missing. -/
def optional {α : Type} (entries : Table) (key : String) (read : Value → Option α) :
    Except Problem (Option α) :=
  match entries.lookup key with
  | some value => some <$> need key (read value)
  | none => .ok none

/-- The grammar of a table. -/
def grammar (entries : Table) : Except Problem Grammar := do
  let name ← optional entries "name" Value.string?
  let aliases ← optional entries "aliases" Value.strings?
  let caseInsensitive ← optional entries "case_insensitive" Value.boolean?
  let keywordPattern ← optional entries "keyword_pattern" Value.string?
  let scopeAliases ← optional entries "class_name_aliases" textEntries?
  let disableAutodetect ← optional entries "disable_autodetect" Value.boolean?
  let supersetOf ← optional entries "superset_of" Value.string?
  let root ← rawMode entries
  return {
    name := name.getD ""
    aliases := aliases.getD []
    caseInsensitive := caseInsensitive.getD false
    keywordPattern := keywordPattern
    scopeAliases := scopeAliases.getD []
    disableAutodetect := disableAutodetect.getD false
    supersetOf := supersetOf
    root := root }

/-- The name of a file without its folder and its last extension. A full stop at the start of the
name starts no extension. -/
def fileStem (path : String) : String :=
  let name := (path.toList.reverse.takeWhile (· != '/')).reverse
  let stem := (name.reverse.dropWhile (· != '.')).tail.reverse
  String.ofList (if stem.isEmpty then name else stem)

end Stored

namespace Grammar

/-- Reads a grammar. -/
def ofDocument (document : String) : Except Fault Grammar :=
  match Toml.read document >>= Stored.grammar with
  | .ok grammar => .ok grammar
  | .error problem => .error (.toml problem)

/-- Reads a grammar from a file, whose name names a grammar that does not say its own. -/
def ofFile (path : String) (file : Except FileError String) : Except Fault Grammar :=
  match file with
  | .error error => .error (.file error)
  | .ok document => do
    let grammar ← ofDocument document
    return if grammar.name.isEmpty then { grammar with name := Stored.fileStem path } else grammar

end Grammar

end Highlighter
