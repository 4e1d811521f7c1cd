import Highlighter.Settings
import Highlighter.Stored.Grammar
import Highlighter.Trace

/-!
# Settings in documents

Settings are a document with one line for each of them. Reading passes over what it does not know
and leaves what is missing as it is by default; writing gives a document that reads as the same
settings.
-/

namespace Highlighter

namespace Stored

open Toml (Value Table Problem)

/-- The largest number of keyword hits. -/
def maxHits : Nat := UInt32.size - 1

/-- The settings of a table. -/
def settings (entries : Table) : Except Problem Settings := do
  let word := Value.natural? Settings.wordMax
  let classPrefix ← optional entries "class-prefix" Value.string?
  let safeMode ← optional entries "safe-mode" Value.boolean?
  let languages ← optional entries "languages" Value.strings?
  let maxKeywordHits ← optional entries "max-keyword-hits" (Value.natural? maxHits)
  let iterationFloor ← optional entries "iteration-floor" word
  let iterationRatio ← optional entries "iteration-ratio" word
  let contextWindow ← optional entries "context-window" word
  let base : Settings := {}
  return {
    classPrefix := classPrefix.getD base.classPrefix
    safeMode := safeMode.getD base.safeMode
    languages := languages
    maxKeywordHits := maxKeywordHits.getD base.maxKeywordHits
    iterationFloor := iterationFloor.getD base.iterationFloor
    iterationRatio := iterationRatio.getD base.iterationRatio
    contextWindow := contextWindow.getD base.contextWindow }

/-- A boolean as it is written. -/
def writeBoolean (value : Bool) : String :=
  if value then "true" else "false"

/-- A number as it is written, if a document can hold it. -/
def writeNumber (value : Nat) : Except Problem String :=
  if value ≤ Toml.Number.maximum then .ok (toString value) else .error .outOfRange

/-- An array of texts as it is written, on one line. -/
def writeTexts (texts : List String) : String :=
  "[" ++ ", ".intercalate (texts.map Toml.Quoted.write) ++ "]"

/-- A line of a document. -/
def line (key value : String) : String :=
  key ++ " = " ++ value ++ "\n"

/-- The lines that every file of settings starts with. -/
def heading : String :=
  "# glint configuration\n# Generated automatically\n\n"

end Stored

namespace Settings

open Stored (line writeBoolean writeNumber writeTexts)

/-- Reads settings. -/
def ofDocument (document : String) : Except Fault Settings :=
  match Toml.read document >>= Stored.settings with
  | .ok settings => .ok settings
  | .error problem => .error (.toml problem)

/-- The lines of settings in a document. -/
def lines (settings : Settings) : Except Toml.Problem (List String) := do
  let hits ← writeNumber settings.maxKeywordHits
  let floor ← writeNumber settings.iterationFloor
  let ratio ← writeNumber settings.iterationRatio
  let window ← writeNumber settings.contextWindow
  return [line "class-prefix" (Toml.Quoted.write settings.classPrefix),
      line "safe-mode" (writeBoolean settings.safeMode)]
    ++ (settings.languages.map fun names => line "languages" (writeTexts names)).toList
    ++ [line "max-keyword-hits" hits, line "iteration-floor" floor,
      line "iteration-ratio" ratio, line "context-window" window]

/-- The document of settings. -/
def toDocument (settings : Settings) : Except Fault String :=
  match settings.lines with
  | .ok lines => .ok (Stored.heading ++ String.join lines)
  | .error problem => .error (.tomlOutput problem)

/-- The name of the file of settings in a user's folder. -/
def fileName : String := ".glint.toml"

/-- The path of the file of settings. -/
def filePath (home : String) : String :=
  if home.isEmpty || home.endsWith "/" then home ++ fileName else home ++ "/" ++ fileName

/-- The settings of a file. A file that cannot be read gives the default settings, and so does one
that is no document of settings, with a warning. -/
def load (path : String) (file : Except FileError String) : Traced Settings := do
  match file with
  | .error _ => return {}
  | .ok document =>
    match ofDocument document with
    | .ok settings => return settings
    | .error fault =>
      Trace.log .warn ("ignoring " ++ path ++ ": " ++ fault.message)
      return {}

end Settings

end Highlighter
