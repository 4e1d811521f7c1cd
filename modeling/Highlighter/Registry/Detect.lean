import Highlighter.Registry.Rank
import Highlighter.Scan.Run

/-!
# Highlighting with a catalogue

Highlighting by name, and detection of the language by relevance. Embedded languages make these
call each other; the depth to which they may nest bounds the calls.
-/

namespace Highlighter

/-- A catalogue with the settings for using it. -/
structure Workshop where
  catalog : Catalog
  settings : Settings
  deriving Inhabited

namespace Workshop

/-- Highlights a text in a named language with the given options, starting inside modes. -/
abbrev Highlight := String → String → Scan.Options → List Frame → TracedExcept Highlighted

/-- The lexer of a language, reported as built when it is used for the first time. -/
def start (key : String) (language : Language) : Traced Lexer := do
  if !language.isStarted && !(← get).started.contains key then
    modify fun trace => { trace with started := key :: trace.started }
    Trace.reportBuilt language.lexer.name language.lexer.modeCount
  return language.lexer

/-- The languages to try: those asked for, else those of the settings, else all of them. -/
def candidates (workshop : Workshop) (asked : Option (List String)) : List String :=
  (asked <|> workshop.settings.languages).getD workshop.catalog.names

/-- Highlights a text in every candidate that takes part. -/
def tryAll (workshop : Workshop) (highlight : Highlight) (code : String) :
    List String → Traced (List Highlighted)
  | [] => return []
  | name :: names => do
    if workshop.catalog.takesPart name then
      match ← (highlight name code { ignoreIllegals := false, safeMode := true } []).run with
      | .ok result => return result :: (← workshop.tryAll highlight code names)
      | .error fault =>
        Trace.log .debug ("skipping `" ++ name ++ "` in auto-detection: " ++ fault.message)
        workshop.tryAll highlight code names
    else workshop.tryAll highlight code names

/-- The log line for a ranked result. -/
def scoreLine (result : Highlighted) : String :=
  "auto-detect: " ++ result.language.getD "plaintext" ++ " scored " ++ toString result.relevance ++
    (if result.isIllegal then " (illegal)" else "")

/-- Highlights a text in the language that scores best. Plain text always competes. -/
def detectWith (workshop : Workshop) (highlight : Highlight) (code : String)
    (asked : Option (List String)) : Traced Highlighted := do
  let plain := Highlighted.plain none code workshop.settings.classPrefix
  let results ← workshop.tryAll highlight code (workshop.candidates asked)
  let ranked := Rank.rank workshop.catalog (plain :: results)
  for result in ranked do
    Trace.log .debug (scoreLine result)
  match ranked with
  | [] => return plain
  | best :: rest => return { best with secondBest := rest.head? }

/-- Highlights a text in a named language; embedded languages nest to the given depth. -/
def highlightWithin (workshop : Workshop) : (depth : Nat) → Highlight
  | 0, name, _, _, _ => throw (.engine name .tooDeep none)
  | depth + 1, name, code, options, frames => do
    match workshop.catalog.find? name with
    | none => throw (.unknownLanguage name)
    | some (key, language) =>
      let lexer ← (start key language : Traced _)
      let env : Scan.Env := {
        lexer := lexer
        language := language.grammar.name
        text := code.toList.toArray
        options := options
        settings := workshop.settings }
      let inner := workshop.highlightWithin depth
      let nested : Scan.Nested := {
        isKnown := fun name => (workshop.catalog.find? name).isSome
        highlight := fun name code frames =>
          inner name code { ignoreIllegals := true, safeMode := options.safeMode } frames
        detect := workshop.detectWith inner }
      Scan.highlight env nested frames

/-- A depth that embedded languages reach only when they nest without end. -/
def depth (workshop : Workshop) (code : String) : Nat :=
  (workshop.catalog.languages.length + 1) * (code.length + 2)

/-- Highlights a text in a named language. -/
def highlight (workshop : Workshop) (name code : String) (options : Scan.Options) :
    TracedExcept Highlighted :=
  workshop.highlightWithin (workshop.depth code) name code options []

/-- Highlights a text in the language that scores best. -/
def detect (workshop : Workshop) (code : String) (asked : Option (List String)) :
    Traced Highlighted :=
  workshop.detectWith (workshop.highlightWithin (workshop.depth code)) code asked

end Workshop

end Highlighter
