import Highlighter.CommandLine.Options
import Highlighter.Languages
import Highlighter.Stored

/-!
# The command line

Highlights a file or the standard input in a named language or in the one that scores best, or
lists the languages. What the program reads is given by its surroundings; what it does is a status
and what it writes to its two streams.
-/

namespace Highlighter.CommandLine

/-- Where the program runs. -/
structure Surroundings (m : Type → Type) where
  /-- The user's folder. -/
  home : Option String
  file : String → m (Except FileError String)
  input : m (Except FileError String)

/-- What the program has written to its streams. -/
structure Console where
  out : String := ""
  err : String := ""
  deriving DecidableEq, Repr, Inhabited

/-- What the program did. -/
structure Outcome where
  status : Nat
  console : Console
  deriving DecidableEq, Repr, Inhabited

/-- A run of the program, which writes to the console and ends early at a fault. -/
abbrev Run (m : Type → Type) := ExceptT Fault (StateT Console m)

/-- A line of the log as it is shown, with its level in five columns. -/
def logText (line : LogLine) : String :=
  let name := line.level.name
  "[" ++ name ++ String.ofList (List.replicate (5 - name.length) ' ') ++ "] " ++ line.text ++ "\n"

/-- Whether a line is shown: errors and warnings always, all else on demand. -/
def isShown (isVerbose : Bool) (line : LogLine) : Bool :=
  isVerbose || line.level != .debug

variable {m : Type → Type} [Monad m]

/-- Writes to the standard output. -/
def putOut (text : String) : Run m Unit :=
  modify fun console => { console with out := console.out ++ text }

/-- Writes to the standard error stream. -/
def putErr (text : String) : Run m Unit :=
  modify fun console => { console with err := console.err ++ text }

/-- Shows lines of the log, given the latest first. -/
def putLog (isVerbose : Bool) (lines : List LogLine) : Run m Unit :=
  putErr (String.join ((lines.reverse.filter (isShown isVerbose)).map logText))

/-- Carries out a computation and shows its log. -/
def carryOut {α : Type} (isVerbose : Bool) (registry : Registry) (computation : Traced α) :
    Run m α := do
  let (a, trace) := computation.run { warned := registry.warned }
  putLog isVerbose trace.lines
  return a

/-- The settings of the user's file, with those of the options in their place. -/
def chooseSettings (surroundings : Surroundings m) (options : Options) : Run m Settings := do
  let settings ← match surroundings.home with
    | none => pure {}
    | some home =>
      let path := Settings.filePath home
      let file ← surroundings.file path
      carryOut options.isVerbose .empty (Settings.load path file)
  return { settings with
    classPrefix := options.classPrefix.getD settings.classPrefix
    safeMode := settings.safeMode && !options.isStrict }

/-- Loads grammars, one after the other. -/
def loadGrammars (surroundings : Surroundings m) (options : Options) :
    Registry → List String → Run m Registry
  | registry, [] => return registry
  | registry, path :: paths => do
    let file ← surroundings.file path
    let (outcome, registry) ← carryOut options.isVerbose registry (registry.loadGrammar path file)
    let name ← ExceptT.mk (pure outcome)
    putLog options.isVerbose [⟨.debug, "loaded grammar `" ++ name ++ "` from " ++ path⟩]
    loadGrammars surroundings options registry paths

/-- A line for a language. -/
def listLine (registry : Registry) (name : String) : String :=
  name ++ (if registry.takesPart name then "" else " (no auto-detect)") ++ "\n"

/-- A line for a result of detection. -/
def scoreLine (label : String) (result : Highlighted) : String :=
  label ++ ": " ++ result.language.getD "none" ++
    " (relevance " ++ toString result.relevance ++ ")\n"

/-- Highlights the text in the language that scores best, and says which one that is. -/
def detect (options : Options) (registry : Registry) (code : String) : Run m Highlighted := do
  let result ← carryOut options.isVerbose registry (registry.detect code none)
  putErr (scoreLine "language" result)
  if let some second := result.secondBest then
    putErr (scoreLine "runner-up" second)
  return result

/-- Highlights the text in a named language. -/
def highlightAs (options : Options) (registry : Registry) (code language : String) :
    Run m Highlighted := do
  let outcome ← carryOut options.isVerbose registry
    (registry.highlight code language !options.isStrict).run
  ExceptT.mk (pure outcome)

/-- Does what the options ask for. -/
def work (surroundings : Surroundings m) (options : Options) : Run m Unit := do
  let settings ← chooseSettings surroundings options
  let (registry, trace) := Registry.builtIn
  putLog options.isVerbose trace.lines
  let registry ← loadGrammars surroundings options (registry.configure settings) options.grammars
  if options.isList then
    putOut (String.join (registry.names.map (listLine registry)))
  else
    let file ← match options.file with
      | some path => surroundings.file path
      | none => surroundings.input
    let code ← ExceptT.mk (pure (file.mapError Fault.file))
    let result ← match options.language with
      | some language => highlightAs options registry code language
      | none => detect options registry code
    if let some message := result.errorRaised then
      putLog options.isVerbose [⟨.warn, "highlighting fell back to plain text: " ++ message⟩]
    putOut (result.value ++ "\n")

/-- Runs the program. -/
def run (surroundings : Surroundings m) (arguments : List String) : m Outcome := do
  match Options.parse arguments with
  | .error complaint => return ⟨2, { err := complaint.text }⟩
  | .ok .version => return ⟨0, { out := versionText }⟩
  | .ok .help => return ⟨0, { out := helpText (surroundings.home.map Settings.filePath) }⟩
  | .ok (.work options) =>
    let (outcome, console) ← (work surroundings options).run.run {}
    match outcome with
    | .ok () => return ⟨0, console⟩
    | .error fault =>
      return ⟨1, { console with err := console.err ++ "Error: " ++ fault.message ++ "\n" }⟩

end Highlighter.CommandLine
