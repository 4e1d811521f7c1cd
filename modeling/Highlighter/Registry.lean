import Highlighter.Registry.Detect

/-!
# Registries

A registry holds the languages, the settings and the plugins of a program. Every operation gives
the registry after it along with its trace.
-/

namespace Highlighter

/-- What a plugin may change before a text is highlighted. A plugin that sets the result keeps the
text from being highlighted. -/
structure Request where
  code : String
  language : String
  result : Option Highlighted := none
  deriving Inhabited

/-- A plugin: it sees every request before and every result after highlighting. -/
structure Plugin where
  before : Request → Traced Request := pure
  after : Highlighted → Highlighted := id

/-- Languages, settings, plugins and the warnings that have been given. -/
structure Registry where
  catalog : Catalog := {}
  settings : Settings := {}
  plugins : List Plugin := []
  warned : List String := []

namespace Registry

/-- A registry without languages. -/
def empty : Registry := {}

/-- What highlighting needs of a registry. -/
def workshop (registry : Registry) : Workshop :=
  ⟨registry.catalog, registry.settings⟩

/-- Replaces the settings. -/
def configure (registry : Registry) (settings : Settings) : Registry :=
  { registry with settings := settings }

/-- Adds a plugin after the others. -/
def addPlugin (registry : Registry) (plugin : Plugin) : Registry :=
  { registry with plugins := registry.plugins ++ [plugin] }

/-- Lets names lead to a language. -/
def addAliases (registry : Registry) (names : List String) (language : String) : Registry :=
  { registry with catalog := registry.catalog.addAliases names language }

/-- Removes a language and every name that leads to it. -/
def unregister (registry : Registry) (name : String) : Registry :=
  { registry with catalog := registry.catalog.erase name }

/-- The language that a name leads to. -/
def find? (registry : Registry) (name : String) : Option Language :=
  (registry.catalog.find? name).map (·.2)

/-- The names of the languages, in the order in which they were first registered. -/
def names (registry : Registry) : List String :=
  registry.catalog.names

/-- Whether a name leads to a language that takes part in detection. -/
def takesPart (registry : Registry) (name : String) : Bool :=
  registry.catalog.takesPart name

/-- Runs a computation with the registry's memory of warnings, and keeps what it learned. -/
def run {α : Type} (registry : Registry) (computation : Traced α) : α × Registry × Trace :=
  let (a, trace) := computation.run { warned := registry.warned }
  (a, { registry with
    warned := trace.warned
    catalog := registry.catalog.start trace.started }, trace)

/-- The language that takes the place of one that cannot be registered. Its lexer is reported as
built when it is first used. -/
def placeholder (name : String) : Language :=
  let grammar := Grammar.placeholder name
  { grammar := grammar
    lexer := {
      name := name, ignoreCase := false, scopeAliases := [], modes := #[default] }
    isStarted := false }

/-- Builds the lexer of a grammar that is registered under a name. -/
def buildLanguage (name : String) (grammar : Except Fault Grammar) : TracedExcept Language := do
  let grammar := { (← grammar) with name := name }
  match grammar.compile with
  | .error misuse => throw (.configuration name misuse)
  | .ok lexer =>
    Trace.reportBuilt name lexer.modeCount
    return { grammar := grammar, lexer := lexer }

/-- Registers a grammar under a name, with its aliases. A grammar that cannot be had or built is
reported, and a placeholder takes its place. -/
def register (registry : Registry) (name : String) (grammar : Except Fault Grammar) :
    Traced (Except Fault Unit × Registry) := do
  match ← (buildLanguage name grammar).run with
  | .ok language =>
    let catalog := (registry.catalog.insert name language).addAliases language.grammar.aliases name
    return (.ok (), { registry with catalog := catalog })
  | .error fault =>
    Trace.log .error
      ("language definition for `" ++ name ++ "` could not be registered: " ++ fault.message)
    let catalog := registry.catalog.insert name (placeholder name)
    return (.error fault, { registry with catalog := catalog })

/-- Registers a grammar under its own name. -/
def registerGrammar (registry : Registry) (grammar : Grammar) :
    Traced (Except Fault Unit × Registry) :=
  registry.register grammar.name (.ok grammar)

/-- Registers grammars one after the other; those that cannot be built leave placeholders. -/
def registerAll (registry : Registry) : List Grammar → Traced Registry
  | [] => return registry
  | grammar :: grammars => do
    let (outcome, registry) ← registry.registerGrammar grammar
    if let .error fault := outcome then
      Trace.log .debug ("built-in grammar kept as placeholder: " ++ fault.message)
    registry.registerAll grammars

/-- Lets the plugins change a request, one after the other. -/
def askPlugins (request : Request) : List Plugin → Traced Request
  | [] => return request
  | plugin :: plugins => do askPlugins (← plugin.before request) plugins

/-- Highlights a text in a named language. -/
def highlight (registry : Registry) (code language : String) (ignoreIllegals : Bool) :
    TracedExcept Highlighted := do
  let request ← (askPlugins { code := code, language := language } registry.plugins : Traced _)
  let result ← match request.result with
    | some result => pure result
    | none => do
      if (registry.find? request.language).isNone then
        Trace.log .error ("could not find the language `" ++ request.language ++ "`")
        throw (.unknownLanguage request.language)
      registry.workshop.highlight request.language request.code
        { ignoreIllegals := ignoreIllegals, safeMode := registry.settings.safeMode }
  return registry.plugins.foldl (fun result plugin => plugin.after result) result

/-- Highlights a text in the language that scores best. -/
def detect (registry : Registry) (code : String) (asked : Option (List String)) :
    Traced Highlighted :=
  registry.workshop.detect code asked

end Registry

end Highlighter
