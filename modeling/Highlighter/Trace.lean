import Highlighter.Fault
import Highlighter.Hook

/-!
# Traces

What a call does beside giving its result: it writes log lines, asks hooks, gives warnings once
only, and builds lexers when they are used first.
-/

namespace Highlighter

/-- How urgent a log line is. -/
inductive LogLevel where
  | error
  | warn
  | debug
  deriving DecidableEq, Repr, Inhabited

/-- The name of a level. -/
def LogLevel.name : LogLevel → String
  | .error => "ERROR"
  | .warn => "WARN"
  | .debug => "DEBUG"

/-- A line of the log. -/
structure LogLine where
  level : LogLevel
  text : String
  deriving DecidableEq, Repr, Inhabited

/-- A call of a traced hook. -/
structure HookCall where
  edge : Edge
  info : MatchInfo
  decision : Decision
  deriving Repr, Inhabited

/-- What has happened so far; lines and calls are listed the latest first. -/
structure Trace where
  lines : List LogLine := []
  calls : List HookCall := []
  /-- The warnings that have been given. -/
  warned : List String := []
  /-- The names of languages whose lexers were used for the first time. -/
  started : List String := []
  deriving Inhabited

/-- A computation that leaves a trace. -/
abbrev Traced := StateM Trace

/-- A computation that leaves a trace and may fail. -/
abbrev TracedExcept := ExceptT Fault Traced

namespace Trace

/-- Writes a log line. -/
def log (level : LogLevel) (text : String) : Traced Unit :=
  modify fun trace => { trace with lines := ⟨level, text⟩ :: trace.lines }

/-- Gives a warning, unless it has been given before. -/
def warnOnce (text : String) : Traced Unit := do
  if !(← get).warned.contains text then
    modify fun trace => { trace with warned := text :: trace.warned }
    log .warn text

/-- Asks a hook. -/
def ask (edge : Edge) (hook : Hook) (info : MatchInfo) (data : FrameData) :
    Traced (Decision × FrameData) := do
  let (decision, data) := hook.call info data
  if hook.isTraced then
    modify fun trace => { trace with calls := ⟨edge, info, decision⟩ :: trace.calls }
  return (decision, data)

/-- Reports that a lexer has been built. -/
def reportBuilt (name : String) (modeCount : Nat) : Traced Unit :=
  log .debug ("compiled grammar `" ++ name ++ "` into " ++ toString modeCount ++ " modes")

end Trace

end Highlighter
