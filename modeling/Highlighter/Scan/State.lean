import Highlighter.Lexer
import Highlighter.Result
import Highlighter.Settings
import Highlighter.Trace

/-!
# The state of a scan

A scan walks a text with a stack of active modes. Text between structural events is collected in a
buffer, which is flushed into the token tree whenever the structure changes.
-/

namespace Highlighter.Scan

/-- How a scan treats illegal matches and faults. -/
structure Options where
  ignoreIllegals : Bool
  safeMode : Bool
  deriving DecidableEq, Repr, Inhabited

/-- What stays the same during a scan. -/
structure Env where
  lexer : Lexer
  language : String
  text : Array Char
  options : Options
  settings : Settings

/-- The services that a scan needs for embedded languages. -/
structure Nested where
  /-- Whether a name leads to a language. -/
  isKnown : String → Bool
  /-- Highlights a text in a named language, starting inside the given modes. -/
  highlight : String → String → List Frame → TracedExcept Highlighted
  /-- Highlights a text in the best of several languages. -/
  detect : String → Option (List String) → Traced Highlighted

/-- What changes during a scan. -/
structure State where
  /-- The active modes above the top mode, the innermost first. -/
  frames : List Frame := []
  tree : TokenTree := {}
  /-- The text since the last structural event. -/
  buffer : String := ""
  relevance : Nat := 0
  /-- How often each keyword has been found. -/
  hits : Std.HashMap String Nat := ∅
  /-- The modes in which the text of each embedded language ended. -/
  continuations : List (String × List Frame) := []
  index : Nat := 0
  iterations : Nat := 0
  /-- The kind and the position of the match before. -/
  lastMatch : Option (RuleKind × Nat) := none
  /-- The first rule to try next. -/
  cursor : Nat := 0
  /-- The next search keeps the cursor. -/
  resume : Bool := false

/-- The text between two positions. -/
def Env.slice (env : Env) (start stop : Nat) : String :=
  Regex.Span.text ⟨start, stop⟩ env.text

namespace State

/-- The innermost mode. -/
def top (env : Env) (state : State) : LexerMode :=
  env.lexer.mode ((state.frames.head?.map (·.mode)).getD Lexer.root)

/-- Adds text to the buffer. -/
def addToBuffer (content : String) (state : State) : State :=
  { state with buffer := state.buffer ++ content }

/-- Moves the character at a position into the buffer. -/
def takeChar (env : Env) (position : Nat) (state : State) : State :=
  match env.text[position]? with
  | some c => state.addToBuffer (String.singleton c)
  | none => state

/-- Starts inside the given modes, with their scopes open. -/
def restore (env : Env) (frames : List Frame) : State :=
  if frames.all (·.mode < env.lexer.modeCount) then
    { frames := frames
      tree := frames.reverse.foldl (fun tree frame =>
        match (env.lexer.mode frame.mode).scope with
        | some scope => tree.openNode (env.lexer.scopeName scope)
        | none => tree) TokenTree.empty }
  else {}

/-- Leaves the innermost mode: its scope closes and its score counts. -/
def popFrame (env : Env) (state : State) : State :=
  match state.frames with
  | [] => state
  | frame :: outer =>
    let mode := env.lexer.mode frame.mode
    { state with
      frames := outer
      tree := if mode.scope.isSome then state.tree.closeNode else state.tree
      relevance :=
        if !frame.isCredited && !mode.skip && mode.subLanguage.isNone then
          state.relevance + mode.relevance
        else state.relevance }

/-- Leaves the `count` innermost modes. -/
def popFrames (env : Env) : Nat → State → State
  | 0, state => state
  | count + 1, state => popFrames env count (state.popFrame env)

end State

/-- A fault of a scan. -/
def Env.fault (env : Env) (cause : ScanFault) (rule : Option String) : Fault :=
  .engine env.language cause rule

end Highlighter.Scan
