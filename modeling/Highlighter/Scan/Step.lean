import Highlighter.Scan.Flush

/-!
# One match

What a scan does with one match: it enters a mode, leaves modes, stops at illegal text, or takes
the match as text. Each of these says how far the scan advances from the start of the match.
-/

namespace Highlighter.Scan

/-- The matched text. -/
def Env.lexeme (env : Env) (found : RuleMatch) : String :=
  found.span.text env.text

/-- The length of the matched text. -/
def width (found : RuleMatch) : Nat :=
  found.span.stop - found.span.start

/-- What hooks are told about a match. -/
def Env.info (env : Env) (found : RuleMatch) : MatchInfo :=
  { input := env.text, index := found.index, groups := MatchInfo.trim found.groups }

/-- Enters a mode: its scope opens, and the text or the segments of the begin match get theirs. -/
def enter (env : Env) (number : Nat) (found : RuleMatch) (data : FrameData) (state : State) :
    State :=
  let mode := env.lexer.mode number
  let state := match mode.scope with
    | some scope => { state with tree := state.tree.openNode (env.lexer.scopeName scope) }
    | none => state
  let state := match mode.beginScope with
    | some (.whole scope) =>
      { state with
        tree := state.tree.addScoped state.buffer (env.lexer.scopeName scope)
        buffer := "" }
    | some (.segments segments) => { addSegments env found state segments with buffer := "" }
    | none => state
  { state with frames := { mode := number, data := data } :: state.frames }

/-- Asks hooks in order until one ignores the match. -/
def askAll (info : MatchInfo) : List Hook → FrameData → Traced (Decision × FrameData)
  | [], data => return (.accept, data)
  | hook :: hooks, data => do
    match ← Trace.ask .begin hook info data with
    | (.ignore, data) => return (.ignore, data)
    | (.accept, data) => askAll info hooks data

/-- Goes on after an ignored match: with the later rules, or, when every rule has been tried, one
character further. -/
def ignore (env : Env) (index : Nat) (state : State) : State × Nat :=
  if state.cursor = 0 then (state.takeChar env index, 1) else ({ state with resume := true }, 0)

/-- Handles a begin match. -/
def begin (env : Env) (nested : Nested) (number : Nat) (found : RuleMatch) (state : State) :
    TracedExcept (State × Nat) := do
  let mode := env.lexer.mode number
  let lexeme := env.lexeme found
  let hooks := mode.beforeBegin.toList ++ mode.onBegin.toList
  let (decision, data) ← (askAll (env.info found) hooks {} : Traced _)
  if decision = .ignore then return ignore env found.index state
  let state ←
    if mode.skip then pure (state.addToBuffer lexeme)
    else do
      let state := if mode.excludeBegin then state.addToBuffer lexeme else state
      let state ← flush env nested state
      pure (if !mode.returnBegin && !mode.excludeBegin then state.addToBuffer lexeme else state)
  return (enter env number found data state, if mode.returnBegin then 0 else width found)

/-- The number of frames to leave when the first of `frames` has ended: modes that end the mode
around them are left with it. -/
def countEnded (env : Env) : List Frame → Nat
  | [] => 0
  | [_] => 1
  | frame :: outer =>
    if (env.lexer.mode frame.mode).endsParent then countEnded env outer + 1 else 1

/-- Whether the end pattern of a mode matches at a position. -/
def endsAt (mode : LexerMode) (text : Array Char) (position : Nat) : Bool :=
  match mode.endRegex with
  | some regex => (regex.matchAt? text position).isSome
  | none => false

/-- Finds the frames that an end match leaves: the innermost frame ends itself, or it ends with the
mode around it and that one does. The result has the frames with their data brought up to date,
and how many of them are left. -/
def findEnded (env : Env) (found : RuleMatch) : List Frame → Traced (List Frame × Option Nat)
  | [] => return ([], none)
  | frame :: outer => do
    let mode := env.lexer.mode frame.mode
    let (accepted, frame) ←
      if endsAt mode env.text found.index then
        match mode.onEnd with
        | some hook => do
          let (decision, data) ← Trace.ask .finish hook (env.info found) frame.data
          pure (decision == .accept, { frame with data := data })
        | none => pure (true, frame)
      else pure (false, frame)
    if accepted then return (frame :: outer, some (countEnded env (frame :: outer)))
    else if mode.endsWithParent then
      let (outer, count) ← findEnded env found outer
      return (frame :: outer, count.map (· + 1))
    else return (frame :: outer, none)

/-- Puts the text of an end match in its place, as the innermost mode says. -/
def placeEnd (env : Env) (nested : Nested) (found : RuleMatch) (state : State) :
    TracedExcept State := do
  let mode := state.top env
  let lexeme := env.lexeme found
  match mode.endScope with
  | some (.whole scope) =>
    let state ← flush env nested state
    return { state with tree := state.tree.addScoped lexeme (env.lexer.scopeName scope) }
  | some (.segments segments) => return addSegments env found (← flush env nested state) segments
  | none =>
    if mode.skip then return state.addToBuffer lexeme
    else do
      let state :=
        if !mode.returnEnd && !mode.excludeEnd then state.addToBuffer lexeme else state
      let state ← flush env nested state
      return if mode.excludeEnd then state.addToBuffer lexeme else state

/-- Handles an end match; gives no advance when no mode ends. -/
def finish (env : Env) (nested : Nested) (found : RuleMatch) (state : State) :
    TracedExcept (State × Option Nat) := do
  let (frames, count) ← (findEnded env found state.frames : Traced _)
  let state := { state with frames := frames }
  match count with
  | none => return (state, none)
  | some count =>
    let innermost := state.top env
    let outermost := (frames[count - 1]?.map fun frame => env.lexer.mode frame.mode).getD default
    let state ← placeEnd env nested found state
    let state := state.popFrames env count
    let state := match outermost.next with
      | some number => enter env number found {} state
      | none => state
    return (state, some (if innermost.returnEnd then 0 else width found))

/-- The complaint about an illegal match. -/
def complain (env : Env) (found : RuleMatch) (state : State) : Fault :=
  let label := (state.top env).label
  .illegalToken {
    message := "Illegal lexeme \"" ++ env.lexeme found ++ "\" for mode \"" ++ label ++ "\""
    index := Text.byteOffset env.text found.index
    context := Text.around env.text found.index env.settings.contextWindow
    mode := label
    language := env.language
    resultSoFar := state.tree.finish.html env.settings.classPrefix }

/-- Takes a match as text; an empty match takes the next character when it is illegal. -/
def takeAsText (env : Env) (found : RuleMatch) (state : State) : State × Nat :=
  if found.kind = .illegal && width found = 0 then (state.takeChar env found.index, 1)
  else (state.addToBuffer (env.lexeme found), width found)

/-- The mode that began without text at the position where it now ends without text. -/
def emptyMode? (found : RuleMatch) (state : State) : Option Nat :=
  match state.lastMatch with
  | some (.begin number, index) =>
    if found.kind = .finish && index = found.index && width found = 0 then some number else none
  | _ => none

/-- Whether there have been more iterations than are allowed at a position. -/
def isRunaway (env : Env) (position : Nat) (state : State) : Bool :=
  env.settings.iterationFloor < state.iterations &&
    env.settings.iterationLimit (Text.byteOffset env.text position) < state.iterations

/-- Handles a match; gives the distance to advance from its start. -/
def handle (env : Env) (nested : Nested) (found : RuleMatch) (state : State) :
    TracedExcept (State × Nat) := do
  if isRunaway env found.index state then throw (env.fault .tooManyIterations none)
  if let some number := emptyMode? found state then
    if !env.options.safeMode then
      throw (env.fault .zeroWidth (some (env.lexer.mode number).label))
    return (state.takeChar env found.index, 1)
  let state := { state with lastMatch := some (found.kind, found.index) }
  match found.kind with
  | .begin number => begin env nested number found state
  | .illegal =>
    if !env.options.ignoreIllegals then throw (complain env found state)
    return takeAsText env found state
  | .finish =>
    match ← finish env nested found state with
    | (state, some advance) => return (state, advance)
    | (state, none) => return takeAsText env found state

end Highlighter.Scan
