import Highlighter.Scan.Step

/-!
# The scan

`run` repeats steps until no rule matches any more, flushes what is left and closes what is open.
The limit on iterations bounds the number of steps.
-/

namespace Highlighter.Scan

/-- The outcome of a step: the scan goes on, or nothing is left to match. -/
inductive Progress where
  | more (state : State)
  | done (state : State)

/-- Finds the next match and handles it. -/
def step (env : Env) (nested : Nested) (state : State) : TracedExcept Progress := do
  let state := { state with
    iterations := state.iterations + 1
    cursor := if state.resume then state.cursor else 0
    resume := false }
  match (state.top env).rules.find env.text state.index state.cursor with
  | .error error => throw (env.fault (.badRules error) none)
  | .ok (none, _) => return .done state
  | .ok (some found, cursor) =>
    let state := { state with cursor := cursor }
    let state := state.addToBuffer (env.slice state.index found.index)
    let (state, advance) ← handle env nested found state
    let state := { state with index := found.index + advance }
    return if env.text.size < state.index then .done state else .more state

/-- How a scan stops: with a final state, or with a fault and the modes active before it. -/
inductive Outcome where
  | done (state : State)
  | failed (fault : Fault) (frames : List Frame)

/-- Repeats steps, at most `fuel` of them. -/
def loop (env : Env) (nested : Nested) : (fuel : Nat) → State → Traced Outcome
  | 0, state => return .done state
  | fuel + 1, state => do
    match ← (step env nested state).run with
    | .error fault => return .failed fault state.frames
    | .ok (.done state) => return .done state
    | .ok (.more state) => loop env nested fuel state

/-- A number of steps that the limit on iterations keeps a scan from reaching. -/
def Env.fuel (env : Env) : Nat :=
  env.settings.iterationLimit (Text.byteSize env.text) + 2

/-- Flushes the rest of the text; gives the state with the modes still active. -/
def flushRest (env : Env) (nested : Nested) (state : State) : TracedExcept State :=
  flush env nested (state.addToBuffer (env.slice state.index env.text.size))

/-- The result of a scan that has come to its end. Modes that are still active are closed and
credited, and kept for a later call that goes on in them. -/
def conclude (env : Env) (state : State) : Highlighted :=
  let frames := state.frames.map ({ · with isCredited := true })
  let state := state.popFrames env state.frames.length
  { Highlighted.ofTree (some env.language) state.tree.finish env.settings.classPrefix with
    relevance := state.relevance
    frames := frames }

/-- Scans a text, starting inside the given modes. -/
def run (env : Env) (nested : Nested) (frames : List Frame) :
    Traced (Except (Fault × List Frame) Highlighted) := do
  match ← loop env nested env.fuel (State.restore env frames) with
  | .failed fault frames => return .error (fault, frames)
  | .done state =>
    match ← (flushRest env nested state).run with
    | .error fault => return .error (fault, state.frames)
    | .ok state => return .ok (conclude env state)

/-- Scans a text; in safe mode illegal matches and faults give the text as it stands. -/
def highlight (env : Env) (nested : Nested) (frames : List Frame) : TracedExcept Highlighted := do
  let text := env.slice 0 env.text.size
  let plain := Highlighted.plain (some env.language) text env.settings.classPrefix
  match ← (run env nested frames : Traced _) with
  | .ok result => return result
  | .error (fault, frames) =>
    if !env.options.safeMode then throw fault
    match fault with
    | .illegalToken context => return { plain with illegalBy := some context }
    | .engine .. =>
      Trace.log .warn fault.message
      return { plain with errorRaised := some fault.message, frames := frames }
    | _ => throw fault

end Highlighter.Scan
