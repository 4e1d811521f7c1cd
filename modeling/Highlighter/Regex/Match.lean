import Highlighter.Regex.Program

/-!
# Matching

A program runs from a position of the text and hands every position it can reach to a
continuation, in order of preference, until the continuation accepts one. `Regex.find?` tries the
starting positions from left to right. Positions count characters; a search that starts inside the
text sees what precedes it.
-/

namespace Highlighter.Regex

/-- A stretch of a text: the positions from `start` up to `stop`. -/
structure Span where
  start : Nat
  stop : Nat
  deriving DecidableEq, Repr, Inhabited

/-- The characters of a stretch. -/
def Span.text (span : Span) (text : Array Char) : String :=
  String.ofList (text.extract span.start span.stop).toList

/-- Where a match has got to, and the groups it has passed, the latest first. A group listed
without a stretch has been forgotten. -/
structure State where
  position : Nat
  groups : List (Nat × Option Span) := []
  deriving Repr, Inhabited

namespace State

/-- The stretch of a group, if the group has taken part. -/
def group? (state : State) (number : Nat) : Option Span :=
  (state.groups.lookup number).join

/-- Records the stretch of a group. -/
def close (state : State) (number start : Nat) : State :=
  { state with groups := (number, some ⟨start, state.position⟩) :: state.groups }

/-- Forgets the groups from `first` up to `last`. -/
def forget (state : State) (first last : Nat) : State :=
  { state with
    groups :=
      ((List.range' first (last - first)).map fun number => (number, none)) ++ state.groups }

end State

/-- Whether the character at a position is part of a word. -/
def wordAt (text : Array Char) (position : Nat) : Bool :=
  match text[position]? with
  | some c => Text.isWordChar c
  | none => false

/-- Whether the character before a position is part of a word. -/
def wordBefore (text : Array Char) (position : Nat) : Bool :=
  0 < position && wordAt text (position - 1)

/-- Whether an anchor holds at a position. -/
def Anchor.holds (text : Array Char) (position : Nat) : Anchor → Bool
  | .textStart => position == 0
  | .textEnd => position == text.size
  | .lineStart => position == 0 || text[position - 1]? == some '\n'
  | .lineEnd => position == text.size || text[position]? == some '\n'
  | .wordBoundary => wordBefore text position != wordAt text position
  | .notWordBoundary => wordBefore text position == wordAt text position
  | .wordStart => !wordBefore text position && wordAt text position
  | .wordEnd => wordBefore text position && !wordAt text position

/-- Whether the stretch of `text` between two positions stands again at `position`. -/
def repeatsAt (text : Array Char) (span : Span) (position : Nat) : Bool :=
  text.extract position (position + (span.stop - span.start)) == text.extract span.start span.stop

/-- What to do with a position that has been reached. -/
abbrev Continuation := State → Option State

/-- Something that runs from a position and hands on the positions it reaches. -/
abbrev Step := Continuation → Continuation

/-- `first`, and `second` where `first` fails; the other way round when not `greedy`. -/
def prefer (greedy : Bool) (first second : Unit → Option State) : Option State :=
  if greedy then
    match first () with
    | some state => some state
    | none => second ()
  else
    match second () with
    | some state => some state
    | none => first ()

/-- `count` runs of a step. -/
def copies (step : Step) (next : Continuation) : Nat → Continuation
  | 0 => next
  | count + 1 => step (copies step next count)

/-- At most `count` runs of a step. -/
def optionals (step : Step) (greedy : Bool) (next : Continuation) : Nat → Continuation
  | 0 => next
  | count + 1 => fun state =>
    prefer greedy (fun _ => step (optionals step greedy next count) state) (fun _ => next state)

/-- Runs of a step, each of which moves forward; at most `count` of them, a bound that the length of
the text makes idle. -/
def moving (step : Step) (greedy : Bool) (next : Continuation) : Nat → Continuation
  | 0 => next
  | count + 1 => fun state =>
    prefer greedy
      (fun _ => step
        (fun after => if state.position < after.position then moving step greedy next count after
          else none)
        state)
      (fun _ => next state)

/-- Runs a program. -/
def Program.run (text : Array Char) : Program → Step
  | .empty, next, state => next state
  | .char set, next, state =>
    match text[state.position]? with
    | some c => if set.has c then next { state with position := state.position + 1 } else none
    | none => none
  | .anchor position, next, state =>
    if position.holds text state.position then next state else none
  | .seq first second, next, state => first.run text (second.run text next) state
  | .alt first second, next, state =>
    prefer true (fun _ => first.run text next state) (fun _ => second.run text next state)
  | .group number body, next, state =>
    body.run text (fun after => next (after.close number state.position)) state
  | .times body least extra greedy, next, state =>
    copies (body.run text) (optionals (body.run text) greedy next extra) least state
  | .more body greedy, next, state =>
    moving (body.run text) greedy next (text.size + 1) state
  | .plus body greedy, next, state =>
    body.run text
      (fun after =>
        if state.position < after.position then
          moving (body.run text) greedy next (text.size + 1) after
        else next after)
      state
  | .ahead negated body, next, state =>
    if negated then
      match body.run text some state with
      | some _ => none
      | none => next state
    else body.run text (fun after => next { after with position := state.position }) state
  | .behind length negated body, next, state =>
    if state.position < length then
      if negated then next state else none
    else
      let back := { state with position := state.position - length }
      if negated then
        match body.run text some back with
        | some _ => none
        | none => next state
      else body.run text (fun after => next { after with position := state.position }) back
  | .atomic body, next, state =>
    match body.run text some state with
    | some after => next after
    | none => none
  | .settled first last body, next, state =>
    match body.run text some (state.forget first last) with
    | some after => next after
    | none => none
  | .backref number, next, state =>
    match state.group? number with
    | some span =>
      if repeatsAt text span state.position then
        next { state with position := state.position + (span.stop - span.start) }
      else none
    | none => none

end Regex

/-- A regular expression that is ready to search. -/
structure Regex where
  program : Regex.Program
  /-- The number of capturing groups. -/
  groups : Nat
  deriving Repr, Inhabited

namespace Regex

/-- Reads a source; `^` and `$` match at the ends of lines. -/
def compile (ignoreCase : Bool) (source : String) : Except Error Regex := do
  let flags : Flags := { ignoreCase := ignoreCase, multiLine := true }
  let read ← Tree.read flags source
  return ⟨← read.tree.plan read.referenced false, read.groups⟩

/-- A match: its stretch, and the stretches of the groups that took part. -/
structure Match where
  span : Span
  groups : List (Nat × Option Span)
  deriving Repr, Inhabited

/-- The stretch of a group of a match; group 0 is the whole match. -/
def Match.group? (found : Match) (number : Nat) : Option Span :=
  if number = 0 then some found.span else (found.groups.lookup number).join

/-- The preferred match that starts at `start`. -/
def matchAt? (regex : Regex) (text : Array Char) (start : Nat) : Option Match :=
  (regex.program.run text some { position := start }).map fun state =>
    ⟨⟨start, state.position⟩, state.groups⟩

/-- The match at the first of `count` positions from `start` on that has one. -/
def findWithin (regex : Regex) (text : Array Char) : (count start : Nat) → Option Match
  | 0, _ => none
  | count + 1, start =>
    match regex.matchAt? text start with
    | some found => some found
    | none => regex.findWithin text count (start + 1)

/-- The first match that starts at or after `start`. -/
def find? (regex : Regex) (text : Array Char) (start : Nat) : Option Match :=
  regex.findWithin text (text.size + 1 - start) start

/-- The matches from `start` on, at most `count` of them. An empty match directly after the match
that ended at `last` is passed over, and the search goes on one character later. -/
def findAllFrom (regex : Regex) (text : Array Char) :
    (count start : Nat) → (last : Option Nat) → List Span
  | 0, _, _ => []
  | count + 1, start, last =>
    match regex.find? text start with
    | none => []
    | some found =>
      let span := found.span
      if span.start == span.stop then
        if last == some span.stop then regex.findAllFrom text count (span.stop + 1) last
        else span :: regex.findAllFrom text count (span.stop + 1) (some span.stop)
      else span :: regex.findAllFrom text count span.stop (some span.stop)

/-- All matches, from left to right, none overlapping another. -/
def findAll (regex : Regex) (text : Array Char) : List Span :=
  regex.findAllFrom text (text.size + 2) 0 none

end Regex

end Highlighter
