import Highlighter.Scan.State

/-!
# Flushing text

Text leaves the buffer through the innermost mode: split at its keywords, or highlighted in the
language embedded in it.
-/

namespace Highlighter.Scan

/-- Progress through a text in which keywords are marked: the state, the end of the last word, and
the plain text not yet added to the tree. -/
structure Marking where
  state : State
  last : Nat := 0
  pending : String := ""

/-- Marks one word. Unknown words and words of hidden categories stay plain text; every known word
scores as often as the settings allow. -/
def markWord (env : Env) (keywords : LexerKeywords) (text : Array Char) (marking : Marking)
    (span : Regex.Span) : Marking :=
  let word := span.text text
  let pending := marking.pending ++ Regex.Span.text ⟨marking.last, span.start⟩ text
  let key := if env.lexer.ignoreCase then Text.lower word else word
  match keywords.table.get? key with
  | none => { marking with last := span.stop, pending := pending ++ word }
  | some entry =>
    let state := marking.state
    let hits := state.hits.getD key 0 + 1
    let state := { state with
      tree := state.tree.addText pending
      hits := state.hits.insert key hits
      relevance :=
        if hits ≤ env.settings.maxKeywordHits then state.relevance + entry.relevance
        else state.relevance }
    if entry.isHidden then { state := state, last := span.stop, pending := word }
    else {
      state := { state with
        tree := state.tree.addScoped word (env.lexer.scopeName entry.category) }
      last := span.stop }

/-- Adds a text to the tree with the keywords of the innermost mode marked. -/
def markKeywords (env : Env) (text : String) (state : State) : State :=
  match (state.top env).keywords with
  | none => { state with tree := state.tree.addText text }
  | some keywords =>
    let chars := text.toList.toArray
    let marking := (keywords.regex.findAll chars).foldl (markWord env keywords chars)
      { state := state }
    let rest := marking.pending ++ Regex.Span.text ⟨marking.last, chars.size⟩ chars
    { marking.state with tree := marking.state.tree.addText rest }

/-- Adds the result of an embedded language; its score counts where the mode has one. -/
def addEmbedded (mode : LexerMode) (result : Highlighted) (state : State) : State :=
  { state with
    relevance := if 0 < mode.relevance then state.relevance + result.relevance
      else state.relevance
    tree := state.tree.addEmbedded result.tree result.language }

/-- Adds a text to the tree, highlighted in the language embedded in the innermost mode. A named
language goes on in the modes in which its text before ended. -/
def embed (env : Env) (nested : Nested) (language : SubLanguage) (text : String) (state : State) :
    TracedExcept State := do
  if text.isEmpty then return state
  let mode := state.top env
  match language with
  | .named name =>
    if !nested.isKnown name then
      Trace.warnOnce ("sublanguage `" ++ name ++ "` is not registered")
      return { state with tree := state.tree.addText text }
    let frames := (state.continuations.lookup name).getD []
    let result ← nested.highlight name text frames
    let continuations :=
      (name, result.frames) :: state.continuations.filter (·.1 != name)
    return addEmbedded mode result { state with continuations := continuations }
  | .candidates names =>
    let result ← nested.detect text (if names.isEmpty then none else some names)
    return addEmbedded mode result state

/-- Empties the buffer through the innermost mode. -/
def flush (env : Env) (nested : Nested) (state : State) : TracedExcept State :=
  let text := state.buffer
  let state := { state with buffer := "" }
  match (state.top env).subLanguage with
  | some language => embed env nested language text state
  | none => return markKeywords env text state

/-- Adds the segments of a match one by one, each under its scope or split at keywords. -/
def addSegments (env : Env) (found : RuleMatch) (state : State) : List SegmentScope → State
  | [] => state
  | segment :: segments =>
    let state := match found.groups[segment.group]?.join with
      | none => state
      | some span =>
        match segment.scope with
        | some scope =>
          { state with
            tree := state.tree.addScoped (span.text env.text) (env.lexer.scopeName scope) }
        | none => markKeywords env (span.text env.text) state
    addSegments env found state segments

end Highlighter.Scan
