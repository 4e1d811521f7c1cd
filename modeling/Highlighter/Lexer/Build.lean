import Highlighter.Lexer
import Highlighter.Outline

/-!
# Building lexers

`Grammar.compile` walks the outline of a grammar and gives every mode its number, before the modes
inside it. A mode met again at the same place keeps the number it has, unless it is tied to the
mode around it.
-/

namespace Highlighter

namespace Lexer

/-- A lexer under construction: the modes so far, and the numbers of modes by place. -/
structure Draft where
  modes : Array LexerMode := #[]
  known : List (Place × Nat) := []

/-- A step of the construction. -/
abbrev Build := StateT Draft (Except Misuse)

/-- The pattern that finds words where neither the mode nor the grammar has one. -/
def defaultKeywordPattern : String := "\\w+"

/-- The expression for a pattern of the labelled mode. -/
def compilePattern (grammar : Grammar) (label source : String) : Except Misuse Regex :=
  match Regex.compile grammar.caseInsensitive source with
  | .ok regex => .ok regex
  | .error error => .error (.badPattern label error)

/-- The scopes of segments, each in a group of its own, when `offset` groups precede the first and
`number` is its number. -/
def segmentScopes (scopes : List (Nat × String)) (number offset : Nat) :
    List Pattern → List SegmentScope
  | [] => []
  | part :: parts =>
    ⟨number + offset, scopes.lookup number⟩ ::
      segmentScopes scopes (number + 1) (offset + Pattern.countGroups part.source) parts

/-- The scope of an edge. An array of segments and a map of scopes go together. -/
def edgeScope (edge : Edge) (spec : Option ScopeSpec) (pattern : Option Pattern) :
    Except Misuse (Option EdgeScope) :=
  match spec, pattern.bind Pattern.parts? with
  | none, none => .ok none
  | none, some _ | some (.whole _), some _ => .error (.segmentsWithoutMap edge)
  | some (.whole scope), none => .ok (some (.whole scope))
  | some (.segments _), none => .error (.mapWithoutSegments edge)
  | some (.segments scopes), some parts => .ok (some (.segments (segmentScopes scopes 1 0 parts)))

/-- The keywords of the labelled mode. -/
def compileKeywords (grammar : Grammar) (label : String) (keywords : Keywords) :
    Except Misuse LexerKeywords := do
  let source := (keywords.pattern <|> grammar.keywordPattern).getD defaultKeywordPattern
  return {
    table := KeywordTable.ofSet keywords.set grammar.caseInsensitive
    regex := ← compilePattern grammar label source }

/-- The end of a mode below the top mode: its end pattern, or at once where it has none and does
not end with the mode around it. -/
def endSource (fields : ModeFields) : Option String :=
  match fields.endPattern with
  | some pattern => some pattern.source
  | none => if fields.endsWithParent then none else some Outline.anywhere

/-- The end rule: the mode's own end, and where it ends with the mode around it, the end rule of
that mode. -/
def terminatorOf (fields : ModeFields) (own outer : Option String) : Option String :=
  let own := own.filter fun source => !source.isEmpty
  if fields.endsWithParent then
    match own, outer with
    | some own, some outer => some (own ++ "|" ++ outer)
    | none, some outer => some outer
    | own, none => own
  else own

/-- A mode without what depends on the modes inside it. -/
def modeOf (grammar : Grammar) (fields : ModeFields) (beforeBegin : Option Hook)
    (parent : Option LexerMode) : Except Misuse LexerMode := do
  let label := fields.scope.getD LexerMode.unnamed
  let beginScope ← edgeScope .begin fields.beginScope fields.beginPattern
  let endScope ← edgeScope .finish fields.endScope fields.endPattern
  let finish := if parent.isSome then endSource fields else none
  let endRegex ← match finish with
    | some source => do pure (some (← compilePattern grammar label source))
    | none => pure none
  let keywords ← match fields.keywords with
    | some keywords => do pure (some (← compileKeywords grammar label keywords))
    | none => pure none
  return {
    label := label
    scope := fields.scope
    beginScope := beginScope
    endScope := endScope
    beginSource := if parent.isSome then some (Outline.sourceOrAnywhere fields.beginPattern)
      else none
    endRegex := endRegex
    terminator := terminatorOf fields finish (parent.bind (·.terminator))
    illegal := fields.illegal.map Pattern.source
    keywords := keywords
    relevance := fields.relevance.getD 1
    skip := fields.skip
    excludeBegin := fields.excludeBegin
    excludeEnd := fields.excludeEnd
    returnBegin := fields.returnBegin
    returnEnd := fields.returnEnd
    endsWithParent := fields.endsWithParent
    endsParent := fields.endsParent
    subLanguage := fields.subLanguage
    beforeBegin := beforeBegin
    onBegin := fields.onBegin
    onEnd := fields.onEnd }

/-- The rules of a mode: one per mode inside it, then its end, then what is illegal in it. -/
def rulesOf (draft : Draft) (mode : LexerMode) (contains : List Nat) : List Rule :=
  contains.map (fun child =>
    ⟨((draft.modes.getD child default).beginSource).getD "", .begin child⟩)
  ++ (mode.terminator.map fun source => ⟨source, .finish⟩).toList
  ++ (mode.illegal.map fun source => ⟨source, .illegal⟩).toList

/-- Adds a mode and gives its number. -/
def add (mode : LexerMode) : Build Nat := do
  let draft ← get
  set { draft with modes := draft.modes.push mode }
  return draft.modes.size

/-- Completes the mode with the given number. -/
def complete (grammar : Grammar) (number : Nat) (contains : List Nat) (next : Option Nat) :
    Build Unit := do
  let draft ← get
  let mode := draft.modes.getD number default
  match RuleSet.build grammar.caseInsensitive (rulesOf draft mode contains) with
  | .error error => throw (.badPattern mode.label error)
  | .ok rules =>
    let mode := { mode with contains := contains, next := next, rules := rules }
    set { draft with modes := draft.modes.setIfInBounds number mode }

/-- Looks up a mode that has been built at a place. -/
def known? (isTied : Bool) (place : Option Place) : Build (Option Nat) := do
  match isTied, place with
  | false, some place => return (← get).known.lookup place
  | _, _ => return none

/-- Keeps the number of a mode for the next time its place is met. -/
def remember (isTied : Bool) (place : Option Place) (number : Nat) : Build Unit := do
  match isTied, place with
  | false, some place => modify fun draft => { draft with known := (place, number) :: draft.known }
  | _, _ => return ()

mutual
/-- Builds a mode inside the mode `parent`, or the top mode, and gives its number. -/
def buildMode (grammar : Grammar) (parent : Option Nat) : Outline → Build Nat
  | .mk _ _ beforeBegin fields contains next => do
    let draft ← get
    let outer := parent.map fun parent => draft.modes.getD parent default
    let mode ← liftM (do modeOf grammar (← fields) beforeBegin outer : Except Misuse LexerMode)
    let number ← add mode
    let children ← buildChildren grammar parent.isNone number contains
    let next ← buildNext grammar parent next
    complete grammar number children next
    return number

/-- Builds the modes inside mode `owner`; a missing outline stands for that mode itself. -/
def buildChildren (grammar : Grammar) (atTop : Bool) (owner : Nat) :
    List (Option Outline) → Build (List Nat)
  | [] => return []
  | none :: children => do
    if atTop then throw .itselfAtTop
    return owner :: (← buildChildren grammar atTop owner children)
  | some child :: children => do
    let number ← match ← known? child.isTied child.place with
      | some number => pure number
      | none => do
        let number ← buildMode grammar (some owner) child
        remember child.isTied child.place number
        pure number
    return number :: (← buildChildren grammar atTop owner children)

/-- Builds the mode that follows a mode inside `parent`. -/
def buildNext (grammar : Grammar) (parent : Option Nat) : Option Outline → Build (Option Nat)
  | none => return none
  | some following => do
    match parent with
    | none => throw .nextAtTop
    | some parent =>
      match ← known? following.isTied following.place with
      | some number => return some number
      | none => do
        let number ← buildMode grammar (some parent) following
        remember following.isTied following.place number
        return some number
end

end Lexer

/-- The lexer of a grammar. -/
def Grammar.compile (grammar : Grammar) : Except Misuse Lexer := do
  let (_, draft) ← (Lexer.buildMode grammar none (Outline.ofRoot grammar.root)).run {}
  return {
    name := grammar.name
    ignoreCase := grammar.caseInsensitive
    scopeAliases := grammar.scopeAliases
    modes := draft.modes }

end Highlighter
