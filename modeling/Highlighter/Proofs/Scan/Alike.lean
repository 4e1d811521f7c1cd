import Highlighter.Proofs.Agreement
import Highlighter.Scan.Flush
import Mathlib.Data.List.Forall2
import Mathlib.Data.Option.Basic

/-!
# Two scans side by side

Two lexers may number their modes differently and still do the same. A relation between the numbers
says which mode of the one lexer stands for which mode of the other. States that differ in the
numbers of their modes only stay so whatever is added to the tree, since the modes themselves have
the same scopes, flags, keywords and hooks.
-/

namespace Highlighter

/-- A mode without what refers to other modes. -/
def LexerMode.bare (mode : LexerMode) : LexerMode :=
  { mode with contains := [], next := none, rules := {} }

/-- A result without what refers to modes, and without the runner-up. -/
def Highlighted.bare (result : Highlighted) : Highlighted :=
  { result with frames := [], secondBest := none }

/-- Related frames stand for modes that are related. -/
structure Frame.Alike (R : Nat → Nat → Prop) (frame frame' : Frame) : Prop where
  mode : R frame.mode frame'.mode
  data : frame.data = frame'.data
  isCredited : frame.isCredited = frame'.isCredited

/-- Stacks of related frames. -/
abbrev FramesAlike (R : Nat → Nat → Prop) : List Frame → List Frame → Prop :=
  List.Forall₂ (Frame.Alike R)

/-- What rules stand for, where the modes that begin are related. -/
inductive RuleKind.Alike (R : Nat → Nat → Prop) : RuleKind → RuleKind → Prop where
  | begin {number number' : Nat} (h : R number number') : Alike R (.begin number) (.begin number')
  | finish : Alike R .finish .finish
  | illegal : Alike R .illegal .illegal

/-- Two matches of rules that stand for the same. A group that took no part is as good as one that
is missing. -/
structure RuleMatch.Alike (R : Nat → Nat → Prop) (found found' : RuleMatch) : Prop where
  index : found.index = found'.index
  groups : ∀ number : Nat, found.groups[number]?.join = found'.groups[number]?.join
  kind : found.kind.Alike R found'.kind

/-- Related modes of two lexers have the same properties, and are followed by related modes. -/
structure Lexer.Alike (R : Nat → Nat → Prop) (lexer lexer' : Lexer) : Prop where
  root : R Lexer.root Lexer.root
  within : ∀ number number', R number number' →
    (number < lexer.modeCount ↔ number' < lexer'.modeCount)
  bare : ∀ number number', R number number' →
    (lexer.mode number).bare = (lexer'.mode number').bare
  next : ∀ number number', R number number' →
    Option.Rel R (lexer.mode number).next (lexer'.mode number').next
  ignoreCase : lexer.ignoreCase = lexer'.ignoreCase
  scopeAliases : lexer.scopeAliases = lexer'.scopeAliases

/-- Two results without runner-up are the same but for the numbers of modes. -/
structure Highlighted.Alike (F : List Frame → List Frame → Prop) (result result' : Highlighted) :
    Prop where
  bare : result.bare = result'.bare
  frames : F result.frames result'.frames
  single : result.secondBest = none
  single' : result'.secondBest = none

namespace Scan

/-- Two scans of one text with related lexers. -/
structure Env.Alike (R : Nat → Nat → Prop) (env env' : Env) : Prop where
  lexer : env.lexer.Alike R env'.lexer
  language : env.language = env'.language
  text : env.text = env'.text
  settings : env.settings = env'.settings

/-- The services for embedded languages agree. The relation `C` between the frames in which texts
end depends on the language. -/
structure Nested.Alike (lenient : Bool) (C : String → List Frame → List Frame → Prop)
    (nested nested' : Nested) : Prop where
  isKnown : ∀ name, nested.isKnown name = nested'.isKnown name
  fresh : ∀ name, C name [] []
  highlight : ∀ name text frames frames', C name frames frames' →
    AgreeExcept lenient (Highlighted.Alike (C name)) (nested.highlight name text frames)
      (nested'.highlight name text frames')
  detect : ∀ text names, Agree (fun result result' => result.bare = result'.bare)
    (nested.detect text names) (nested'.detect text names)

/-- How far a scan is, apart from what it has written. -/
structure Registers where
  index : Nat
  iterations : Nat
  lastMatch : Option (RuleKind × Nat)
  cursor : Nat
  resume : Bool

/-- How far a scan is in a state. -/
def State.registers (state : State) : Registers :=
  ⟨state.index, state.iterations, state.lastMatch, state.cursor, state.resume⟩

/-- The modes in which the texts of embedded languages ended are related. -/
abbrev ContinuationsAlike (C : String → List Frame → List Frame → Prop) :
    List (String × List Frame) → List (String × List Frame) → Prop :=
  List.Forall₂ fun entry entry' => entry.1 = entry'.1 ∧ C entry.1 entry.2 entry'.2

/-- Two states that have written the same in related modes, with registers related by `P`. -/
structure State.Alike (R : Nat → Nat → Prop) (C : String → List Frame → List Frame → Prop)
    (P : Registers → Registers → Prop) (state state' : State) : Prop where
  frames : FramesAlike R state.frames state'.frames
  tree : state.tree = state'.tree
  buffer : state.buffer = state'.buffer
  relevance : state.relevance = state'.relevance
  hits : state.hits = state'.hits
  continuations : ContinuationsAlike C state.continuations state'.continuations
  registers : P state.registers state'.registers

variable {R : Nat → Nat → Prop} {C : String → List Frame → List Frame → Prop}
  {P : Registers → Registers → Prop} {lenient : Bool} {env env' : Env} {nested nested' : Nested}
  {state state' : State} {found found' : RuleMatch}

theorem Env.Alike.scopeName (h : env.Alike R env') (scope : String) :
    env.lexer.scopeName scope = env'.lexer.scopeName scope := by
  rw [Lexer.scopeName, Lexer.scopeName, h.lexer.scopeAliases]

theorem Env.Alike.slice (h : env.Alike R env') (start stop : Nat) :
    env.slice start stop = env'.slice start stop := by
  rw [Env.slice, Env.slice, h.text]

namespace State.Alike

/-- The innermost modes are related. -/
theorem top_number (henv : env.Alike R env') (h : state.Alike R C P state') :
    R ((state.frames.head?.map (·.mode)).getD Lexer.root)
      ((state'.frames.head?.map (·.mode)).getD Lexer.root) := by
  have hframes := h.frames
  generalize state.frames = frames at hframes ⊢
  generalize state'.frames = frames' at hframes ⊢
  cases hframes with
  | nil => exact henv.lexer.root
  | cons hframe _ => exact hframe.mode

theorem top (henv : env.Alike R env') (h : state.Alike R C P state') :
    (state.top env).bare = (state'.top env').bare :=
  henv.lexer.bare _ _ (h.top_number henv)

theorem withTree (h : state.Alike R C P state') (tree : TokenTree) :
    ({ state with tree := tree } : State).Alike R C P { state' with tree := tree } :=
  ⟨h.frames, rfl, h.buffer, h.relevance, h.hits, h.continuations, h.registers⟩

theorem withBuffer (h : state.Alike R C P state') (buffer : String) :
    ({ state with buffer := buffer } : State).Alike R C P { state' with buffer := buffer } :=
  ⟨h.frames, h.tree, rfl, h.relevance, h.hits, h.continuations, h.registers⟩

theorem addToBuffer (h : state.Alike R C P state') (content : String) :
    (state.addToBuffer content).Alike R C P (state'.addToBuffer content) := by
  rw [State.addToBuffer, State.addToBuffer, h.buffer]
  exact h.withBuffer _

theorem takeChar (henv : env.Alike R env') (h : state.Alike R C P state') (position : Nat) :
    (state.takeChar env position).Alike R C P (state'.takeChar env' position) := by
  rw [State.takeChar, State.takeChar, henv.text]
  split
  · exact h.addToBuffer _
  · exact h

end State.Alike

/-- Two texts that have been marked equally far. -/
structure Marking.Alike (R : Nat → Nat → Prop) (C : String → List Frame → List Frame → Prop)
    (P : Registers → Registers → Prop) (marking marking' : Marking) : Prop where
  state : marking.state.Alike R C P marking'.state
  last : marking.last = marking'.last
  pending : marking.pending = marking'.pending

theorem markWord_alike (henv : env.Alike R env') (keywords : LexerKeywords) (text : Array Char)
    {marking marking' : Marking} (h : marking.Alike R C P marking') (span : Regex.Span) :
    (markWord env keywords text marking span).Alike R C P
      (markWord env' keywords text marking' span) := by
  simp only [markWord, henv.lexer.ignoreCase, h.last, h.pending, h.state.hits, h.state.tree,
    h.state.relevance, henv.settings, henv.scopeName]
  split
  · exact ⟨h.state, rfl, rfl⟩
  · have hstate := h.state
    split <;> exact ⟨⟨hstate.frames, rfl, hstate.buffer, rfl, rfl, hstate.continuations,
      hstate.registers⟩, rfl, rfl⟩

/-- Marking keywords keeps states alike. -/
theorem markKeywords_alike (henv : env.Alike R env') (h : state.Alike R C P state')
    (text : String) : (markKeywords env text state).Alike R C P (markKeywords env' text state') := by
  have hkeywords : (state.top env).keywords = (state'.top env').keywords :=
    (congrArg LexerMode.keywords (h.top henv) :)
  rw [markKeywords, markKeywords, hkeywords, h.tree]
  split
  · exact h.withTree _
  · next keywords _ =>
    have hfold : ∀ (spans : List Regex.Span) {marking marking' : Marking},
        marking.Alike R C P marking' →
        (spans.foldl (markWord env keywords text.toList.toArray) marking).Alike R C P
          (spans.foldl (markWord env' keywords text.toList.toArray) marking') := by
      intro spans
      induction spans with
      | nil => exact id
      | cons span spans ih =>
        exact fun hmarking => ih (markWord_alike henv keywords _ hmarking span)
    have hstart : Marking.Alike R C P { state := state } { state := state' } := ⟨h, rfl, rfl⟩
    have hmarked := hfold (keywords.regex.findAll text.toList.toArray) hstart
    simp only [hmarked.last, hmarked.pending, hmarked.state.tree]
    exact hmarked.state.withTree _

theorem addSegments_alike (henv : env.Alike R env') (hfound : found.Alike R found')
    (h : state.Alike R C P state') (segments : List SegmentScope) :
    (addSegments env found state segments).Alike R C P
      (addSegments env' found' state' segments) := by
  induction segments generalizing state state' with
  | nil => exact h
  | cons segment segments ih =>
    rw [addSegments, addSegments, hfound.groups, henv.text]
    refine ih ?_
    split
    · exact h
    · split
      · rw [h.tree, henv.scopeName]
        exact h.withTree _
      · exact markKeywords_alike henv h _

theorem lookup_alike {continuations continuations' : List (String × List Frame)}
    (h : ContinuationsAlike C continuations continuations') (hfresh : ∀ name, C name [] [])
    (name : String) :
    C name ((continuations.lookup name).getD []) ((continuations'.lookup name).getD []) := by
  induction h with
  | nil => exact hfresh name
  | @cons entry entry' entries entries' hentry _ ih =>
    obtain ⟨key, frames⟩ := entry
    obtain ⟨key', frames'⟩ := entry'
    obtain ⟨hkey, hframes⟩ := hentry
    simp only at hkey hframes
    subst hkey
    simp only [List.lookup_cons]
    cases hname : name == key with
    | true =>
      rw [beq_iff_eq.mp hname]
      exact hframes
    | false => exact ih

theorem continue_alike {continuations continuations' : List (String × List Frame)}
    (h : ContinuationsAlike C continuations continuations') (name : String)
    {frames frames' : List Frame} (hframes : C name frames frames') :
    ContinuationsAlike C ((name, frames) :: continuations.filter (·.1 != name))
      ((name, frames') :: continuations'.filter (·.1 != name)) := by
  refine .cons ⟨rfl, hframes⟩ ?_
  induction h with
  | nil => exact .nil
  | @cons entry entry' entries entries' hentry _ ih =>
    rw [List.filter_cons, List.filter_cons, hentry.1]
    split
    · exact .cons hentry ih
    · exact ih

theorem addEmbedded_alike {mode mode' : LexerMode} {result result' : Highlighted}
    (hmode : mode.bare = mode'.bare) (hresult : result.bare = result'.bare)
    (h : state.Alike R C P state') :
    (addEmbedded mode result state).Alike R C P (addEmbedded mode' result' state') := by
  have hscore : mode.relevance = mode'.relevance :=
    (congrArg LexerMode.relevance hmode :)
  have hrelevance : result.relevance = result'.relevance :=
    (congrArg Highlighted.relevance hresult :)
  have htree : result.tree = result'.tree :=
    (congrArg Highlighted.tree hresult :)
  have hlanguage : result.language = result'.language :=
    (congrArg Highlighted.language hresult :)
  rw [addEmbedded, addEmbedded, hscore, hrelevance, htree, hlanguage, h.relevance, h.tree]
  exact ⟨h.frames, rfl, h.buffer, rfl, h.hits, h.continuations, h.registers⟩

theorem embed_agree (henv : env.Alike R env') (hnested : nested.Alike lenient C nested')
    (h : state.Alike R C P state') (language : SubLanguage) (text : String) :
    AgreeExcept lenient (State.Alike R C P) (embed env nested language text state)
      (embed env' nested' language text state') := by
  simp only [embed]
  split
  · exact .of_pure h
  · cases language with
    | named name =>
      simp only [hnested.isKnown]
      split
      · rw [h.tree]
        refine .bind (r := fun _ _ => True) ?_ fun _ _ _ => .of_pure (h.withTree _)
        exact .of_agree fun _ _ => trivial
      · refine .bind (hnested.highlight name text _ _
          (lookup_alike h.continuations hnested.fresh name)) fun result result' hresult => ?_
        refine .of_pure (addEmbedded_alike (h.top henv) hresult.bare ?_)
        exact ⟨h.frames, h.tree, h.buffer, h.relevance, h.hits,
          continue_alike h.continuations name hresult.frames, h.registers⟩
    | candidates names =>
      refine .bind (.of_agree (hnested.detect text _)) fun result result' hresult => ?_
      exact .of_pure (addEmbedded_alike (h.top henv) hresult h)

/-- Flushing the buffers keeps states alike. -/
theorem flush_agree (henv : env.Alike R env') (hnested : nested.Alike lenient C nested')
    (h : state.Alike R C P state') :
    AgreeExcept lenient (State.Alike R C P) (flush env nested state) (flush env' nested' state') := by
  have hempty := h.withBuffer ""
  have hsub : (({ state with buffer := "" } : State).top env).subLanguage =
      (({ state' with buffer := "" } : State).top env').subLanguage :=
    (congrArg LexerMode.subLanguage (hempty.top henv) :)
  simp only [flush, hsub, h.buffer]
  split
  · exact embed_agree henv hnested hempty _ _
  · exact .of_pure (markKeywords_alike henv hempty _)

end Scan

end Highlighter
