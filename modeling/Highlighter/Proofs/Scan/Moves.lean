import Highlighter.Proofs.Scan.Agreement
import Highlighter.Proofs.Scan.Extent

/-!
# What a match does to the stack of modes

Whatever the embedded languages do, a match that is handled makes one move: the modes stay, one is
entered, or some are left. Text goes into the tree before the move, at most once through a flush of
the buffer, and this neither touches the stack nor any open scope. The scopes that are open in the
tree are therefore those of the active modes all the time.
-/

namespace Highlighter

namespace TokenTree

/-- The open scopes, the innermost first. -/
def scopes (tree : TokenTree) : List String :=
  tree.openNodes.map (·.scope)

theorem scopes_eq_starts (tree : TokenTree) : tree.scopes = tree.starts.map (·.1) := by
  have hwithin : ∀ nodes : List OpenNode,
      nodes.map (·.scope) = (startsWithin tree.latest nodes).map (·.1) := by
    intro nodes
    induction nodes with
    | nil => rfl
    | cons node nodes ih => simp only [startsWithin, List.map_cons, ih]
  exact hwithin tree.openNodes

theorem scopes_congr {tree tree' : TokenTree} (h : tree'.starts = tree.starts) :
    tree'.scopes = tree.scopes := by
  rw [scopes_eq_starts, scopes_eq_starts, h]

@[simp] theorem scopes_empty : empty.scopes = [] := rfl

@[simp] theorem scopes_openNode (scope : String) (tree : TokenTree) :
    (tree.openNode scope).scopes = scope :: tree.scopes := rfl

@[simp] theorem scopes_closeNode (tree : TokenTree) :
    tree.closeNode.scopes = tree.scopes.tail := by
  rw [scopes_eq_starts, scopes_eq_starts, starts_closeNode, List.map_tail]

theorem scopes_eq_nil_iff {tree : TokenTree} : tree.scopes = [] ↔ tree.openNodes = [] :=
  List.map_eq_nil_iff

end TokenTree

/-- What a frame says about its mode. Hooks change the data of a frame, but not this. -/
def Frame.mark (frame : Frame) : Nat × Bool :=
  (frame.mode, frame.isCredited)

/-- What the frames of a stack say about their modes. -/
def marks (frames : List Frame) : List (Nat × Bool) :=
  frames.map Frame.mark

theorem modes_of_marks {frames frames' : List Frame} (h : marks frames' = marks frames) :
    frames'.map (·.mode) = frames.map (·.mode) := by
  have hmodes := congrArg (List.map Prod.fst) h
  simp only [marks, List.map_map] at hmodes
  exact hmodes

theorem marks_drop (count : Nat) (frames : List Frame) :
    marks (frames.drop count) = (marks frames).drop count :=
  List.map_drop

namespace Scan

variable {env : Env} {nested : Nested} {found : RuleMatch} {state state' : State} {move : Move}
  {advance number : Nat} {before after : Trace} {input : Option State}

/-! ## Frames and open scopes -/

/-- The scope that is open for a frame. -/
def scope? (env : Env) (frame : Frame) : Option String :=
  (env.lexer.mode frame.mode).scope.map env.lexer.scopeName

/-- The scopes that are open in the tree are those of the active modes. -/
def State.Aligned (env : Env) (state : State) : Prop :=
  state.tree.scopes = state.frames.filterMap (scope? env)

theorem scopes_of_marks {frames frames' : List Frame} (h : marks frames' = marks frames) :
    frames'.filterMap (scope? env) = frames.filterMap (scope? env) := by
  have hscopes := congrArg (List.filterMap fun mark : Nat × Bool =>
    (env.lexer.mode mark.1).scope.map env.lexer.scopeName) h
  simp only [marks, List.filterMap_map] at hscopes
  exact hscopes

/-- Two states with the same modes and the same open scopes, in which embedded languages go on in
the same modes. -/
structure Keeps (state state' : State) : Prop where
  marks : marks state'.frames = marks state.frames
  scopes : state'.tree.scopes = state.tree.scopes
  continuations : state'.continuations = state.continuations

namespace Keeps

variable {state'' : State}

theorem refl (state : State) : Keeps state state := ⟨rfl, rfl, rfl⟩

theorem trans (h : Keeps state state') (h' : Keeps state' state'') : Keeps state state'' :=
  ⟨h'.marks.trans h.marks, h'.scopes.trans h.scopes, h'.continuations.trans h.continuations⟩

theorem of_adds {added : String} (h : Adds state added state')
    (hcontinuations : state'.continuations = state.continuations) : Keeps state state' :=
  ⟨congrArg Highlighter.marks h.frames, TokenTree.scopes_congr h.starts, hcontinuations⟩

theorem aligned (h : Keeps state state') (haligned : state.Aligned env) : state'.Aligned env := by
  rw [State.Aligned, h.scopes, scopes_of_marks h.marks]
  exact haligned

theorem takeChar (env : Env) (position : Nat) (state : State) :
    Keeps state (state.takeChar env position) := by
  unfold State.takeChar
  split <;> exact ⟨rfl, rfl, rfl⟩

theorem markKeywords (env : Env) (text : String) (state : State) :
    Keeps state (markKeywords env text state) := by
  refine of_adds (markKeywords_adds env text state) ?_
  have hword : ∀ (keywords : LexerKeywords) (chars : Array Char) (marking : Marking) span,
      (markWord env keywords chars marking span).state.continuations =
        marking.state.continuations := by
    intro keywords chars marking span
    simp only [markWord]
    split
    · rfl
    · split <;> rfl
  have hfold : ∀ (keywords : LexerKeywords) (chars : Array Char) (spans : List Regex.Span)
      (marking : Marking),
      (spans.foldl (markWord env keywords chars) marking).state.continuations =
        marking.state.continuations := by
    intro keywords chars spans
    induction spans with
    | nil => exact fun _ => rfl
    | cons span spans ih =>
      intro marking
      rw [List.foldl_cons, ih, hword]
  unfold Scan.markKeywords
  split
  · rfl
  · exact hfold _ _ _ _

theorem addSegments (env : Env) (found : RuleMatch) (state : State)
    (segments : List SegmentScope) : Keeps state (addSegments env found state segments) := by
  induction segments generalizing state with
  | nil => exact refl state
  | cons segment segments ih =>
    rw [Scan.addSegments]
    refine Keeps.trans ?_ (ih _)
    split
    · exact refl state
    · split
      · exact of_adds (Adds.addScoped state _ _) rfl
      · exact markKeywords env _ state

theorem ignore (env : Env) (index : Nat) (state : State) :
    Keeps state (ignore env index state).1 := by
  unfold Scan.ignore
  split
  · exact takeChar env index state
  · exact ⟨rfl, rfl, rfl⟩

theorem takeAsText (env : Env) (found : RuleMatch) (state : State) :
    Keeps state (takeAsText env found state).1 := by
  unfold Scan.takeAsText
  split
  · exact takeChar env _ state
  · exact ⟨rfl, rfl, rfl⟩

end Keeps

/-- A flush leaves the modes and the open scopes as they are, whatever the embedded language
does. -/
theorem flush_adds_some (h : Returns (flush env nested state) before state' after) :
    ∃ added, Adds { state with buffer := "" } added state' := by
  simp only [flush] at h
  split at h
  · unfold embed at h
    split at h
    · obtain ⟨rfl, -⟩ := returns_pure_iff.mp h
      exact ⟨_, Adds.refl _⟩
    · split at h
      · next name _ =>
        split at h
        · obtain ⟨_, _, _, hpure⟩ := returns_bind_iff.mp h
          obtain ⟨rfl, -⟩ := returns_pure_iff.mp hpure
          exact ⟨_, Adds.addText _ _⟩
        · obtain ⟨result, _, _, hpure⟩ := returns_bind_iff.mp h
          obtain ⟨rfl, -⟩ := returns_pure_iff.mp hpure
          have hadds := Adds.addEmbedded (({ state with buffer := "" } : State).top env) result
            { state with
              buffer := ""
              continuations := (name, result.frames) ::
                state.continuations.filter (·.1 != name) }
          exact ⟨_, hadds.content, hadds.starts, hadds.placed, hadds.buffer, hadds.frames⟩
      · obtain ⟨result, _, _, hpure⟩ := returns_bind_iff.mp h
        obtain ⟨rfl, -⟩ := returns_pure_iff.mp hpure
        exact ⟨_, Adds.addEmbedded _ result _⟩
  · obtain ⟨rfl, -⟩ := returns_pure_iff.mp h
    exact ⟨_, markKeywords_adds env _ _⟩

theorem flush_frames (h : Returns (flush env nested state) before state' after) :
    state'.frames = state.frames := by
  obtain ⟨_, hadds⟩ := flush_adds_some h
  exact hadds.frames

theorem flush_aligned (haligned : state.Aligned env)
    (h : Returns (flush env nested state) before state' after) : state'.Aligned env := by
  obtain ⟨_, hadds⟩ := flush_adds_some h
  rw [State.Aligned, TokenTree.scopes_congr hadds.starts, hadds.frames]
  exact haligned

/-! ## Getting ready for a move -/

/-- What is flushed before a mode opens: the buffer, with the begin match where the mode excludes
it. A mode whose text stays text of the mode around it has nothing flushed. -/
def beginInput (env : Env) (found : RuleMatch) (number : Nat) (state : State) : Option State :=
  let mode := env.lexer.mode number
  if mode.skip then none
  else some (if mode.excludeBegin then state.addToBuffer (env.lexeme found) else state)

/-- What is flushed before modes are left: the buffer, with the end match where it is text of the
innermost mode. -/
def endInput (env : Env) (found : RuleMatch) (state : State) : Option State :=
  let mode := state.top env
  match mode.endScope with
  | some _ => some state
  | none =>
    if mode.skip then none
    else some (if !mode.returnEnd && !mode.excludeEnd then state.addToBuffer (env.lexeme found)
      else state)

/-- A state becomes another one by adding text to the buffer, before and after flushing `input` if
this is flushed. -/
inductive Buffers (env : Env) (nested : Nested) (state : State) : Option State → State → Prop where
  | kept (text : String) : Buffers env nested state none (state.addToBuffer text)
  | flushed {flushed : State} {before after : Trace} (first second : String)
      (hflush : Returns (flush env nested (state.addToBuffer first)) before flushed after) :
      Buffers env nested state (some (state.addToBuffer first)) (flushed.addToBuffer second)

theorem ite_addToBuffer (condition : Prop) [Decidable condition] (text : String) (state : State) :
    (if condition then state.addToBuffer text else state) =
      state.addToBuffer (if condition then text else "") := by
  split
  · rfl
  · rw [addToBuffer_empty]

/-- A begin match is ignored, or the mode opens once the match is in its place. -/
theorem begin_parts
    (h : Returns (begin env nested number found state) before (state', advance) after) :
    (((askAll (env.info found) (beginHooks (env.lexer.mode number)) {}).run default).1.1 = .ignore ∧
        (state', advance) = ignore env found.index state) ∨
      (advance = advanceOver found (env.lexer.mode number).returnBegin ∧
        ∃ data ready, ((askAll (env.info found) (beginHooks (env.lexer.mode number)) {}).run
            default).1 = (.accept, data) ∧
          Buffers env nested state (beginInput env found number state) ready ∧
          state' = enter env number found data ready) := by
  simp only [begin] at h
  obtain ⟨⟨decision, data⟩, _, hask, hrest⟩ := returns_bind_iff.mp h
  have hdecision := (steady_askAll _ _ _).gives (returns_lift_iff.mp hask) default
  rw [beginHooks, hdecision]
  cases decision with
  | ignore => exact .inl ⟨rfl, (returns_pure_iff.mp hrest).1.symm⟩
  | accept =>
    right
    simp only [reduceCtorEq, if_false] at hrest
    unfold beginInput
    split at hrest
    · next hskip =>
      obtain ⟨ready, _, hready, hpure⟩ := returns_bind_iff.mp hrest
      obtain ⟨rfl, -⟩ := returns_pure_iff.mp hready
      obtain ⟨heq, -⟩ := returns_pure_iff.mp hpure
      cases heq
      rw [if_pos hskip]
      exact ⟨rfl, data, _, rfl, .kept _, rfl⟩
    · next hskip =>
      obtain ⟨flushed, _, hflush, hrest⟩ := returns_bind_iff.mp hrest
      obtain ⟨ready, _, hready, hpure⟩ := returns_bind_iff.mp hrest
      obtain ⟨rfl, -⟩ := returns_pure_iff.mp hready
      obtain ⟨heq, -⟩ := returns_pure_iff.mp hpure
      cases heq
      rw [ite_addToBuffer] at hflush
      rw [if_neg hskip, ite_addToBuffer, ite_addToBuffer]
      exact ⟨rfl, data, _, rfl, .flushed _ _ hflush, rfl⟩

/-- Puts what the scopes of an end match say into the tree. -/
def scopeEnd (env : Env) (found : RuleMatch) (mode : LexerMode) (state : State) : State :=
  match mode.endScope with
  | some (.whole scope) =>
    { state with tree := state.tree.addScoped (env.lexeme found) (env.lexer.scopeName scope) }
  | some (.segments segments) => addSegments env found state segments
  | none => state

theorem placeEnd_parts (h : Returns (placeEnd env nested found state) before state' after) :
    ∃ ready, Buffers env nested state (endInput env found state) ready ∧
      state' = scopeEnd env found (state.top env) ready := by
  have hkept : ∀ {flushed : State} {between : Trace},
      Returns (flush env nested state) before flushed between →
      Buffers env nested state (some state) flushed := by
    intro flushed between hflush
    have hbuffers : Buffers env nested state (some (state.addToBuffer ""))
        (flushed.addToBuffer "") := .flushed "" "" (by rwa [addToBuffer_empty])
    rwa [addToBuffer_empty, addToBuffer_empty] at hbuffers
  simp only [placeEnd] at h
  cases hscope : (state.top env).endScope with
  | some scope =>
    simp only [endInput, scopeEnd, hscope]
    cases scope with
    | whole scope =>
      simp only [hscope] at h
      obtain ⟨flushed, _, hflush, hpure⟩ := returns_bind_iff.mp h
      exact ⟨flushed, hkept hflush, (returns_pure_iff.mp hpure).1.symm⟩
    | segments segments =>
      simp only [hscope] at h
      obtain ⟨flushed, _, hflush, hpure⟩ := returns_bind_iff.mp h
      exact ⟨flushed, hkept hflush, (returns_pure_iff.mp hpure).1.symm⟩
  | none =>
    simp only [hscope] at h
    simp only [endInput, scopeEnd, hscope]
    split at h
    · next hskip =>
      obtain ⟨rfl, -⟩ := returns_pure_iff.mp h
      rw [if_pos hskip]
      exact ⟨_, .kept _, rfl⟩
    · next hskip =>
      obtain ⟨flushed, _, hflush, hpure⟩ := returns_bind_iff.mp h
      obtain ⟨rfl, -⟩ := returns_pure_iff.mp hpure
      rw [ite_addToBuffer] at hflush
      rw [if_neg hskip, ite_addToBuffer, ite_addToBuffer]
      exact ⟨_, .flushed _ _ hflush, rfl⟩

/-- An end match ends no mode, or modes are left once the match is in its place. -/
theorem finish_parts {advance : Option Nat}
    (h : Returns (finish env nested found state) before (state', advance) after) :
    ∃ frames, (((findEnded env found state.frames).run default).1 = (frames, none) ∧
        advance = none ∧ state' = { state with frames := frames }) ∨
      ∃ count placed between,
        ((findEnded env found state.frames).run default).1 = (frames, some count) ∧
        advance = some (advanceOver found (state.top env).returnEnd) ∧
        Returns (placeEnd env nested found { state with frames := frames }) between placed after ∧
        state' = goOn env found (outermost env state.frames count).next
          (placed.popFrames env count) := by
  simp only [finish] at h
  obtain ⟨⟨frames, count⟩, _, hfind, hrest⟩ := returns_bind_iff.mp h
  have hgives := returns_lift_iff.mp hfind
  rw [(steady_findEnded _ _ _).gives hgives default]
  refine ⟨frames, ?_⟩
  cases count with
  | none =>
    obtain ⟨heq, -⟩ := returns_pure_iff.mp hrest
    cases heq
    exact .inl ⟨rfl, rfl, rfl⟩
  | some count =>
    obtain ⟨placed, _, hplaced, hpure⟩ := returns_bind_iff.mp hrest
    obtain ⟨heq, rfl⟩ := returns_pure_iff.mp hpure
    cases heq
    refine .inr ⟨count, placed, _, rfl, ?_, hplaced, ?_⟩
    · rw [top_congr (findEnded_modes hgives)]
      rfl
    · rw [← outermost_congr (findEnded_modes hgives)]
      rfl

/-- A state becomes another one by adding text, and possibly by flushing `input` in between. -/
inductive Readies (env : Env) (nested : Nested) (state ready : State) : Option State → Prop where
  | kept (h : Keeps state ready) : Readies env nested state ready none
  | flushed {input flushed : State} {before after : Trace} (hinput : Keeps state input)
      (hflush : Returns (flush env nested input) before flushed after)
      (hready : Keeps flushed ready) : Readies env nested state ready (some input)

namespace Readies

variable {ready : State}

theorem marks (h : Readies env nested state ready input) :
    marks ready.frames = marks state.frames := by
  cases h with
  | kept h => exact h.marks
  | flushed hinput hflush hready =>
    rw [hready.marks, flush_frames hflush, hinput.marks]

theorem aligned (h : Readies env nested state ready input) (haligned : state.Aligned env) :
    ready.Aligned env := by
  cases h with
  | kept h => exact h.aligned haligned
  | flushed hinput hflush hready =>
    exact hready.aligned (flush_aligned (hinput.aligned haligned) hflush)

end Readies

theorem Buffers.readies {input : Option State} {ready : State}
    (h : Buffers env nested state input ready) : Readies env nested state ready input := by
  cases h with
  | kept text => exact .kept ⟨rfl, rfl, rfl⟩
  | flushed first second hflush => exact .flushed ⟨rfl, rfl, rfl⟩ hflush ⟨rfl, rfl, rfl⟩

theorem Keeps.scopeEnd (env : Env) (found : RuleMatch) (mode : LexerMode) (state : State) :
    Keeps state (scopeEnd env found mode state) := by
  unfold Scan.scopeEnd
  split
  · exact .of_adds (Adds.addScoped state _ _) rfl
  · exact .addSegments env found state _
  · exact .refl state

theorem placeEnd_readies (h : Returns (placeEnd env nested found state) before state' after) :
    Readies env nested state state' (endInput env found state) := by
  obtain ⟨ready, hready, rfl⟩ := placeEnd_parts h
  have hkeeps := Keeps.scopeEnd env found (state.top env) ready
  have hreadies := hready.readies
  generalize endInput env found state = input at hreadies ⊢
  cases hreadies with
  | kept h => exact .kept (h.trans hkeeps)
  | flushed hinput hflush hready => exact .flushed hinput hflush (hready.trans hkeeps)

/-! ## Which frames end -/

theorem ownEnd_mark {frame frame' : Frame} {accepted : Bool}
    (h : Gives (ownEnd env found frame) before (accepted, frame') after) :
    frame'.mark = frame.mark := by
  unfold ownEnd at h
  split at h
  · obtain ⟨heq, -⟩ := gives_pure_iff.mp h
    cases heq
    rfl
  · obtain ⟨heq, -⟩ := gives_pure_iff.mp h
    cases heq
    rfl
  · obtain ⟨⟨_, _⟩, _, _, hpure⟩ := gives_bind_iff.mp h
    obtain ⟨heq, -⟩ := gives_pure_iff.mp hpure
    cases heq
    rfl

/-- A frame that ends itself may take frames around it along, but never more than there are. -/
theorem countEnded_bounds (env : Env) (frame : Frame) (outer : List Frame) :
    0 < countEnded env (frame :: outer) ∧
      countEnded env (frame :: outer) ≤ outer.length + 1 := by
  induction outer generalizing frame with
  | nil => exact ⟨Nat.one_pos, Nat.le_refl _⟩
  | cons next outer ih =>
    have hnext := ih next
    rw [countEnded]
    · simp only [List.length_cons]
      split <;> omega
    · simp

/-- Looking for the frames that end changes nothing but the data of frames, and at least one frame
ends where any does, but never more than there are. -/
theorem findEnded_marks {frames frames' : List Frame} {count : Option Nat}
    (h : Gives (findEnded env found frames) before (frames', count) after) :
    marks frames' = marks frames ∧
      ∀ ended, count = some ended → 0 < ended ∧ ended ≤ frames.length := by
  induction frames generalizing frames' count before after with
  | nil =>
    obtain ⟨heq, -⟩ := gives_pure_iff.mp h
    cases heq
    exact ⟨rfl, fun _ hended => by cases hended⟩
  | cons frame outer ih =>
    rw [findEnded_cons] at h
    obtain ⟨⟨accepted, frame'⟩, _, hown, hrest⟩ := gives_bind_iff.mp h
    have hmark := ownEnd_mark hown
    simp only at hrest
    split at hrest
    · obtain ⟨heq, -⟩ := gives_pure_iff.mp hrest
      cases heq
      refine ⟨by simp [marks, hmark], fun ended hended => ?_⟩
      cases hended
      exact countEnded_bounds env frame' outer
    · split at hrest
      · obtain ⟨⟨outer', count'⟩, _, houter, hpure⟩ := gives_bind_iff.mp hrest
        obtain ⟨heq, -⟩ := gives_pure_iff.mp hpure
        cases heq
        obtain ⟨hmarks, hcount⟩ := ih houter
        refine ⟨?_, fun ended hended => ?_⟩
        · rw [marks, marks] at hmarks ⊢
          rw [List.map_cons, List.map_cons, hmark, hmarks]
        · obtain ⟨ended', hended', rfl⟩ := Option.map_eq_some_iff.mp hended
          have hbounds := hcount ended' hended'
          simp only [List.length_cons]
          omega
      · obtain ⟨heq, -⟩ := gives_pure_iff.mp hrest
        cases heq
        exact ⟨by simp [marks, hmark], fun _ hended => by cases hended⟩

theorem findEnded_default {count : Option Nat}
    (h : ((findEnded env found frames).run default).1 = (frames', count)) :
    marks frames' = marks frames ∧
      ∀ ended, count = some ended → 0 < ended ∧ ended ≤ frames.length :=
  findEnded_marks (show Gives (findEnded env found frames) default (frames', count) _ from
    Prod.ext h rfl)

/-! ## Handling a match -/

/-- What handling a match comes to: the move that it makes, the state after it, and how far the
scan goes on from the start of the match. -/
inductive Handles (env : Env) (nested : Nested) (found : RuleMatch) (state : State) :
    Move → State → Nat → Prop where
  | empty {number : Nat} (h : emptyMode? found state = some number) :
      Handles env nested found state .stay (state.takeChar env found.index) 1
  | ignored {number : Nat} (hkind : found.kind = .begin number)
      (hignore : ((askAll (env.info found)
        (beginHooks (env.lexer.mode number)) {}).run default).1.1 = .ignore) :
      Handles env nested found state .stay (ignore env found.index (state.recorded found)).1
        (ignore env found.index (state.recorded found)).2
  | entered {number : Nat} {data : FrameData} {ready : State} (hkind : found.kind = .begin number)
      (haccept : ((askAll (env.info found)
        (beginHooks (env.lexer.mode number)) {}).run default).1 = (.accept, data))
      (hready : Buffers env nested (state.recorded found)
        (beginInput env found number (state.recorded found)) ready) :
      Handles env nested found state (.enter number) (enter env number found data ready)
        (advanceOver found (env.lexer.mode number).returnBegin)
  | unended {frames : List Frame} (hkind : found.kind = .finish)
      (hended : ((findEnded env found state.frames).run default).1 = (frames, none)) :
      Handles env nested found state .stay
        (takeAsText env found { state.recorded found with frames := frames }).1
        (takeAsText env found { state.recorded found with frames := frames }).2
  | left {count : Nat} {frames : List Frame} {placed : State} {before after : Trace}
      (hkind : found.kind = .finish)
      (hended : ((findEnded env found state.frames).run default).1 = (frames, some count))
      (hplaced : Returns (placeEnd env nested found { state.recorded found with frames := frames })
        before placed after) :
      Handles env nested found state (.leave count)
        (goOn env found (outermost env state.frames count).next (placed.popFrames env count))
        (advanceOver found (state.top env).returnEnd)
  | illegal (hkind : found.kind = .illegal) :
      Handles env nested found state .stay (takeAsText env found (state.recorded found)).1
        (takeAsText env found (state.recorded found)).2

/-- Every match that is handled without a fault makes the move that `moveOf` computes. -/
theorem handle_parts (h : Returns (handle env nested found state) before (state', advance) after) :
    Handles env nested found state (moveOf env found state) state' advance := by
  simp only [handle] at h
  split at h
  · exact absurd h not_returns_throw_bind
  unfold moveOf
  split at h
  · next number hempty =>
    rw [hempty]
    split at h
    · exact absurd h not_returns_throw_bind
    · obtain ⟨heq, -⟩ := returns_pure_iff.mp h
      cases heq
      exact .empty hempty
  · next hsome =>
    rw [Option.eq_none_iff_forall_ne_some.mpr hsome]
    split at h
    · next number hkind =>
      rw [hkind]
      simp only
      rcases begin_parts h with ⟨hignore, heq⟩ | ⟨rfl, data, ready, haccept, hready, rfl⟩
      · have hignored : Handles env nested found state .stay _ _ := .ignored hkind hignore
        rw [State.recorded, ← heq] at hignored
        rw [hignore]
        exact hignored
      · rw [haccept]
        exact .entered hkind haccept hready
    · next hkind =>
      rw [hkind]
      split at h
      · exact absurd h not_returns_throw_bind
      · obtain ⟨heq, -⟩ := returns_pure_iff.mp h
        have hillegal : Handles env nested found state .stay _ _ := .illegal hkind
        rw [State.recorded, heq] at hillegal
        exact hillegal
    · next hkind =>
      rw [hkind]
      obtain ⟨⟨finished, advance'⟩, _, hfinish, hrest⟩ := returns_bind_iff.mp h
      obtain ⟨frames, ⟨hended, rfl, rfl⟩ | ⟨count, placed, _, hended, rfl, hplaced, rfl⟩⟩ :=
        finish_parts hfinish
      · obtain ⟨heq, -⟩ := returns_pure_iff.mp hrest
        have hunended : Handles env nested found state .stay _ _ := .unended hkind hended
        rw [State.recorded, heq] at hunended
        rw [hended]
        exact hunended
      · obtain ⟨heq, -⟩ := returns_pure_iff.mp hrest
        cases heq
        rw [hended]
        exact .left hkind hended hplaced

/-! ## Moves -/

/-- What has become of the state after a move. -/
inductive Moved (env : Env) (nested : Nested) (found : RuleMatch) (state : State) :
    Move → State → Prop where
  | stay {state' : State} (h : Keeps state state') : Moved env nested found state .stay state'
  | enter {number : Nat} {data : FrameData} {ready : State} (hkind : found.kind = .begin number)
      (hready : Readies env nested state ready (beginInput env found number state)) :
      Moved env nested found state (.enter number) (enter env number found data ready)
  | leave {count : Nat} {frames : List Frame} {ready : State} (hkind : found.kind = .finish)
      (hmarks : marks frames = marks state.frames) (hpositive : 0 < count)
      (hle : count ≤ state.frames.length)
      (hready : Readies env nested { state with frames := frames } ready
        (endInput env found { state with frames := frames })) :
      Moved env nested found state (.leave count)
        (goOn env found (outermost env state.frames count).next (ready.popFrames env count))

/-- An end match ends no mode, or modes are left once the match is in its place. -/
theorem finish_readies {advance : Option Nat}
    (h : Returns (finish env nested found state) before (state', advance) after) :
    ∃ frames, marks frames = marks state.frames ∧
      ((((findEnded env found state.frames).run default).1.2 = none ∧ advance = none ∧
          state' = { state with frames := frames }) ∨
        ∃ count ready, ((findEnded env found state.frames).run default).1.2 = some count ∧
          advance.isSome = true ∧ 0 < count ∧ count ≤ state.frames.length ∧
          Readies env nested { state with frames := frames } ready
            (endInput env found { state with frames := frames }) ∧
          state' = goOn env found (outermost env state.frames count).next
            (ready.popFrames env count)) := by
  obtain ⟨frames, ⟨hended, hadvance, hstate⟩ | ⟨count, placed, _, hended, rfl, hplaced, rfl⟩⟩ :=
    finish_parts h
  · exact ⟨frames, (findEnded_default hended).1, .inl ⟨congrArg Prod.snd hended, hadvance, hstate⟩⟩
  · obtain ⟨hmarks, hbounds⟩ := findEnded_default hended
    obtain ⟨hpositive, hle⟩ := hbounds count rfl
    exact ⟨frames, hmarks, .inr ⟨count, placed, congrArg Prod.snd hended, rfl, hpositive, hle,
      placeEnd_readies hplaced, rfl⟩⟩

/-- Every match that is handled without a fault makes the move that `moveOf` computes. -/
theorem handle_moved (h : Returns (handle env nested found state) before (state', advance) after) :
    Moved env nested found (state.recorded found) (moveOf env found state) state' := by
  have hhandles := handle_parts h
  generalize moveOf env found state = move at hhandles ⊢
  cases hhandles with
  | empty hempty =>
    have hkeeps := Keeps.takeChar env found.index state
    exact .stay ⟨hkeeps.marks, hkeeps.scopes, hkeeps.continuations⟩
  | ignored hkind hignore => exact .stay (.ignore env found.index _)
  | entered hkind haccept hready => exact .enter hkind hready.readies
  | @unended frames hkind hended =>
    have hkeeps := Keeps.takeAsText env found { state.recorded found with frames := frames }
    exact .stay ⟨hkeeps.marks.trans (findEnded_default hended).1, hkeeps.scopes,
      hkeeps.continuations⟩
  | @left count _ _ _ _ hkind hended hplaced =>
    obtain ⟨hmarks, hbounds⟩ := findEnded_default hended
    obtain ⟨hpositive, hle⟩ := hbounds count rfl
    exact .leave hkind hmarks hpositive hle (placeEnd_readies hplaced)
  | illegal hkind => exact .stay (.takeAsText env found _)

/-- The marks of the frames after a move: what is entered has not been credited. -/
def moveMarks (env : Env) (frames : List Frame) : Move → List (Nat × Bool)
  | .stay => marks frames
  | .enter number => (number, false) :: marks frames
  | .leave count =>
    ((outermost env frames count).next.map fun number => (number, false)).toList ++
      (marks frames).drop count

@[simp] theorem frames_popFrame (env : Env) (state : State) :
    (state.popFrame env).frames = state.frames.tail := by
  unfold State.popFrame
  split
  · next hframes => rw [hframes, List.tail_nil]
  · next hframes => rw [hframes, List.tail_cons]

@[simp] theorem frames_popFrames (env : Env) (count : Nat) (state : State) :
    (state.popFrames env count).frames = state.frames.drop count := by
  induction count generalizing state with
  | zero => rfl
  | succ count ih => rw [State.popFrames, ih, frames_popFrame, List.drop_tail]

@[simp] theorem continuations_popFrames (env : Env) (count : Nat) (state : State) :
    (state.popFrames env count).continuations = state.continuations := by
  induction count generalizing state with
  | zero => rfl
  | succ count ih =>
    rw [State.popFrames, ih, State.popFrame]
    split <;> rfl

theorem popFrame_aligned (h : state.Aligned env) : (state.popFrame env).Aligned env := by
  unfold State.Aligned State.popFrame at *
  split
  · exact h
  · next frame outer hframes =>
    rw [hframes, List.filterMap_cons] at h
    dsimp only
    unfold scope? at h
    cases hscope : (env.lexer.mode frame.mode).scope with
    | none =>
      rw [hscope] at h
      exact h
    | some scope =>
      rw [hscope] at h
      simp only [Option.isSome_some, if_true, TokenTree.scopes_closeNode, h, Option.map_some,
        List.tail_cons]
      rfl

theorem popFrames_aligned (h : state.Aligned env) (count : Nat) :
    (state.popFrames env count).Aligned env := by
  induction count generalizing state with
  | zero => exact h
  | succ count ih => exact ih (popFrame_aligned h)

theorem enter_keeps (env : Env) (number : Nat) (found : RuleMatch) (data : FrameData)
    (state : State) :
    Keeps { state with
        frames := { mode := number, data := data } :: state.frames
        tree := openScope env (env.lexer.mode number) state.tree }
      (enter env number found data state) := by
  rw [enter_eq]
  split
  · exact .refl _
  · exact ⟨rfl, TokenTree.scopes_congr (TokenTree.starts_addScoped _ _ _), rfl⟩
  · have hkeeps := Keeps.addSegments env found
      { state with tree := openScope env (env.lexer.mode number) state.tree }
    exact ⟨rfl, (hkeeps _).scopes, (hkeeps _).continuations⟩

theorem enter_aligned (number : Nat) (found : RuleMatch) (data : FrameData)
    (h : state.Aligned env) : (enter env number found data state).Aligned env := by
  refine (enter_keeps env number found data state).aligned ?_
  unfold State.Aligned openScope scope? at *
  rw [List.filterMap_cons]
  cases (env.lexer.mode number).scope with
  | none => exact h
  | some scope =>
    simp only [TokenTree.scopes_openNode, h, Option.map_some]

theorem enter_marks (number : Nat) (found : RuleMatch) (data : FrameData) :
    marks (enter env number found data state).frames = (number, false) :: marks state.frames :=
  (enter_keeps env number found data state).marks

theorem goOn_aligned (found : RuleMatch) (next : Option Nat) (h : state.Aligned env) :
    (goOn env found next state).Aligned env := by
  cases next with
  | none => exact h
  | some number => exact enter_aligned number found {} h

theorem goOn_marks (found : RuleMatch) (next : Option Nat) :
    marks (goOn env found next state).frames =
      (next.map fun number => (number, false)).toList ++ marks state.frames := by
  cases next with
  | none => rfl
  | some number => exact enter_marks number found {}

namespace Moved

/-- The stack after a move. -/
theorem marks (h : Moved env nested found state move state') :
    marks state'.frames = moveMarks env state.frames move := by
  cases h with
  | stay h => exact h.marks
  | @enter number data ready hkind hready => rw [enter_marks, hready.marks, moveMarks]
  | leave hkind hmarks hpositive hle hready =>
    rw [goOn_marks, frames_popFrames, marks_drop, hready.marks, hmarks, moveMarks]

/-- Scopes open and close with their modes. -/
theorem aligned (h : Moved env nested found state move state') (haligned : state.Aligned env) :
    state'.Aligned env := by
  cases h with
  | stay h => exact h.aligned haligned
  | enter hkind hready => exact enter_aligned _ _ _ (hready.aligned haligned)
  | @leave count frames ready hkind hmarks hpositive hle hready =>
    have hmoved : Keeps state { state with frames := frames } := ⟨hmarks, rfl, rfl⟩
    exact goOn_aligned _ _ (popFrames_aligned (hready.aligned (hmoved.aligned haligned)) count)

end Moved

/-- A step finds no match and leaves the stack as it is, or makes the move of the match that it
finds. -/
theorem step_moved {progress : Progress}
    (h : Returns (step env nested state) before progress after) :
    (nextVisit? env state = none ∧ progress = .done state.begun) ∨
      ∃ found cursor state' advance,
        (state.top env).rules.find env.text state.index state.begun.cursor =
          .ok (some found, cursor) ∧
        nextVisit? env state =
          some (found, moveOf env found (state.reached env found cursor)) ∧
        Moved env nested found ((state.reached env found cursor).recorded found)
          (moveOf env found (state.reached env found cursor)) state' ∧
        progress.last = { state' with index := found.index + advance } := by
  rcases step_cases h with ⟨⟨cursor, hfind⟩, hdone⟩ |
    ⟨found, cursor, state', advance, hfind, hhandle, hlast⟩
  · left
    refine ⟨?_, hdone⟩
    simp only [nextVisit?, hfind]
  · right
    refine ⟨found, cursor, state', advance, hfind, ?_, handle_moved hhandle, hlast⟩
    simp only [nextVisit?, hfind]

end Scan

end Highlighter
