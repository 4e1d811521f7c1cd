import Highlighter.Proofs.Scan.Flush
import Highlighter.Scan.Step

/-!
# What one match does

A match makes the scan enter a mode, leave modes, or stay where it is. Which of these happens is
decided by the hooks and the end patterns alone, and `moveOf` computes it with the scan's own
functions. For each kind of move, one lemma says everything about the state after it: what text
goes into the tree, what stays in the buffer, and how far the scan advances.
-/

namespace Highlighter.Scan

/-- What a match does to the stack of modes. -/
inductive Move where
  /-- The modes stay as they are, and the match is taken as text or ignored. -/
  | stay
  | enter (number : Nat)
  /-- So many modes are left, the innermost first. -/
  | leave (count : Nat)
  deriving DecidableEq, Repr

/-- The hooks that may ignore the begin match of a mode, in the order in which they are asked. -/
def beginHooks (mode : LexerMode) : List Hook :=
  mode.beforeBegin.toList ++ mode.onBegin.toList

/-- What a match does in a state. The hooks are asked with an empty trace, which does not change
their answers. -/
def moveOf (env : Env) (found : RuleMatch) (state : State) : Move :=
  match emptyMode? found state, found.kind with
  | some _, _ | none, .illegal => .stay
  | none, .begin number =>
    match ((askAll (env.info found) (beginHooks (env.lexer.mode number)) {}).run default).1.1 with
    | .accept => .enter number
    | .ignore => .stay
  | none, .finish =>
    match ((findEnded env found state.frames).run default).1.2 with
    | some count => .leave count
    | none => .stay

theorem steady_askAll (info : MatchInfo) (hooks : List Hook) (data : FrameData) :
    Steady (askAll info hooks data) := by
  induction hooks generalizing data with
  | nil => exact steady_pure _
  | cons hook hooks ih =>
    refine (steady_ask _ hook info data).bind ?_
    rintro ⟨decision, data⟩
    cases decision with
    | accept => exact ih data
    | ignore => exact steady_pure _

/-- Whether a frame itself ends at a match, with its data brought up to date. -/
def ownEnd (env : Env) (found : RuleMatch) (frame : Frame) : Traced (Bool × Frame) :=
  match endsAt (env.lexer.mode frame.mode) env.text found.index,
      (env.lexer.mode frame.mode).onEnd with
  | false, _ => return (false, frame)
  | true, none => return (true, frame)
  | true, some hook => do
    let (decision, data) ← Trace.ask .finish hook (env.info found) frame.data
    return (decision == .accept, { frame with data := data })

theorem findEnded_cons (env : Env) (found : RuleMatch) (frame : Frame) (outer : List Frame) :
    findEnded env found (frame :: outer) = ownEnd env found frame >>= fun (accepted, frame') =>
      if accepted then pure (frame' :: outer, some (countEnded env (frame' :: outer)))
      else if (env.lexer.mode frame.mode).endsWithParent then
        findEnded env found outer >>= fun (outer', count) =>
          pure (frame' :: outer', count.map (· + 1))
      else pure (frame' :: outer, none) := by
  simp only [findEnded, ownEnd]
  split
  · next hends =>
    rw [hends]
    split
    · next hhook =>
      rw [hhook]
      rfl
    · next hhook => rw [hhook]
  · next hends =>
    rw [Bool.not_eq_true] at hends
    rw [hends]

theorem steady_ownEnd (env : Env) (found : RuleMatch) (frame : Frame) :
    Steady (ownEnd env found frame) := by
  unfold ownEnd
  split
  · exact steady_pure _
  · exact steady_pure _
  · exact (steady_ask _ _ _ _).bind fun _ => steady_pure _

theorem ownEnd_mode {env : Env} {found : RuleMatch} {frame frame' : Frame} {accepted : Bool}
    {before after : Trace} (h : Gives (ownEnd env found frame) before (accepted, frame') after) :
    frame'.mode = frame.mode := by
  unfold ownEnd at h
  split at h
  · obtain ⟨heq, -⟩ := gives_pure_iff.mp h
    cases heq
    rfl
  · obtain ⟨heq, -⟩ := gives_pure_iff.mp h
    cases heq
    rfl
  · obtain ⟨⟨_, _⟩, _, _, hpure⟩ := gives_bind_iff.mp h
    obtain ⟨heq, -⟩ := gives_pure_iff.mp hpure
    cases heq
    rfl

theorem steady_findEnded (env : Env) (found : RuleMatch) (frames : List Frame) :
    Steady (findEnded env found frames) := by
  induction frames with
  | nil => exact steady_pure _
  | cons frame outer ih =>
    rw [findEnded_cons]
    refine (steady_ownEnd env found frame).bind ?_
    rintro ⟨accepted, frame'⟩
    simp only
    split
    · exact steady_pure _
    · split
      · exact ih.bind fun _ => steady_pure _
      · exact steady_pure _

/-- Looking for the frames that end changes nothing but the data of frames. -/
theorem findEnded_modes {env : Env} {found : RuleMatch} {frames frames' : List Frame}
    {count : Option Nat} {before after : Trace}
    (h : Gives (findEnded env found frames) before (frames', count) after) :
    frames'.map (·.mode) = frames.map (·.mode) := by
  induction frames generalizing frames' count before after with
  | nil =>
    obtain ⟨heq, -⟩ := gives_pure_iff.mp h
    cases heq
    rfl
  | cons frame outer ih =>
    rw [findEnded_cons] at h
    obtain ⟨⟨accepted, frame'⟩, _, hown, hrest⟩ := gives_bind_iff.mp h
    have hmode := ownEnd_mode hown
    simp only at hrest
    split at hrest
    · obtain ⟨heq, -⟩ := gives_pure_iff.mp hrest
      cases heq
      simp [hmode]
    · split at hrest
      · obtain ⟨⟨outer', _⟩, _, houter, hpure⟩ := gives_bind_iff.mp hrest
        obtain ⟨heq, -⟩ := gives_pure_iff.mp hpure
        cases heq
        simp [hmode, ih houter]
      · obtain ⟨heq, -⟩ := gives_pure_iff.mp hrest
        cases heq
        simp [hmode]

/-- Where text goes: into the tree, and into the buffer that is there afterwards. -/
structure Delivery where
  tree : String
  buffer : String

/-- The second state has received a delivery in the place of the buffer of the first. -/
def Receives (state : State) (delivery : Delivery) (state' : State) : Prop :=
  Adds { state with buffer := delivery.buffer } delivery.tree state'

/-- Where the buffer and a begin match go before the mode opens. -/
def beginDelivery (mode : LexerMode) (buffer lexeme : String) : Delivery :=
  if mode.skip then ⟨"", buffer ++ lexeme⟩
  else if mode.excludeBegin then ⟨buffer ++ lexeme, ""⟩
  else if mode.returnBegin then ⟨buffer, ""⟩
  else ⟨buffer, lexeme⟩

/-- Where the buffer goes when a mode opens: a scope for the begin match takes it, and segments of
the begin match stand in its place. -/
def openDelivery (text : Array Char) (found : RuleMatch) (mode : LexerMode) (buffer : String) :
    Delivery :=
  match mode.beginScope with
  | none => ⟨"", buffer⟩
  | some (.whole _) => ⟨buffer, ""⟩
  | some (.segments segments) => ⟨segmentsText text found segments, ""⟩

/-- Where the buffer and an end match go when `mode` is the innermost mode. -/
def endDelivery (text : Array Char) (found : RuleMatch) (mode : LexerMode) (buffer : String) :
    Delivery :=
  let lexeme := found.span.text text
  match mode.endScope with
  | some (.whole _) => ⟨buffer ++ lexeme, ""⟩
  | some (.segments segments) => ⟨buffer ++ segmentsText text found segments, ""⟩
  | none =>
    if mode.skip then ⟨"", buffer ++ lexeme⟩
    else if mode.excludeEnd then ⟨buffer, lexeme⟩
    else if mode.returnEnd then ⟨buffer, ""⟩
    else ⟨buffer ++ lexeme, ""⟩

/-- The distance to advance after a match of which the text may be left to be scanned again. -/
def advanceOver (found : RuleMatch) (isReturned : Bool) : Nat :=
  if isReturned then 0 else width found

/-- A tree in which the scope of a mode is open. -/
def openScope (env : Env) (mode : LexerMode) (tree : TokenTree) : TokenTree :=
  match mode.scope with
  | some scope => tree.openNode (env.lexer.scopeName scope)
  | none => tree

variable {env : Env} {nested : Nested} {found : RuleMatch} {state state' : State}
  {advance number : Nat} {before after : Trace}

theorem Receives.addToBuffer {added : String} (h : Receives state ⟨added, ""⟩ state')
    (text : String) : Receives state ⟨added, text⟩ (state'.addToBuffer text) := by
  have hadds := h.withBuffer text
  have hbuffer : state'.buffer = "" := h.buffer
  rw [State.addToBuffer, hbuffer, String.empty_append]
  exact hadds

theorem addToBuffer_empty (state : State) : state.addToBuffer "" = state := by
  rw [State.addToBuffer, String.append_empty]

/-- What is flushed along with the buffer goes into the tree, what follows into the buffer. -/
theorem flush_receives (hnested : nested.KeepsText) (second : String) {first : String}
    {flushed : State}
    (h : Returns (flush env nested (state.addToBuffer first)) before flushed after) :
    Receives state ⟨state.buffer ++ first, second⟩ (flushed.addToBuffer second) :=
  Receives.addToBuffer (flush_adds hnested h) second

theorem enter_eq (env : Env) (number : Nat) (found : RuleMatch) (data : FrameData)
    (state : State) :
    enter env number found data state =
      let opened := { state with
        frames := { mode := number, data := data } :: state.frames
        tree := openScope env (env.lexer.mode number) state.tree }
      match (env.lexer.mode number).beginScope with
      | none => opened
      | some (.whole scope) => { opened with
          tree := opened.tree.addScoped state.buffer (env.lexer.scopeName scope)
          buffer := "" }
      | some (.segments segments) => { addSegments env found
          { state with tree := openScope env (env.lexer.mode number) state.tree } segments with
          frames := { mode := number, data := data } :: state.frames
          buffer := "" } := by
  have hframes := fun segments => (addSegments_adds env found
    { state with tree := openScope env (env.lexer.mode number) state.tree } segments).frames
  unfold enter openScope at *
  split <;> split <;> simp_all

theorem enter_receives (env : Env) (number : Nat) (found : RuleMatch) (data : FrameData)
    (state : State) :
    Receives { state with
        frames := { mode := number, data := data } :: state.frames
        tree := openScope env (env.lexer.mode number) state.tree }
      (openDelivery env.text found (env.lexer.mode number) state.buffer)
      (enter env number found data state) := by
  rw [enter_eq, openDelivery]
  split
  · exact Adds.refl _
  · next scope _ =>
    have hadds := Adds.addScoped { state with
      frames := { mode := number, data := data } :: state.frames
      tree := openScope env (env.lexer.mode number) state.tree } state.buffer
      (env.lexer.scopeName scope)
    exact hadds.withBuffer ""
  · next segments _ =>
    have hadds := addSegments_adds env found { state with
      tree := openScope env (env.lexer.mode number) state.tree } segments
    exact ⟨hadds.content, hadds.starts, hadds.placed, rfl, rfl⟩

/-- A begin match is ignored, or the mode opens once the match is in its place. -/
theorem begin_cases (hnested : nested.KeepsText)
    (h : Returns (begin env nested number found state) before (state', advance) after) :
    (((askAll (env.info found) (beginHooks (env.lexer.mode number)) {}).run default).1.1 = .ignore ∧
        (state', advance) = ignore env found.index state) ∨
      (((askAll (env.info found) (beginHooks (env.lexer.mode number)) {}).run default).1.1 =
          .accept ∧
        advance = advanceOver found (env.lexer.mode number).returnBegin ∧
        ∃ data ready, state' = enter env number found data ready ∧
          Receives state
            (beginDelivery (env.lexer.mode number) state.buffer (env.lexeme found)) ready) := by
  simp only [begin] at h
  obtain ⟨⟨decision, data⟩, _, hask, hrest⟩ := returns_bind_iff.mp h
  have hdecision := (steady_askAll _ _ _).gives (returns_lift_iff.mp hask) default
  rw [beginHooks, hdecision]
  cases decision with
  | ignore =>
    left
    obtain ⟨heq, -⟩ := returns_pure_iff.mp hrest
    exact ⟨rfl, heq.symm⟩
  | accept =>
    right
    simp only [reduceCtorEq, if_false] at hrest
    refine ⟨rfl, ?_⟩
    unfold beginDelivery
    split at hrest
    · next hskip =>
      obtain ⟨ready, _, hready, hpure⟩ := returns_bind_iff.mp hrest
      obtain ⟨rfl, -⟩ := returns_pure_iff.mp hready
      obtain ⟨heq, -⟩ := returns_pure_iff.mp hpure
      cases heq
      rw [if_pos hskip]
      exact ⟨rfl, data, _, rfl, Adds.refl _⟩
    · next hskip =>
      obtain ⟨flushed, _, hflush, hrest⟩ := returns_bind_iff.mp hrest
      obtain ⟨ready, _, hready, hpure⟩ := returns_bind_iff.mp hrest
      obtain ⟨rfl, -⟩ := returns_pure_iff.mp hready
      obtain ⟨heq, -⟩ := returns_pure_iff.mp hpure
      cases heq
      rw [if_neg hskip]
      refine ⟨rfl, data, _, rfl, ?_⟩
      cases hexclude : (env.lexer.mode number).excludeBegin
      · simp only [hexclude, Bool.false_eq_true, if_false] at hflush ⊢
        rw [← addToBuffer_empty state] at hflush
        have hreceives := fun text => flush_receives hnested text hflush
        simp only [String.append_empty] at hreceives
        cases hreturn : (env.lexer.mode number).returnBegin
        · exact hreceives _
        · have hempty := hreceives ""
          rwa [addToBuffer_empty] at hempty
      · simp only [hexclude, if_true] at hflush ⊢
        have hreceives := flush_receives hnested "" hflush
        rw [addToBuffer_empty] at hreceives
        simpa using hreceives

theorem placeEnd_receives (hnested : nested.KeepsText)
    (h : Returns (placeEnd env nested found state) before state' after) :
    Receives state (endDelivery env.text found (state.top env) state.buffer) state' := by
  have hflushed : ∀ {flushed : State} {after : Trace},
      Returns (flush env nested state) before flushed after →
        Receives state ⟨state.buffer, ""⟩ flushed :=
    fun hflush => flush_adds hnested hflush
  cases hscope : (state.top env).endScope with
  | some scope =>
    cases scope with
    | whole scope =>
      simp only [placeEnd, hscope] at h
      obtain ⟨flushed, _, hflush, hpure⟩ := returns_bind_iff.mp h
      obtain ⟨rfl, -⟩ := returns_pure_iff.mp hpure
      simp only [endDelivery, hscope]
      exact (hflushed hflush).trans (Adds.addScoped flushed _ _)
    | segments segments =>
      simp only [placeEnd, hscope] at h
      obtain ⟨flushed, _, hflush, hpure⟩ := returns_bind_iff.mp h
      obtain ⟨rfl, -⟩ := returns_pure_iff.mp hpure
      simp only [endDelivery, hscope]
      exact (hflushed hflush).trans (addSegments_adds env found flushed segments)
  | none =>
    simp only [placeEnd, hscope] at h
    simp only [endDelivery, hscope]
    cases hskip : (state.top env).skip with
    | true =>
      simp only [hskip, if_true] at h ⊢
      obtain ⟨rfl, -⟩ := returns_pure_iff.mp h
      exact Adds.refl _
    | false =>
      simp only [hskip, Bool.false_eq_true, if_false] at h ⊢
      obtain ⟨flushed, _, hflush, hpure⟩ := returns_bind_iff.mp h
      obtain ⟨rfl, -⟩ := returns_pure_iff.mp hpure
      cases hexclude : (state.top env).excludeEnd
      · cases hreturn : (state.top env).returnEnd
        · simp only [hexclude, hreturn, Bool.not_false, Bool.and_self, if_true] at hflush
          have hreceives := flush_receives hnested "" hflush
          rwa [addToBuffer_empty] at hreceives
        · simp only [hexclude, hreturn, Bool.not_false, Bool.not_true, Bool.false_and,
            Bool.false_eq_true, if_false] at hflush
          exact hflushed hflush
      · simp only [hexclude, Bool.not_true, Bool.and_false, Bool.false_eq_true, if_false] at hflush
        exact (hflushed hflush).addToBuffer _

/-- The outermost of the modes that are left when `count` frames are left. -/
def outermost (env : Env) (frames : List Frame) (count : Nat) : LexerMode :=
  (frames[count - 1]?.map fun frame => env.lexer.mode frame.mode).getD default

theorem outermost_congr {frames frames' : List Frame}
    (hmodes : frames'.map (·.mode) = frames.map (·.mode)) (count : Nat) :
    outermost env frames' count = outermost env frames count := by
  have hget := congrArg (fun modes => (modes[count - 1]?.map env.lexer.mode).getD default) hmodes
  simp only [List.getElem?_map, Option.map_map] at hget
  exact hget

theorem top_congr {frames : List Frame} (hmodes : frames.map (·.mode) = state.frames.map (·.mode)) :
    ({ state with frames := frames } : State).top env = state.top env := by
  have hhead := congrArg List.head? hmodes
  simp only [List.head?_map] at hhead
  simp only [State.top, hhead]

/-- Enters the mode that follows, if there is one. -/
def goOn (env : Env) (found : RuleMatch) (next : Option Nat) (state : State) : State :=
  match next with
  | some number => enter env number found {} state
  | none => state

/-- An end match ends no mode, or modes are left once the match is in its place. -/
theorem finish_cases (hnested : nested.KeepsText) {advance : Option Nat}
    (h : Returns (finish env nested found state) before (state', advance) after) :
    ∃ frames, frames.map (·.mode) = state.frames.map (·.mode) ∧
      ((((findEnded env found state.frames).run default).1.2 = none ∧ advance = none ∧
          state' = { state with frames := frames }) ∨
        ∃ count ready, ((findEnded env found state.frames).run default).1.2 = some count ∧
          advance = some (advanceOver found (state.top env).returnEnd) ∧
          Receives { state with frames := frames }
            (endDelivery env.text found (state.top env) state.buffer) ready ∧
          state' = goOn env found (outermost env state.frames count).next
            (ready.popFrames env count)) := by
  simp only [finish] at h
  obtain ⟨⟨frames, count⟩, _, hfind, hrest⟩ := returns_bind_iff.mp h
  have hgives := returns_lift_iff.mp hfind
  have hmodes := findEnded_modes hgives
  rw [(steady_findEnded _ _ _).gives hgives default]
  refine ⟨frames, hmodes, ?_⟩
  cases count with
  | none =>
    left
    obtain ⟨heq, -⟩ := returns_pure_iff.mp hrest
    cases heq
    exact ⟨rfl, rfl, rfl⟩
  | some count =>
    right
    obtain ⟨ready, _, hready, hpure⟩ := returns_bind_iff.mp hrest
    obtain ⟨heq, -⟩ := returns_pure_iff.mp hpure
    cases heq
    have hreceives := placeEnd_receives hnested hready
    rw [top_congr hmodes] at hreceives ⊢
    refine ⟨count, ready, rfl, rfl, hreceives, ?_⟩
    rw [← outermost_congr hmodes]
    rfl

/-- What has become of the state after a move, and how far the scan advances. -/
inductive Handled (env : Env) (found : RuleMatch) (state : State) : Move → State → Nat → Prop where
  | stay {state' : State} {advance : Nat} (htree : state'.tree = state.tree)
      (hmodes : state'.frames.map (·.mode) = state.frames.map (·.mode))
      (hbuffer : state'.buffer = state.buffer ++ env.slice found.index (found.index + advance)) :
      Handled env found state .stay state' advance
  | enter {number : Nat} {data : FrameData} {ready : State} (hkind : found.kind = .begin number)
      (hready : Receives state
        (beginDelivery (env.lexer.mode number) state.buffer (env.lexeme found)) ready) :
      Handled env found state (.enter number) (enter env number found data ready)
        (advanceOver found (env.lexer.mode number).returnBegin)
  | leave {count : Nat} {frames : List Frame} {ready : State} (hkind : found.kind = .finish)
      (hmodes : frames.map (·.mode) = state.frames.map (·.mode))
      (hready : Receives { state with frames := frames }
        (endDelivery env.text found (state.top env) state.buffer) ready) :
      Handled env found state (.leave count)
        (goOn env found (outermost env state.frames count).next (ready.popFrames env count))
        (advanceOver found (state.top env).returnEnd)

theorem takeChar_handled (env : Env) (found : RuleMatch) (state : State) :
    Handled env found state .stay (state.takeChar env found.index) 1 := by
  unfold State.takeChar
  split
  · next c hc =>
    refine .stay rfl rfl ?_
    rw [Env.slice, Regex.Span.text_succ hc]
    rfl
  · next hnone =>
    have hle := Array.getElem?_eq_none_iff.mp hnone
    refine .stay rfl rfl ?_
    rw [Env.slice, ← Regex.Span.text_min, Regex.Span.text_of_le (by omega), String.append_empty]

theorem takeAsText_handled (hspan : found.span.start = found.index)
    (hwithin : found.span.Within env.text.size) (state : State) :
    Handled env found state .stay (takeAsText env found state).1
      (takeAsText env found state).2 := by
  unfold takeAsText
  split
  · exact takeChar_handled env found state
  · refine .stay rfl rfl ?_
    have hstart := hwithin.start_le
    have hstop : found.index + width found = found.span.stop := by
      unfold width
      omega
    rw [State.addToBuffer, Env.lexeme, Env.slice, hstop, ← hspan]

theorem ignore_handled (env : Env) (found : RuleMatch) (state : State) :
    Handled env found state .stay (ignore env found.index state).1
      (ignore env found.index state).2 := by
  unfold ignore
  split
  · exact takeChar_handled env found state
  · refine .stay rfl rfl ?_
    rw [Env.slice, Nat.add_zero, Regex.Span.text_self, String.append_empty]

theorem Handled.of_lastMatch {lastMatch : Option (RuleKind × Nat)} {move : Move}
    (h : Handled env found { state with lastMatch := lastMatch } move state' advance) :
    Handled env found state move state' advance := by
  cases h with
  | stay htree hmodes hbuffer => exact .stay htree hmodes hbuffer
  | enter hkind hready =>
    exact .enter hkind ⟨hready.content, hready.starts, hready.placed, hready.buffer, hready.frames⟩
  | leave hkind hmodes hready =>
    exact .leave hkind hmodes
      ⟨hready.content, hready.starts, hready.placed, hready.buffer, hready.frames⟩

/-- Every match that is handled without a fault makes the move that `moveOf` computes. -/
theorem handle_handled (hnested : nested.KeepsText) (hspan : found.span.start = found.index)
    (hwithin : found.span.Within env.text.size)
    (h : Returns (handle env nested found state) before (state', advance) after) :
    Handled env found state (moveOf env found state) state' advance := by
  simp only [handle] at h
  split at h
  · exact absurd h not_returns_throw_bind
  unfold moveOf
  split at h
  · next number hempty =>
    rw [hempty]
    split at h
    · exact absurd h not_returns_throw_bind
    · obtain ⟨heq, -⟩ := returns_pure_iff.mp h
      cases heq
      exact takeChar_handled env found state
  · next hsome =>
    rw [Option.eq_none_iff_forall_ne_some.mpr hsome]
    split at h
    · next number hkind =>
      rw [hkind]
      simp only
      rcases begin_cases hnested h with ⟨hignore, heq⟩ | ⟨haccept, hadvance, data, ready, hstate, hready⟩
      · rw [hignore]
        have hstay := ignore_handled env found
          { state with lastMatch := some (found.kind, found.index) }
        rw [← heq] at hstay
        exact hstay.of_lastMatch
      · rw [haccept, hadvance, hstate]
        exact Handled.of_lastMatch (.enter hkind hready)
    · next hkind =>
      rw [hkind]
      split at h
      · exact absurd h not_returns_throw_bind
      · obtain ⟨heq, -⟩ := returns_pure_iff.mp h
        have hstay := takeAsText_handled hspan hwithin
          { state with lastMatch := some (found.kind, found.index) }
        rw [heq] at hstay
        exact hstay.of_lastMatch
    · next hkind =>
      rw [hkind]
      obtain ⟨⟨finished, advance'⟩, _, hfinish, hrest⟩ := returns_bind_iff.mp h
      obtain ⟨frames, hmodes, ⟨hnone, rfl, rfl⟩ | ⟨count, ready, hcount, rfl, hready, rfl⟩⟩ :=
        finish_cases hnested hfinish
      · rw [hnone]
        obtain ⟨heq, -⟩ := returns_pure_iff.mp hrest
        have hstay := takeAsText_handled hspan hwithin
          { state with frames := frames, lastMatch := some (found.kind, found.index) }
        rw [heq] at hstay
        cases hstay with
        | stay htree hframes hbuffer => exact .stay htree (hframes.trans hmodes) hbuffer
      · rw [hcount]
        obtain ⟨heq, -⟩ := returns_pure_iff.mp hrest
        cases heq
        exact Handled.of_lastMatch (.leave hkind hmodes hready)

end Highlighter.Scan
