import Highlighter.Proofs.Lexer.Build
import Highlighter.Proofs.Scan.Step
import Highlighter.Scan.Run

/-!
# Delivering a match

A scan has written the text in its tree and in its buffer. A match is delivered when its text has
been written once, or not at all if the scan does not advance past it. Whether that happens is
decided by the flags and the scopes of the innermost mode, of the mode that is entered, and of the
mode that follows the modes that are left; `Delivers` says exactly when.
-/

namespace Highlighter.Scan

/-- The text that a scan has written so far: in the tree, open scopes included, and in the
buffer. -/
def State.written (state : State) : String :=
  state.tree.content ++ state.buffer

variable {env : Env} {nested : Nested} {found : RuleMatch} {state state' : State} {move : Move}
  {advance : Nat} {before after : Trace}

@[simp] theorem content_openScope (env : Env) (mode : LexerMode) (tree : TokenTree) :
    (openScope env mode tree).content = tree.content := by
  unfold openScope
  split <;> simp

@[simp] theorem content_popFrame (env : Env) (state : State) :
    (state.popFrame env).tree.content = state.tree.content := by
  unfold State.popFrame
  split
  · rfl
  · simp only
    split <;> simp

@[simp] theorem buffer_popFrame (env : Env) (state : State) :
    (state.popFrame env).buffer = state.buffer := by
  unfold State.popFrame
  split <;> rfl

@[simp] theorem content_popFrames (env : Env) (count : Nat) (state : State) :
    (state.popFrames env count).tree.content = state.tree.content := by
  induction count generalizing state with
  | zero => rfl
  | succ count ih => rw [State.popFrames, ih, content_popFrame]

@[simp] theorem buffer_popFrames (env : Env) (count : Nat) (state : State) :
    (state.popFrames env count).buffer = state.buffer := by
  induction count generalizing state with
  | zero => rfl
  | succ count ih => rw [State.popFrames, ih, buffer_popFrame]

theorem Receives.written {delivery : Delivery} (h : Receives state delivery state') :
    state'.written = state.tree.content ++ delivery.tree ++ delivery.buffer := by
  rw [State.written, h.content, h.buffer]

theorem enter_written (env : Env) (number : Nat) (found : RuleMatch) (data : FrameData)
    (state : State) :
    (enter env number found data state).written =
      state.tree.content ++
        (openDelivery env.text found (env.lexer.mode number) state.buffer).tree ++
        (openDelivery env.text found (env.lexer.mode number) state.buffer).buffer := by
  have hwritten := (enter_receives env number found data state).written
  rwa [content_openScope] at hwritten

/-- Opening a mode keeps the text, unless segments take the place of the buffer. -/
theorem enter_written_of_not_segments {number : Nat}
    (hbegin : ∀ segments, (env.lexer.mode number).beginScope ≠ some (.segments segments))
    (data : FrameData) : (enter env number found data state).written = state.written := by
  rw [enter_written, openDelivery]
  split
  · rw [String.append_empty]
    rfl
  · rw [String.append_empty]
    rfl
  · next segments hsegments => exact absurd hsegments (hbegin segments)

theorem enter_written_of_segments {number : Nat} {segments : List SegmentScope}
    (hbegin : (env.lexer.mode number).beginScope = some (.segments segments)) (data : FrameData) :
    (enter env number found data state).written =
      state.tree.content ++ segmentsText env.text found segments := by
  rw [enter_written, openDelivery, hbegin]
  exact String.append_empty

theorem beginDelivery_text (mode : LexerMode) (buffer lexeme : String) :
    (beginDelivery mode buffer lexeme).tree ++ (beginDelivery mode buffer lexeme).buffer =
      buffer ++
        if mode.skip || mode.excludeBegin || !mode.returnBegin then lexeme else "" := by
  unfold beginDelivery
  cases mode.skip <;> cases mode.excludeBegin <;> cases mode.returnBegin <;> simp

theorem endDelivery_text (text : Array Char) (found : RuleMatch) {mode : LexerMode}
    (hend : ∀ segments, mode.endScope ≠ some (.segments segments)) (buffer : String) :
    (endDelivery text found mode buffer).tree ++ (endDelivery text found mode buffer).buffer =
      buffer ++
        if mode.endScope.isSome || mode.skip || mode.excludeEnd || !mode.returnEnd then
          found.span.text text
        else "" := by
  unfold endDelivery
  split
  · next hscope => simp [hscope]
  · next segments hsegments => exact absurd hsegments (hend segments)
  · next hscope =>
    rw [hscope]
    cases mode.skip <;> cases mode.excludeEnd <;> cases mode.returnEnd <;> simp

/-- When a match is delivered: the segments of an array make up the match, and a match that is
given back is not written on the way, unless it is empty. Segments of a mode that follows stand in
the place of the buffer, so together with what the end match puts into the tree they have to make
up the text that is due. -/
def Delivers (env : Env) (found : RuleMatch) (state : State) : Move → Prop
  | .stay => True
  | .enter number =>
    let mode := env.lexer.mode number
    match mode.beginScope with
    | some (.segments segments) => segmentsText env.text found segments = env.lexeme found
    | _ => mode.returnBegin = true → (mode.skip || mode.excludeBegin) = true → env.lexeme found = ""
  | .leave count =>
    let mode := state.top env
    match (outermost env state.frames count).next.bind fun next =>
        (env.lexer.mode next).beginScope with
    | some (.segments segments) =>
      (endDelivery env.text found mode state.buffer).tree ++
          segmentsText env.text found segments =
        state.buffer ++ if mode.returnEnd then "" else env.lexeme found
    | _ =>
      match mode.endScope with
      | some (.segments segments) => segmentsText env.text found segments = env.lexeme found
      | _ => mode.returnEnd = true →
          (mode.endScope.isSome || mode.skip || mode.excludeEnd) = true → env.lexeme found = ""

/-- The text that a scan advances over after a match that starts where the match does. -/
theorem slice_advanceOver (hspan : found.span.start = found.index)
    (hwithin : found.span.Within env.text.size) (isReturned : Bool) :
    env.slice found.index (found.index + advanceOver found isReturned) =
      if isReturned then "" else env.lexeme found := by
  have hle := hwithin.start_le
  cases isReturned
  · have hstop : found.index + width found = found.span.stop := by
      unfold width
      omega
    simp only [advanceOver, Bool.false_eq_true, if_false, Env.slice, Env.lexeme]
    rw [hstop, ← hspan]
  · simp [advanceOver, Env.slice]

theorem enter_delivers_iff {number : Nat} {data : FrameData} {ready : State}
    (hchecked : (env.lexer.mode number).Checked)
    (hready : Receives state
      (beginDelivery (env.lexer.mode number) state.buffer (env.lexeme found)) ready) :
    (enter env number found data ready).written =
        state.written ++ (if (env.lexer.mode number).returnBegin then "" else env.lexeme found) ↔
      Delivers env found state (.enter number) := by
  simp only [Delivers]
  generalize hdue :
    (if (env.lexer.mode number).returnBegin then "" else env.lexeme found) = due
  split
  · next segments hsegments =>
    obtain ⟨hskip, hexclude, hreturn⟩ := hchecked.begin segments hsegments
    rw [enter_written_of_segments hsegments, hready.content]
    simp only [hreturn, Bool.false_eq_true, if_false] at hdue
    subst hdue
    simp only [beginDelivery, hskip, hexclude, hreturn, Bool.false_eq_true, if_false,
      State.written]
    exact String.append_right_inj _
  · next hsegments =>
    rw [enter_written_of_not_segments hsegments, hready.written, String.append_assoc,
      beginDelivery_text, State.written, String.append_assoc, String.append_right_inj,
      String.append_right_inj, ← hdue]
    cases (env.lexer.mode number).skip <;> cases (env.lexer.mode number).excludeBegin <;>
      cases (env.lexer.mode number).returnBegin <;> simp

/-- Without segments of a mode that follows, going on keeps the text. -/
theorem goOn_written {next : Option Nat} (hnext : ∀ segments,
      (next.bind fun number => (env.lexer.mode number).beginScope) ≠ some (.segments segments)) :
    (goOn env found next state).written = state.written := by
  cases next with
  | none => rfl
  | some number => exact enter_written_of_not_segments hnext _

theorem goOn_written_of_segments {next : Option Nat} {segments : List SegmentScope}
    (hnext : (next.bind fun number => (env.lexer.mode number).beginScope) =
      some (.segments segments)) :
    (goOn env found next state).written =
      state.tree.content ++ segmentsText env.text found segments := by
  obtain ⟨number, rfl, hbegin⟩ := Option.bind_eq_some_iff.mp hnext
  exact enter_written_of_segments hbegin _

theorem leave_delivers_iff {count : Nat} {frames : List Frame} {ready : State}
    (hchecked : (state.top env).Checked)
    (hready : Receives { state with frames := frames }
      (endDelivery env.text found (state.top env) state.buffer) ready) :
    (goOn env found (outermost env state.frames count).next (ready.popFrames env count)).written =
        state.written ++ (if (state.top env).returnEnd then "" else env.lexeme found) ↔
      Delivers env found state (.leave count) := by
  have hpopped : (ready.popFrames env count).written = state.tree.content ++
      ((endDelivery env.text found (state.top env) state.buffer).tree ++
        (endDelivery env.text found (state.top env) state.buffer).buffer) := by
    rw [State.written, content_popFrames, buffer_popFrames, ← String.append_assoc]
    exact hready.written
  simp only [Delivers]
  generalize hdue : (if (state.top env).returnEnd then "" else env.lexeme found) = due
  split
  · next segments hsegments =>
    rw [goOn_written_of_segments hsegments, content_popFrames, hready.content, State.written,
      String.append_assoc, String.append_assoc, String.append_right_inj]
  · next hnext =>
    rw [goOn_written hnext, hpopped, State.written, String.append_assoc, String.append_right_inj]
    split
    · next segments hsegments =>
      obtain ⟨_, _, hreturn⟩ := hchecked.finish segments hsegments
      simp only [hreturn, Bool.false_eq_true, if_false] at hdue
      subst hdue
      simp only [endDelivery, hsegments, String.append_empty]
      exact String.append_right_inj _
    · next hsegments =>
      rw [endDelivery_text env.text found hsegments, String.append_right_inj, ← hdue]
      cases (state.top env).endScope.isSome <;> cases (state.top env).skip <;>
        cases (state.top env).excludeEnd <;> cases (state.top env).returnEnd <;>
        simp [Env.lexeme]

/-- The exact condition under which a match is delivered once, for the modes of a compiled
grammar. -/
theorem Handled.delivers_iff (hchecked : ∀ number, (env.lexer.mode number).Checked)
    (hspan : found.span.start = found.index) (hwithin : found.span.Within env.text.size)
    (h : Handled env found state move state' advance) :
    state'.written = state.written ++ env.slice found.index (found.index + advance) ↔
      Delivers env found state move := by
  cases h with
  | stay htree _ hbuffer =>
    simp only [Delivers, iff_true]
    rw [State.written, htree, hbuffer, ← String.append_assoc, State.written]
  | enter _ hready =>
    rw [slice_advanceOver hspan hwithin]
    exact enter_delivers_iff (hchecked _) hready
  | leave _ _ hready =>
    rw [slice_advanceOver hspan hwithin]
    exact leave_delivers_iff (hchecked _) hready

/-- In a lexer that has been compiled, a match that is handled is put into the tree or the buffer
once, or left to be scanned again, exactly if `Delivers` says so. -/
theorem handle_written_iff {grammar : Grammar} {start cursor rest : Nat}
    (hcompile : grammar.compile = .ok env.lexer) (hnested : nested.KeepsText)
    (hfound : (state.top env).rules.find env.text start cursor = .ok (some found, rest))
    (hwritten : state.written = env.slice 0 found.index)
    (hhandle : Returns (handle env nested found state) before (state', advance) after) :
    state'.written = env.slice 0 (min (found.index + advance) env.text.size) ↔
      Delivers env found state (moveOf env found state) := by
  obtain ⟨hspan, hwithin⟩ := RuleSet.find_within hfound
  have hhandled := handle_handled hnested hspan hwithin hhandle
  have hdelivers := hhandled.delivers_iff (Grammar.compile_checked hcompile) hspan hwithin
  have hslice : env.slice 0 (min (found.index + advance) env.text.size) =
      state.written ++ env.slice found.index (found.index + advance) := by
    rw [hwritten, Env.slice, Env.slice, Env.slice, Regex.Span.text_min,
      Regex.Span.text_append (Nat.zero_le _) (Nat.le_add_right _ _)]
  rw [hslice]
  exact hdelivers

/-- A grammar with a mode that both leaves its end match out and gives it back. -/
def givenBackTwice : Grammar where
  name := "t"
  root := .of {} [.own (.of {
    scope := some "m"
    beginPattern := some (.regex "a")
    endPattern := some (.regex "b")
    returnEnd := true
    excludeEnd := true })]

/-- A scan of a text with this grammar. -/
def givenBackEnv : Env where
  lexer := givenBackTwice.compile.toOption.getD default
  language := "t"
  text := #['a', 'b', 'c']
  options := ⟨true, true⟩
  settings := {}

theorem givenBackTwice_compiles : givenBackTwice.compile = .ok givenBackEnv.lexer := by
  dsimp only [givenBackEnv]
  exact eq_ok_of_isOk (by decide +kernel) default

/-- The begin match at the start of the text is delivered. -/
theorem handle_written_begin :
    let found : RuleMatch := ⟨0, [some ⟨0, 1⟩], .begin 1, 0⟩
    let state : State := { iterations := 1 }
    let state' : State := {
      frames := [{ mode := 1 }], tree := TokenTree.empty.openNode "m", buffer := "a"
      iterations := 1, lastMatch := some (.begin 1, 0) }
    givenBackTwice.compile = .ok givenBackEnv.lexer ∧
      (state.top givenBackEnv).rules.find givenBackEnv.text 0 0 = .ok (some found, 0) ∧
      state.written = givenBackEnv.slice 0 found.index ∧
      Returns (handle givenBackEnv .unknown found state) {} (state', 1) {} ∧
      state'.written = givenBackEnv.slice 0 1 := by
  intro found state state'
  obtain ⟨hfound, hwritten, hmove, hscope, hreturn⟩ :
      (state.top givenBackEnv).rules.find givenBackEnv.text 0 0 = .ok (some found, 0) ∧
      state.written = givenBackEnv.slice 0 found.index ∧
      moveOf givenBackEnv found state = .enter 1 ∧
      (givenBackEnv.lexer.mode 1).beginScope = none ∧
      (givenBackEnv.lexer.mode 1).returnBegin = false := by decide +kernel
  have hhandle : Returns (handle givenBackEnv .unknown found state) {} (state', 1) {} := by
    unfold Returns Gives
    cbv
  refine ⟨givenBackTwice_compiles, hfound, hwritten, hhandle, ?_⟩
  refine (handle_written_iff givenBackTwice_compiles Nested.unknown_keepsText hfound hwritten
    hhandle).mpr ?_
  rw [hmove, Delivers, hscope]
  intro heq
  cases hreturn.symm.trans heq

/-- The end match of this mode is put behind the mode and left to be scanned again, so its text is
written, though the scan has not advanced past it. -/
theorem handle_written_twice :
    let opened : State := {
      frames := [{ mode := 1 }], tree := TokenTree.empty.openNode "m", buffer := "a", index := 1
      iterations := 1, lastMatch := some (.begin 1, 0) }
    let found : RuleMatch := ⟨1, [some ⟨1, 2⟩], .finish, 0⟩
    let state : State := { opened with iterations := 2 }
    givenBackTwice.compile = .ok givenBackEnv.lexer ∧
      Returns (step givenBackEnv .unknown (State.restore givenBackEnv [])) {} (.more opened) {} ∧
      (state.top givenBackEnv).rules.find givenBackEnv.text 1 0 = .ok (some found, 0) ∧
      state.written = givenBackEnv.slice 0 found.index ∧
      ∃ state', Returns (handle givenBackEnv .unknown found state) {} (state', 0) {} ∧
        state'.written = "ab" ∧ givenBackEnv.slice 0 (min (found.index + 0) 3) = "a" := by
  intro opened found state
  let state' : State := {
    tree := (((TokenTree.empty.openNode "m").addText "a").closeNode), buffer := "b"
    relevance := 1, index := 1, iterations := 2, lastMatch := some (.finish, 1) }
  have hopened : Returns (step givenBackEnv .unknown (State.restore givenBackEnv [])) {}
      (.more opened) {} := by
    unfold Returns Gives
    cbv
  have hhandle : Returns (handle givenBackEnv .unknown found state) {} (state', 0) {} := by
    unfold Returns Gives
    cbv
  obtain ⟨hfound, hwritten, hwritten', hslice⟩ :
      (state.top givenBackEnv).rules.find givenBackEnv.text 1 0 = .ok (some found, 0) ∧
      state.written = givenBackEnv.slice 0 found.index ∧ state'.written = "ab" ∧
      givenBackEnv.slice 0 (min (found.index + 0) 3) = "a" := by decide +kernel
  exact ⟨givenBackTwice_compiles, hopened, hfound, hwritten, state', hhandle, hwritten', hslice⟩

end Highlighter.Scan
