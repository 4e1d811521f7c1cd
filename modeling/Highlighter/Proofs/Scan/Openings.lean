import Highlighter.Proofs.Scan.Ending

/-!
# What frames have been opened with

A begin match opens a frame. The first group of that match goes on belonging to the frame for as
long as it is on the stack: through the modes that come and go inside it, through end matches that
are ignored, and in a later scan that goes on in it. A mode may ask that its end match have the same
first group. It keeps the group in the data of its frame, and nothing else touches it there.
-/

namespace Highlighter

/-- Groups that are missing at the end took no part. -/
theorem MatchInfo.getElem?_trim (groups : List (Option Regex.Span)) (number : Nat) :
    (trim groups)[number]?.join = groups[number]?.join := by
  induction groups generalizing number with
  | nil => rfl
  | cons group groups ih =>
    simp only [trim]
    split
    · next htrim =>
      cases number with
      | zero => rfl
      | succ number =>
        have hnumber := ih number
        rw [htrim] at hnumber
        exact hnumber
    · cases number with
      | zero => rfl
      | succ number => exact ih number

/-- A mode that ends only where the first group of its end match is that of its begin match. -/
structure LexerMode.IsFence (mode : LexerMode) : Prop where
  onBegin : mode.onBegin = some Hook.rememberBegin
  onEnd : mode.onEnd = some Hook.sameAsBegin

theorem Lexer.isFence_of_modeOf {κ : Type} {grammar : Grammar} {source : Mode κ}
    {hook : Option Hook} {parent : Option LexerMode} {mode : LexerMode}
    (h : modeOf grammar source.endSameAsBegin.fields hook parent = .ok mode) : mode.IsFence := by
  obtain ⟨-, -, -, -, -, -, -, hbegin, hend, -⟩ := modeOf_eq_ok h
  obtain ⟨fields, contains, variants, next⟩ := source
  exact ⟨hbegin, hend⟩

namespace Scan

variable {env : Env} {nested : Nested} {found : RuleMatch} {frames frames' : List Frame}
  {state state' : State} {move : Move} {before after : Trace} {openings : List (Option String)}

/-! ## Openings -/

/-- The text of the first group of a match, empty where the group took no part. -/
def firstGroup (env : Env) (found : RuleMatch) : String :=
  ((found.groups[1]?.join).map (·.text env.text)).getD ""

theorem group?_info (env : Env) (found : RuleMatch) :
    ((env.info found).group? 1).getD "" = firstGroup env found := by
  rw [MatchInfo.group?, Env.info, MatchInfo.getElem?_trim, firstGroup]

/-- What the frames have been opened with after a move: a begin match is kept by its first group,
and a mode that follows another one has not been opened by a begin match. -/
def moveOpenings (env : Env) (found : RuleMatch) (frames : List Frame)
    (openings : List (Option String)) : Move → List (Option String)
  | .stay => openings
  | .enter _ => some (firstGroup env found) :: openings
  | .leave count =>
    ((outermost env frames count).next.map fun _ => none).toList ++ openings.drop count

/-- What the frames have been opened with after a step. -/
def stepOpenings (env : Env) (state : State) (openings : List (Option String)) :
    List (Option String) :=
  match nextVisit? env state with
  | some (found, move) => moveOpenings env found state.frames openings move
  | none => openings

/-- The states of scans with one lexer, along with what their frames have been opened with, the
innermost first. A scan may go on in the frames of any state of an earlier one, and in the frames
that this one concludes with. -/
inductive Opened : Env → Nested → State → List (Option String) → Prop where
  | start (env : Env) (nested : Nested) : Opened env nested (State.restore env []) []
  | step {env : Env} {nested : Nested} {state : State} {openings : List (Option String)}
      {progress : Progress} {before after : Trace} (h : Opened env nested state openings)
      (hstep : Returns (step env nested state) before progress after) :
      Opened env nested progress.last (stepOpenings env state openings)
  | rest {env : Env} {nested : Nested} {state state' : State} {openings : List (Option String)}
      {before after : Trace} (h : Opened env nested state openings)
      (hrest : Returns (flushRest env nested state) before state' after) :
      Opened env nested state' openings
  | resumed {env env' : Env} {nested nested' : Nested} {state : State}
      {openings : List (Option String)} {frames : List Frame}
      (h : Opened env nested state openings) (hlexer : env'.lexer = env.lexer)
      (hframes : frames = state.frames ∨ frames = (conclude env state).frames) :
      Opened env' nested' (State.restore env' frames) openings

theorem Opened.of_reaches (h : Opened env nested (State.restore env frames) openings)
    (hreaches : Reaches env nested frames state) :
    ∃ openings', Opened env nested state openings' := by
  induction hreaches with
  | start => exact ⟨openings, h⟩
  | step _ hstep ih =>
    obtain ⟨openings', hopened⟩ := ih
    exact ⟨_, hopened.step hstep⟩
  | rest _ hrest ih =>
    obtain ⟨openings', hopened⟩ := ih
    exact ⟨openings', hopened.rest hrest⟩

theorem HandedOn.exists_opened {lexer : Lexer} (h : HandedOn lexer frames) :
    ∃ openings, ∀ env nested, env.lexer = lexer →
      Opened env nested (State.restore env frames) openings := by
  induction h with
  | nothing => exact ⟨[], fun env nested _ => .start env nested⟩
  | ended hlexer _ hrun ih =>
    obtain ⟨openings, hopened⟩ := ih
    obtain ⟨last, hlast, heq | ⟨fault, heq⟩⟩ := Reaches.of_run hrun
    · cases heq
      obtain ⟨openings', hlast⟩ := (hopened _ _ hlexer).of_reaches hlast
      exact ⟨openings', fun env nested hsame =>
        hlast.resumed (hsame.trans hlexer.symm) (.inr rfl)⟩
    · cases heq
  | failed hlexer _ hrun ih =>
    obtain ⟨openings, hopened⟩ := ih
    obtain ⟨last, hlast, heq | ⟨fault, heq⟩⟩ := Reaches.of_run hrun
    · cases heq
    · cases heq
      obtain ⟨openings', hlast⟩ := (hopened _ _ hlexer).of_reaches hlast
      exact ⟨openings', fun env nested hsame =>
        hlast.resumed (hsame.trans hlexer.symm) (.inl rfl)⟩

/-- In every state of every scan, it is known what the frames have been opened with. -/
theorem Reachable.exists_opened (h : Reachable env nested state) :
    ∃ openings, Opened env nested state openings := by
  obtain ⟨frames, hframes, hreaches⟩ := h
  obtain ⟨openings, hopened⟩ := hframes.exists_opened
  exact (hopened env nested rfl).of_reaches hreaches

/-! ## The frames after a match -/

theorem frames_enter (env : Env) (number : Nat) (found : RuleMatch) (data : FrameData)
    (state : State) : (enter env number found data state).frames =
      { mode := number, data := data } :: state.frames := by
  rw [enter_eq]
  split <;> rfl

theorem frames_goOn (env : Env) (found : RuleMatch) (next : Option Nat) (state : State) :
    (goOn env found next state).frames =
      (next.map fun number => ({ mode := number } : Frame)).toList ++ state.frames := by
  cases next with
  | none => rfl
  | some number => exact frames_enter env number found {} state

theorem Buffers.frames_eq {input : Option State} {ready : State}
    (h : Buffers env nested state input ready) : ready.frames = state.frames := by
  cases h with
  | kept text => rfl
  | flushed first second hflush =>
    have hframes := flush_frames hflush
    exact hframes

theorem placeEnd_frames (h : Returns (placeEnd env nested found state) before state' after) :
    state'.frames = state.frames := by
  obtain ⟨ready, hready, rfl⟩ := placeEnd_parts h
  have hframes := hready.frames_eq
  unfold scopeEnd
  split
  · exact hframes
  · exact (addSegments_adds env found ready _).frames.trans hframes
  · exact hframes

theorem takeAsText_frames (env : Env) (found : RuleMatch) (state : State) :
    (takeAsText env found state).1.frames = state.frames := by
  unfold takeAsText
  split
  · exact takeChar_frames env state _
  · rfl

theorem ignore_frames (env : Env) (index : Nat) (state : State) :
    (ignore env index state).1.frames = state.frames := by
  unfold ignore
  split
  · exact takeChar_frames env state _
  · rfl

/-! ## What fences keep -/

/-- The frame of a fence keeps what it has been opened with. -/
def Kept (lexer : Lexer) (frame : Frame) (opening : Option String) : Prop :=
  (lexer.mode frame.mode).IsFence → ∀ text, opening = some text →
    frame.data.get? Hook.beginKey = some text

/-- The last hook to be asked says what is kept. -/
theorem askAll_concat {info : MatchInfo} {hooks : List Hook} {last : Hook}
    {data data' : FrameData} (h : Gives (askAll info (hooks ++ [last]) data) before
      (.accept, data') after) : ∃ between, last.call info between = (.accept, data') := by
  induction hooks generalizing data before with
  | nil =>
    obtain ⟨⟨decision, given⟩, _, hask, hrest⟩ := gives_bind_iff.mp h
    have hcall := ask_run .begin last info data before
    rw [show (Trace.ask .begin last info data).run before = _ from hask] at hcall
    cases decision with
    | ignore => cases (gives_pure_iff.mp hrest).1
    | accept =>
      cases (gives_pure_iff.mp hrest).1
      exact ⟨data, hcall.symm⟩
  | cons hook hooks ih =>
    obtain ⟨⟨decision, given⟩, _, -, hrest⟩ := gives_bind_iff.mp h
    cases decision with
    | ignore => cases (gives_pure_iff.mp hrest).1
    | accept => exact ih hrest

/-- A fence that is entered keeps the first group of its begin match. -/
theorem kept_of_accept {number : Nat} {data : FrameData}
    (h : ((askAll (env.info found) (beginHooks (env.lexer.mode number)) {}).run default).1 =
      (.accept, data)) :
    Kept env.lexer { mode := number, data := data } (some (firstGroup env found)) := by
  rintro hfence text heq
  cases heq
  rw [beginHooks, hfence.onBegin, Option.toList_some] at h
  have hgives : Gives (askAll (env.info found)
      ((env.lexer.mode number).beforeBegin.toList ++ [Hook.rememberBegin]) {}) default
      (.accept, data) _ := Prod.ext h rfl
  obtain ⟨between, hcall⟩ := askAll_concat hgives
  cases hcall
  rw [group?_info]
  simp [FrameData.get?, FrameData.set]

/-- What asking a frame whether it ends comes to. -/
theorem ownEnd_run (env : Env) (found : RuleMatch) (frame : Frame) (trace : Trace) :
    ((ownEnd env found frame).run trace).1 =
      match endsAt (env.lexer.mode frame.mode) env.text found.index,
        (env.lexer.mode frame.mode).onEnd with
      | false, _ => (false, frame)
      | true, none => (true, frame)
      | true, some hook =>
        let (decision, data) := hook.call (env.info found) frame.data
        (decision == .accept, { frame with data := data }) := by
  unfold ownEnd
  cases endsAt (env.lexer.mode frame.mode) env.text found.index with
  | false => rfl
  | true =>
    cases (env.lexer.mode frame.mode).onEnd with
    | none => rfl
    | some hook =>
      have hask := ask_run .finish hook (env.info found) frame.data trace
      simp only [StateT.run_bind]
      generalize (Trace.ask .finish hook (env.info found) frame.data).run trace = outcome at hask ⊢
      obtain ⟨result, trace'⟩ := outcome
      change _ = ((hook.call (env.info found) frame.data).1 == .accept,
        { frame with data := (hook.call (env.info found) frame.data).2 })
      rw [← hask]
      rfl

/-- A frame that is asked whether it ends keeps what it keeps. -/
theorem ownEnd_kept {frame frame' : Frame} {opening : Option String} {accepted : Bool}
    (hkept : Kept env.lexer frame opening)
    (h : Gives (ownEnd env found frame) before (accepted, frame') after) :
    Kept env.lexer frame' opening := by
  have hrun := ownEnd_run env found frame before
  rw [show (ownEnd env found frame).run before = _ from h] at hrun
  split at hrun
  · cases hrun
    exact hkept
  · cases hrun
    exact hkept
  · next hook _ hhook =>
    cases hrun
    intro hfence
    cases hhook.symm.trans hfence.onEnd
    exact hkept hfence

theorem findEnded_kept {count : Option Nat}
    (hkept : List.Forall₂ (Kept env.lexer) frames openings)
    (h : Gives (findEnded env found frames) before (frames', count) after) :
    List.Forall₂ (Kept env.lexer) frames' openings := by
  induction hkept generalizing frames' count before after with
  | nil =>
    cases (gives_pure_iff.mp h).1
    exact .nil
  | cons hfirst hrest ih =>
    rw [findEnded_cons] at h
    obtain ⟨⟨accepted, frame'⟩, _, hown, h⟩ := gives_bind_iff.mp h
    have hfirst' := ownEnd_kept hfirst hown
    simp only at h
    split at h
    · cases (gives_pure_iff.mp h).1
      exact .cons hfirst' hrest
    · split at h
      · obtain ⟨⟨outer', count'⟩, _, houter, hpure⟩ := gives_bind_iff.mp h
        cases (gives_pure_iff.mp hpure).1
        exact .cons hfirst' (ih houter)
      · cases (gives_pure_iff.mp h).1
        exact .cons hfirst' hrest

/-- A frame that has not been opened by a begin match keeps nothing. -/
theorem kept_none (lexer : Lexer) (frame : Frame) : Kept lexer frame none :=
  fun _ _ heq => by cases heq

/-- Whatever move a match makes, fences keep what they have been opened with. -/
theorem Handles.kept {advance : Nat} (hkept : List.Forall₂ (Kept env.lexer) state.frames openings)
    (h : Handles env nested found state move state' advance) :
    List.Forall₂ (Kept env.lexer) state'.frames
      (moveOpenings env found state.frames openings move) := by
  cases h with
  | empty hempty =>
    rw [takeChar_frames]
    exact hkept
  | ignored hkind hignore =>
    rw [ignore_frames]
    exact hkept
  | entered hkind haccept hready =>
    rw [frames_enter, hready.frames_eq]
    exact .cons (kept_of_accept haccept) hkept
  | @unended frames hkind hended =>
    rw [takeAsText_frames]
    have hgives : Gives (findEnded env found state.frames) default (frames, none) _ :=
      Prod.ext hended rfl
    exact findEnded_kept hkept hgives
  | @left count frames _ _ _ hkind hended hplaced =>
    have hgives : Gives (findEnded env found state.frames) default (frames, some count) _ :=
      Prod.ext hended rfl
    rw [frames_goOn, frames_popFrames, placeEnd_frames hplaced, moveOpenings]
    refine List.rel_append ?_ (List.forall₂_drop count (findEnded_kept hkept hgives))
    cases (outermost env state.frames count).next with
    | none => exact .nil
    | some number => exact .cons (kept_none _ _) .nil
  | illegal hkind =>
    rw [takeAsText_frames]
    exact hkept

theorem step_kept {progress : Progress}
    (hkept : List.Forall₂ (Kept env.lexer) state.frames openings)
    (h : Returns (step env nested state) before progress after) :
    List.Forall₂ (Kept env.lexer) progress.last.frames (stepOpenings env state openings) := by
  rcases step_cases h with ⟨⟨cursor, hfind⟩, rfl⟩ |
    ⟨found, cursor, state', advance, hfind, hhandle, hlast⟩
  · rw [stepOpenings, nextVisit?, hfind]
    exact hkept
  · rw [stepOpenings, nextVisit?, hfind, hlast]
    have hreached : List.Forall₂ (Kept env.lexer) (state.reached env found cursor).frames
      openings := hkept
    have hhandled := (handle_parts hhandle).kept hreached
    exact hhandled

/-- In every state of every scan, fences keep what they have been opened with, and the modes on the
stack stand inside each other as they may. -/
theorem Opened.kept {grammar : Grammar}
    (hroot : ∃ outline, env.lexer.Stands grammar none outline Lexer.root)
    (hlinked : env.lexer.Linked) (h : Opened env nested state openings) :
    state.Disciplined env ∧ Lexer.Stacked grammar env.lexer (state.frames.map (·.mode)) ∧
      List.Forall₂ (Kept env.lexer) state.frames openings := by
  induction h with
  | start env nested =>
    have hframes : (State.restore env []).frames = [] := by
      unfold State.restore
      split <;> rfl
    refine ⟨⟨?_, restore_aligned env []⟩, ?_, ?_⟩
    · rw [hframes]
      exact fun frame hmem => by cases hmem
    · rw [hframes]
      trivial
    · rw [hframes]
      exact .nil
  | step _ hstep ih =>
    obtain ⟨hdisciplined, hstacked, hkept⟩ := ih hroot hlinked
    exact ⟨step_disciplined hlinked hdisciplined hstep, step_stacked hroot hlinked hstacked hstep,
      step_kept hkept hstep⟩
  | rest _ hrest ih =>
    obtain ⟨hdisciplined, hstacked, hkept⟩ := ih hroot hlinked
    refine ⟨flushRest_disciplined hdisciplined hrest, ?_⟩
    rw [flush_frames hrest]
    exact ⟨hstacked, hkept⟩
  | @resumed env env' _ _ state openings frames _ hlexer hframes ih =>
    rw [hlexer] at hroot hlinked ⊢
    obtain ⟨hdisciplined, hstacked, hkept⟩ := ih hroot hlinked
    -- frames that have been credited have the same modes, and the same data
    have hsame : ∃ credit : Frame → Frame, frames = state.frames.map credit ∧
        ∀ frame, (credit frame).mode = frame.mode ∧ (credit frame).data = frame.data := by
      rcases hframes with rfl | rfl
      · exact ⟨id, (List.map_id _).symm, fun frame => ⟨rfl, rfl⟩⟩
      · exact ⟨_, rfl, fun frame => ⟨rfl, rfl⟩⟩
    obtain ⟨credit, rfl, hcredit⟩ := hsame
    have hmodes : (state.frames.map credit).map (·.mode) = state.frames.map (·.mode) := by
      rw [List.map_map]
      exact List.map_congr_left fun frame _ => (hcredit frame).1
    have hgrounded : Grounded env'.lexer (state.frames.map credit) := by
      rw [hlexer]
      refine List.forall_mem_map.mpr fun frame hmem => ?_
      rw [(hcredit frame).1]
      exact hdisciplined.grounded frame hmem
    have hrestored := frames_restore hgrounded
    refine ⟨⟨?_, restore_aligned env' _⟩, ?_, ?_⟩
    · rw [hrestored]
      exact hgrounded
    · rw [hrestored, hmodes]
      exact hstacked
    · rw [hrestored, List.forall₂_map_left_iff]
      refine hkept.imp fun frame opening hframe => ?_
      rw [Kept, (hcredit frame).1, (hcredit frame).2]
      exact hframe

end Scan

end Highlighter
