import Highlighter.Proofs.Scan.Discipline
import Highlighter.Proofs.Scan.Segments

/-!
# Modes that only skip text

A mode whose text stays text of the mode around it flushes nothing, neither when it is entered nor
when it is left by itself. What it matches is added to the text that is already in the buffer, and
the text behind it is added to both. So the mode around it gets all of this as one run of text.
-/

namespace Highlighter

/-- A mode whose text stays text of the mode around it: it opens no scope, its matches have none,
and no mode follows it. -/
structure LexerMode.IsSilent (mode : LexerMode) : Prop where
  skip : mode.skip = true
  scope : mode.scope = none
  beginScope : mode.beginScope = none
  endScope : mode.endScope = none
  next : mode.next = none

/-- A mode that only skips text: it is silent and has nothing of its own. -/
structure LexerMode.OnlySkips (mode : LexerMode) : Prop where
  silent : mode.IsSilent
  keywords : mode.keywords = none
  subLanguage : mode.subLanguage = none
  contains : mode.contains = []

instance (mode : LexerMode) : Decidable mode.IsSilent :=
  decidable_of_iff (mode.skip = true ∧ mode.scope = none ∧ mode.beginScope = none ∧
      mode.endScope = none ∧ mode.next = none)
    ⟨fun ⟨hskip, hscope, hbegin, hend, hnext⟩ => ⟨hskip, hscope, hbegin, hend, hnext⟩,
      fun h => ⟨h.skip, h.scope, h.beginScope, h.endScope, h.next⟩⟩

namespace Scan

variable {env : Env} {nested : Nested} {found : RuleMatch} {first state state' : State}
  {move : Move} {advance number : Nat} {before after : Trace} {text text' : String}

theorem slice_width (hspan : found.span.start = found.index)
    (hwithin : found.span.Within env.text.size) :
    env.slice found.index (found.index + width found) = env.lexeme found := by
  have hstart := hwithin.start_le
  have hstop : found.index + width found = found.span.stop := by
    unfold width
    omega
  rw [Env.slice, hstop, ← hspan, Env.lexeme]

/-! ## Text that is carried along -/

/-- A state has more text in the buffer than another one, and apart from this differs from it in
its frames and registers only. -/
structure Carries (state : State) (text : String) (state' : State) : Prop where
  tree : state'.tree = state.tree
  relevance : state'.relevance = state.relevance
  hits : state'.hits = state.hits
  continuations : state'.continuations = state.continuations
  buffer : state'.buffer = state.buffer ++ text

namespace Carries

theorem refl (state : State) : Carries state "" state :=
  ⟨rfl, rfl, rfl, rfl, String.append_empty.symm⟩

theorem trans {state'' : State} (h : Carries state text state')
    (h' : Carries state' text' state'') : Carries state (text ++ text') state'' where
  tree := h'.tree.trans h.tree
  relevance := h'.relevance.trans h.relevance
  hits := h'.hits.trans h.hits
  continuations := h'.continuations.trans h.continuations
  buffer := by rw [h'.buffer, h.buffer, String.append_assoc]

theorem withIndex (h : Carries state text state') (index : Nat) :
    Carries state text { state' with index := index } :=
  ⟨h.tree, h.relevance, h.hits, h.continuations, h.buffer⟩

theorem addToBuffer (text : String) (state : State) : Carries state text (state.addToBuffer text) :=
  ⟨rfl, rfl, rfl, rfl, rfl⟩

theorem takeChar (env : Env) (found : RuleMatch) (state : State) :
    Carries state (env.slice found.index (found.index + 1)) (state.takeChar env found.index) := by
  have hbuffer : (state.takeChar env found.index).buffer =
      state.buffer ++ env.slice found.index (found.index + 1) := by
    cases takeChar_handled env found state with
    | stay _ _ hbuffer => exact hbuffer
  refine ⟨?_, ?_, ?_, ?_, hbuffer⟩
  all_goals
    unfold State.takeChar
    split <;> rfl

theorem takeAsText (hspan : found.span.start = found.index)
    (hwithin : found.span.Within env.text.size) (state : State) :
    Carries state (env.slice found.index (found.index + (takeAsText env found state).2))
      (takeAsText env found state).1 := by
  unfold Scan.takeAsText
  split
  · exact takeChar env found state
  · have htext := slice_width hspan hwithin
    rw [htext]
    exact addToBuffer (env.lexeme found) state

theorem ignore (env : Env) (found : RuleMatch) (state : State) :
    Carries state (env.slice found.index (found.index + (ignore env found.index state).2))
      (ignore env found.index state).1 := by
  unfold Scan.ignore
  split
  · exact takeChar env found state
  · have hnothing : env.slice found.index (found.index + 0) = "" := Regex.Span.text_self
    rw [hnothing]
    exact ⟨rfl, rfl, rfl, rfl, String.append_empty.symm⟩

end Carries

/-- A match that is taken as text or ignored moves the text that the scan goes past. -/
theorem Handles.stay_carries (hspan : found.span.start = found.index)
    (hwithin : found.span.Within env.text.size)
    (h : Handles env nested found state .stay state' advance) :
    Carries state (env.slice found.index (found.index + advance)) state' := by
  have hrecorded : ∀ (frames : List Frame) (state : State),
      Carries state "" { state.recorded found with frames := frames } :=
    fun frames state => ⟨rfl, rfl, rfl, rfl, String.append_empty.symm⟩
  have hempty : ∀ text : String, "" ++ text = text := fun _ => String.empty_append
  cases h with
  | empty => exact .takeChar env found state
  | ignored =>
    have hignored := (hrecorded state.frames state).trans (.ignore env found (state.recorded found))
    rwa [hempty] at hignored
  | @unended frames _ _ =>
    have htaken := (hrecorded frames state).trans (.takeAsText hspan hwithin _)
    rwa [hempty] at htaken
  | illegal =>
    have htaken := (hrecorded state.frames state).trans (.takeAsText hspan hwithin _)
    rwa [hempty] at htaken

/-! ## Silent modes -/

/-- A match by which a mode is entered is handled as a begin match, and no hook ignores it. -/
theorem handle_enter (hmove : moveOf env found state = .enter number)
    (h : Returns (handle env nested found state) before (state', advance) after) :
    found.kind = .begin number ∧
      ((askAll (env.info found) (beginHooks (env.lexer.mode number)) {}).run default).1.1 = .accept ∧
      Returns (begin env nested number found (state.recorded found)) before (state', advance)
        after := by
  unfold moveOf at hmove
  split at hmove
  · cases hmove
  · cases hmove
  · next number' hempty hkind =>
    split at hmove
    · next haccept =>
      cases hmove
      refine ⟨hkind, haccept, ?_⟩
      simp only [handle] at h
      split at h
      · exact absurd h not_returns_throw_bind
      · rw [hempty, hkind] at h
        rw [State.recorded, hkind]
        exact h
    · cases hmove
  · split at hmove <;> cases hmove

/-- A silent mode is entered without any change to the tree. -/
theorem enter_carries (hsilent : (env.lexer.mode number).IsSilent) (data : FrameData)
    (state : State) : Carries state "" (enter env number found data state) := by
  simp only [enter, hsilent.scope, hsilent.beginScope]
  exact ⟨rfl, rfl, rfl, rfl, String.append_empty.symm⟩

theorem begin_carries (hsilent : (env.lexer.mode number).IsSilent)
    (haccept : ((askAll (env.info found) (beginHooks (env.lexer.mode number)) {}).run
      default).1.1 = .accept)
    (h : Returns (begin env nested number found state) before (state', advance) after) :
    Carries state (env.lexeme found) state' := by
  simp only [begin] at h
  obtain ⟨⟨decision, data⟩, _, hask, hrest⟩ := returns_bind_iff.mp h
  have hdecision := (steady_askAll _ _ _).gives (returns_lift_iff.mp hask) default
  rw [beginHooks, hdecision] at haccept
  obtain rfl : decision = .accept := haccept
  simp only [reduceCtorEq, if_false, hsilent.skip, if_true] at hrest
  obtain ⟨ready, _, hready, hpure⟩ := returns_bind_iff.mp hrest
  obtain ⟨rfl, -⟩ := returns_pure_iff.mp hready
  obtain ⟨heq, -⟩ := returns_pure_iff.mp hpure
  cases heq
  have hentered := (Carries.addToBuffer (env.lexeme found) state).trans
    (@enter_carries env found number hsilent data _)
  rwa [String.append_empty] at hentered

/-- The end match of a silent mode is added to the buffer. -/
theorem placeEnd_silent (hsilent : (state.top env).IsSilent)
    (h : Returns (placeEnd env nested found state) before state' after) :
    state' = state.addToBuffer (env.lexeme found) := by
  simp only [placeEnd, hsilent.endScope, hsilent.skip, if_true] at h
  exact (returns_pure_iff.mp h).1.symm

/-- A silent mode that is left alone leaves the tree and the score as they are. -/
theorem popFrame_carries {frame : Frame} {outer : List Frame} (hframes : state.frames = frame :: outer)
    (hsilent : (env.lexer.mode frame.mode).IsSilent) :
    Carries state "" (state.popFrame env) := by
  simp only [State.popFrame, hframes, hsilent.scope, hsilent.skip]
  refine ⟨rfl, ?_, rfl, rfl, String.append_empty.symm⟩
  simp

theorem Handles.leave_carries (hsilent : (state.top env).IsSilent)
    (h : Handles env nested found state (.leave 1) state' advance) :
    Carries state (env.lexeme found) state' := by
  cases h with
  | @left _ frames placed _ _ hkind hended hplaced =>
    obtain ⟨hmarks, hbounds⟩ := findEnded_default hended
    have htop : ({ state.recorded found with frames := frames } : State).top env = state.top env :=
      top_congr (modes_of_marks hmarks)
    rw [← htop] at hsilent
    obtain rfl := placeEnd_silent hsilent hplaced
    obtain ⟨-, hle⟩ := hbounds 1 rfl
    obtain ⟨frame, outer, rfl⟩ := List.exists_cons_of_length_pos
      (show 0 < frames.length by
        have hlength := congrArg List.length hmarks
        simp only [marks, List.length_map] at hlength
        omega)
    have hmode : (env.lexer.mode frame.mode).IsSilent := hsilent
    have hnext : (outermost env state.frames 1).next = none := by
      rw [outermost_congr (modes_of_marks hmarks.symm)]
      exact hmode.next
    rw [hnext, goOn]
    have hplaced : Carries state (env.lexeme found)
        (({ state.recorded found with frames := frame :: outer } : State).addToBuffer
          (env.lexeme found)) := ⟨rfl, rfl, rfl, rfl, rfl⟩
    have hpopped := hplaced.trans (@popFrame_carries env _ frame outer rfl hmode)
    rwa [String.append_empty] at hpopped

/-! ## Steps that skip -/

/-- A move that flushes nothing: no mode is entered or left, or a silent one is, and that alone. -/
def Move.Skips (env : Env) (state : State) : Move → Prop
  | .stay => True
  | .enter number => (env.lexer.mode number).IsSilent
  | .leave count => count = 1 ∧ (state.top env).IsSilent

/-- The text of a match, or as much of it as is taken as text when the scan goes on at `index`. -/
def moveText (env : Env) (found : RuleMatch) (index : Nat) : Move → String
  | .stay => env.slice found.index index
  | .enter _ | .leave _ => env.lexeme found

/-- The text that a step moves: what stands before the match, and the match. -/
def stepText (env : Env) (found : RuleMatch) (move : Move) (state last : State) : String :=
  env.slice state.index found.index ++ moveText env found last.index move

/-- The next match, with what is known about the step that handles it. -/
theorem step_visit {progress : Progress} (hvisit : nextVisit? env state = some (found, move))
    (hstep : Returns (step env nested state) before progress after) :
    ∃ cursor state' advance,
      (state.top env).rules.find env.text state.index state.begun.cursor =
        .ok (some found, cursor) ∧
      moveOf env found (state.reached env found cursor) = move ∧
      Returns (handle env nested found (state.reached env found cursor)) before (state', advance)
        after ∧
      progress.last = { state' with index := found.index + advance } := by
  obtain ⟨cursor, hfind, hmove⟩ := exists_find_of_nextVisit? hvisit
  rcases step_cases hstep with ⟨⟨_, hnone⟩, -⟩ |
    ⟨found', cursor', state', advance, hfound, hhandle, hlast⟩
  · cases hnone.symm.trans hfind
  · cases hfound.symm.trans hfind
    exact ⟨cursor, state', advance, hfind, hmove, hhandle, hlast⟩

/-- A step that skips moves text into the buffer, and nothing else. -/
theorem step_carries {progress : Progress} (hvisit : nextVisit? env state = some (found, move))
    (hskips : move.Skips env state)
    (hstep : Returns (step env nested state) before progress after) :
    Carries state (stepText env found move state progress.last) progress.last := by
  obtain ⟨cursor, state', advance, hfind, hmove, hhandle, hlast⟩ := step_visit hvisit hstep
  obtain ⟨hspan, hwithin⟩ := RuleSet.find_within hfind
  have hreached : Carries state (env.slice state.index found.index)
      (state.reached env found cursor) := ⟨rfl, rfl, rfl, rfl, rfl⟩
  have hparts := handle_parts hhandle
  rw [hmove] at hparts
  rw [hlast]
  cases move with
  | stay =>
    have hstay := hreached.trans (hparts.stay_carries hspan hwithin)
    exact hstay.withIndex (found.index + advance)
  | enter number =>
    obtain ⟨-, haccept, hbegin⟩ := handle_enter hmove hhandle
    have hrecorded : Carries state (env.slice state.index found.index)
        ((state.reached env found cursor).recorded found) := ⟨rfl, rfl, rfl, rfl, rfl⟩
    have hentered := hrecorded.trans (begin_carries hskips haccept hbegin)
    exact hentered.withIndex (found.index + advance)
  | leave count =>
    obtain ⟨rfl, hsilent⟩ := hskips
    have hleft := hreached.trans (hparts.leave_carries hsilent)
    exact hleft.withIndex (found.index + advance)

theorem step_marks {progress : Progress} (hvisit : nextVisit? env state = some (found, move))
    (hstep : Returns (step env nested state) before progress after) :
    marks progress.last.frames = moveMarks env state.frames move := by
  obtain ⟨cursor, state', advance, -, rfl, hhandle, hlast⟩ := step_visit hvisit hstep
  rw [hlast]
  exact (handle_moved hhandle).marks

/-- States that follow each other by steps that skip, with the text that these move. -/
inductive Sweeps (env : Env) (nested : Nested) (first : State) : String → State → Prop where
  | refl : Sweeps env nested first "" first
  | step {text : String} {state : State} {found : RuleMatch} {move : Move} {progress : Progress}
      {before after : Trace} (h : Sweeps env nested first text state)
      (hvisit : nextVisit? env state = some (found, move)) (hskips : move.Skips env state)
      (hstep : Returns (step env nested state) before progress after) :
      Sweeps env nested first (text ++ stepText env found move state progress.last) progress.last

theorem Sweeps.carries (h : Sweeps env nested first text state) : Carries first text state := by
  induction h with
  | refl => exact .refl first
  | step _ hvisit hskips hstep ih => exact ih.trans (step_carries hvisit hskips hstep)

theorem top_congr_marks (h : marks state.frames = marks first.frames) :
    state.top env = first.top env := by
  have hmodes := congrArg List.head? (modes_of_marks h)
  rw [List.head?_map, List.head?_map] at hmodes
  rw [State.top, State.top, hmodes]

/-- Above the mode in which they start, steps that skip have silent modes only. -/
theorem Sweeps.marks (hfirst : (first.top env).skip = false)
    (h : Sweeps env nested first text state) :
    ∃ inner, marks state.frames = inner ++ marks first.frames ∧
      ∀ mark ∈ inner, (env.lexer.mode mark.1).IsSilent := by
  induction h with
  | refl => exact ⟨[], rfl, List.forall_mem_nil _⟩
  | @step text state found move progress before after _ hvisit hskips hstep ih =>
    obtain ⟨inner, hmarks, hinner⟩ := ih
    rw [step_marks hvisit hstep]
    cases move with
    | stay => exact ⟨inner, hmarks, hinner⟩
    | enter number =>
      refine ⟨(number, false) :: inner, ?_, List.forall_mem_cons.mpr ⟨hskips, hinner⟩⟩
      rw [moveMarks, hmarks, List.cons_append]
    | leave count =>
      obtain ⟨rfl, hsilent⟩ := hskips
      cases inner with
      | nil =>
        -- the mode in which the steps start is not silent
        rw [top_congr_marks hmarks] at hsilent
        cases hfirst.symm.trans hsilent.skip
      | cons mark inner =>
        obtain ⟨frame, outer, hframes, -, houter⟩ := List.map_eq_cons_iff.mp hmarks
        have htop : state.top env = env.lexer.mode frame.mode := by
          rw [State.top, hframes]
          rfl
        rw [htop] at hsilent
        refine ⟨inner, ?_, (List.forall_mem_cons.mp hinner).2⟩
        have hnext : (outermost env state.frames 1).next = none := by
          rw [hframes]
          exact hsilent.next
        rw [moveMarks, hnext, hframes]
        exact houter

/-- Where rules match as wholes and silent modes give nothing back, the text that is moved is what
the scan goes past. -/
theorem stepText_eq {progress : Progress}
    (hspans : ∀ number, (env.lexer.mode number).rules.SpansMatch)
    (hkept : ∀ number, (env.lexer.mode number).IsSilent →
      (env.lexer.mode number).returnBegin = false ∧ (env.lexer.mode number).returnEnd = false)
    (hvisit : nextVisit? env state = some (found, move)) (hskips : move.Skips env state)
    (hstep : Returns (step env nested state) before progress after) :
    state.index ≤ progress.last.index ∧
      stepText env found move state progress.last =
        env.slice state.index progress.last.index := by
  obtain ⟨cursor, state', advance, hfind, hmove, hhandle, hlast⟩ := step_visit hvisit hstep
  obtain ⟨hspan, hwithin⟩ := RuleSet.find_within hfind
  have hle : state.index ≤ found.index := (hspans _).start_le_index hfind
  have hparts := handle_parts hhandle
  rw [hmove] at hparts
  have hmatch : moveText env found (found.index + advance) move =
      env.slice found.index (found.index + advance) := by
    cases move with
    | stay => rfl
    | enter number =>
      obtain ⟨hreturn, -⟩ := hkept number hskips
      cases hparts with
      | entered =>
        simp only [moveText, advanceOver, hreturn, Bool.false_eq_true, if_false]
        exact (slice_width hspan hwithin).symm
    | leave count =>
      obtain ⟨-, hreturn⟩ := hkept _ hskips.2
      cases hparts with
      | left =>
        have hadvance : advanceOver found
            ((state.reached env found cursor).top env).returnEnd = width found :=
          congrArg (advanceOver found) hreturn
        rw [hadvance]
        exact (slice_width hspan hwithin).symm
  rw [hlast]
  refine ⟨Nat.le_trans hle (Nat.le_add_right _ _), ?_⟩
  rw [stepText, hmatch]
  exact Regex.Span.text_append hle (Nat.le_add_right _ _)

theorem Sweeps.text_eq (hspans : ∀ number, (env.lexer.mode number).rules.SpansMatch)
    (hkept : ∀ number, (env.lexer.mode number).IsSilent →
      (env.lexer.mode number).returnBegin = false ∧ (env.lexer.mode number).returnEnd = false)
    (h : Sweeps env nested first text state) :
    first.index ≤ state.index ∧ text = env.slice first.index state.index := by
  induction h with
  | refl => exact ⟨Nat.le_refl _, Regex.Span.text_self.symm⟩
  | step _ hvisit hskips hstep ih =>
    obtain ⟨hle, htext⟩ := ih
    obtain ⟨hnext, hstepped⟩ := stepText_eq hspans hkept hvisit hskips hstep
    refine ⟨Nat.le_trans hle hnext, ?_⟩
    rw [htext, hstepped]
    exact Regex.Span.text_append hle hnext

/-! ## How a silent mode is left -/

/-- A mode that neither ends with the mode around it nor ends that mode is left alone. -/
theorem findEnded_alone {frame : Frame} {outer frames : List Frame} {count : Nat}
    (htied : (env.lexer.mode frame.mode).endsWithParent = false)
    (hends : (env.lexer.mode frame.mode).endsParent = false)
    (h : Gives (findEnded env found (frame :: outer)) before (frames, some count) after) :
    count = 1 := by
  rw [findEnded_cons] at h
  obtain ⟨⟨accepted, frame'⟩, _, hown, hrest⟩ := gives_bind_iff.mp h
  have hmode := ownEnd_mode hown
  cases accepted with
  | true =>
    obtain ⟨heq, -⟩ := gives_pure_iff.mp hrest
    cases heq
    cases outer with
    | nil => rfl
    | cons next outer => simp [countEnded, hmode, hends]
  | false =>
    simp only [htied, Bool.false_eq_true, if_false] at hrest
    obtain ⟨heq, -⟩ := gives_pure_iff.mp hrest
    cases heq

/-- In a mode that only skips text, every step skips, unless the mode is left together with the mode
around it, with which it ends or which it ends. -/
theorem skips_or_leaves_around (hlinked : env.lexer.Linked)
    (htop : (state.top env).OnlySkips) (hvisit : nextVisit? env state = some (found, move)) :
    move.Skips env state ∨
      ((state.top env).endsWithParent = true ∨ (state.top env).endsParent = true) ∧
        ∃ count, move = .leave (count + 2) := by
  unfold nextVisit? at hvisit
  split at hvisit
  · next found' cursor hfind =>
    cases hvisit
    unfold moveOf
    split
    · exact .inl trivial
    · exact .inl trivial
    · next number _ hkind =>
      have hmem := (hlinked.modes _).contains_of_find hfind hkind
      have hcontains := htop.contains
      rw [State.top] at hcontains
      rw [hcontains] at hmem
      cases hmem
    · split
      · next count hcount =>
        obtain ⟨ended, between, hgives⟩ : ∃ ended between,
            Gives (findEnded env found state.frames) default (ended, some count) between :=
          ⟨_, _, Prod.ext (Prod.ext rfl hcount) rfl⟩
        obtain ⟨hpositive, hle⟩ := (findEnded_marks hgives).2 count rfl
        obtain ⟨frame, outer, hframes⟩ := List.exists_cons_of_length_pos
          (Nat.lt_of_lt_of_le hpositive hle)
        have hmode : state.top env = env.lexer.mode frame.mode := by
          rw [State.top, hframes]
          rfl
        by_cases hone : count = 1
        · exact .inl ⟨hone, htop.silent⟩
        right
        constructor
        · by_contra hfree
          rw [not_or, Bool.not_eq_true, Bool.not_eq_true, hmode] at hfree
          rw [hframes] at hgives
          exact hone (findEnded_alone hfree.1 hfree.2 hgives)
        · exact ⟨count - 2, congrArg Move.leave (by omega)⟩
      · exact .inl trivial
  · cases hvisit

/-! ## What is flushed -/

/-- A run of text has been flushed at once into a tree, while a mode was the innermost one. -/
def Flushed (env : Env) (nested : Nested) (mode : LexerMode) (run : String) (tree : TokenTree)
    (flushed : State) : Prop :=
  ∃ input before after, input.top env = mode ∧ input.buffer = run ∧ input.tree = tree ∧
    Returns (flush env nested input) before flushed after

/-- A move before which the buffer is flushed: modes are left, or one that is not skipped is
entered. -/
def Move.Flushes (env : Env) : Move → Prop
  | .stay => False
  | .enter number => (env.lexer.mode number).skip = false
  | .leave _ => True

/-- A state after a match for which a run of text has been flushed: a mode is entered behind it, or
modes are left. -/
inductive Resumes (env : Env) (nested : Nested) (found : RuleMatch) (mode : LexerMode)
    (run : String) (tree : TokenTree) : State → Prop where
  | enter {flushed : State} {number index : Nat} {data : FrameData} {rest : String}
      (h : Flushed env nested mode run tree flushed) :
      Resumes env nested found mode run tree
        { enter env number found data (flushed.addToBuffer rest) with index := index }
  | leave {flushed : State} {next : Option Nat} {count index : Nat} {rest : String}
      (h : Flushed env nested mode run tree flushed) :
      Resumes env nested found mode run tree
        { goOn env found next
            ((scopeEnd env found mode (flushed.addToBuffer rest)).popFrames env count) with
          index := index }

theorem Buffers.flushed_of_some {input ready : State} {mode : LexerMode}
    (h : Buffers env nested state (some input) ready) (htop : input.top env = mode) :
    ∃ flushed rest, Flushed env nested mode input.buffer state.tree flushed ∧
      ready = flushed.addToBuffer rest := by
  cases h with
  | flushed first second hflush => exact ⟨_, second, ⟨_, _, _, htop, rfl, rfl, hflush⟩, rfl⟩

/-- What is flushed before a mode is entered that is not skipped. -/
theorem exists_beginInput (hskip : (env.lexer.mode number).skip = false) (state : State) :
    ∃ part, (part = "" ∨ part = env.lexeme found) ∧
      beginInput env found number state = some (state.addToBuffer part) := by
  refine ⟨if (env.lexer.mode number).excludeBegin then env.lexeme found else "", ?_, ?_⟩
  · split
    · exact .inr rfl
    · exact .inl rfl
  · rw [beginInput, if_neg (Bool.eq_false_iff.mp hskip), ite_addToBuffer]

/-- What is flushed before a mode is left that is not skipped. -/
theorem exists_endInput (hskip : (state.top env).skip = false) :
    ∃ part, (part = "" ∨ part = env.lexeme found) ∧
      endInput env found state = some (state.addToBuffer part) := by
  cases hscope : (state.top env).endScope with
  | some scope =>
    refine ⟨"", .inl rfl, ?_⟩
    simp only [endInput, hscope, addToBuffer_empty]
  | none =>
    refine ⟨if !(state.top env).returnEnd && !(state.top env).excludeEnd then env.lexeme found
      else "", ?_, ?_⟩
    · split
      · exact .inr rfl
      · exact .inl rfl
    · simp only [endInput, hscope, hskip, Bool.false_eq_true, if_false, ite_addToBuffer]

/-- A step that flushes the buffer flushes it with the text before the match, and perhaps with the
match, through the mode in which the match is found. -/
theorem step_resumes {progress : Progress} (hskip : (state.top env).skip = false)
    (hvisit : nextVisit? env state = some (found, move)) (hflushes : move.Flushes env)
    (hstep : Returns (step env nested state) before progress after) :
    ∃ part, (part = "" ∨ part = env.lexeme found) ∧
      Resumes env nested found (state.top env)
        (state.buffer ++ (env.slice state.index found.index ++ part)) state.tree progress.last := by
  obtain ⟨cursor, state', advance, -, hmove, hhandle, hlast⟩ := step_visit hvisit hstep
  have hparts := handle_parts hhandle
  rw [hmove] at hparts
  rw [hlast]
  cases move with
  | stay => exact hflushes.elim
  | enter number =>
    cases hparts with
    | @entered _ data ready hkind haccept hready =>
      obtain ⟨part, hpart, hinput⟩ := @exists_beginInput env found number hflushes
        ((state.reached env found cursor).recorded found)
      rw [hinput] at hready
      obtain ⟨flushed, rest, hflushed, rfl⟩ := hready.flushed_of_some rfl
      refine ⟨part, hpart, ?_⟩
      rw [← String.append_assoc]
      exact .enter hflushed
  | leave count =>
    cases hparts with
    | @left _ frames placed _ _ hkind hended hplaced =>
      have htop : ({ (state.reached env found cursor).recorded found with
          frames := frames } : State).top env = state.top env :=
        top_congr (modes_of_marks (findEnded_default hended).1)
      rw [← htop] at hskip
      obtain ⟨part, hpart, hinput⟩ := @exists_endInput env found _ hskip
      obtain ⟨ready, hready, rfl⟩ := placeEnd_parts hplaced
      rw [hinput] at hready
      obtain ⟨flushed, rest, hflushed, rfl⟩ := hready.flushed_of_some htop
      refine ⟨part, hpart, ?_⟩
      rw [← String.append_assoc, htop]
      exact .leave hflushed

/-- A skipped mode without keywords and an embedded language lets the rest of the text through as it
stands. -/
theorem flushRest_onlySkips (htop : (state.top env).OnlySkips)
    (h : Returns (flushRest env nested state) before state' after) :
    state'.tree = state.tree.addText (state.buffer ++ env.slice state.index env.text.size) := by
  have hsame : ({ state.addToBuffer (env.slice state.index env.text.size) with
    buffer := "" } : State).top env = state.top env := rfl
  simp only [flushRest, flush, hsame, htop.subLanguage, markKeywords, htop.keywords] at h
  rw [← (returns_pure_iff.mp h).1]
  rfl

/-- Modes that only skip text are transparent to the mode around them, as long as they are left by
their own end. Let steps start in a mode that is not skipped, and let them stay where they are, enter
silent modes, and leave silent modes alone. However many they are, they move text into the buffer and
do nothing else, above the mode there are silent modes only, and the text is what the scan goes past
if the silent modes give nothing back. Once the scan is back in the mode, what is flushed next is the
text before, within and behind the silent modes, in one run and through this mode, and so at the end
of the text. In a mode that only skips text, every step is one of these steps, unless the mode is
left together with the mode around it, with which it ends or which it ends; where the text ends in
it, the run goes into the tree as it stands. -/
theorem sweeps_transparent {grammar : Grammar} (hcompile : grammar.compile = .ok env.lexer)
    (hfirst : (first.top env).skip = false) (h : Sweeps env nested first text state) :
    Carries first text state ∧
    (∃ inner, marks state.frames = inner ++ marks first.frames ∧
      ∀ mark ∈ inner, (env.lexer.mode mark.1).IsSilent) ∧
    ((∀ number, (env.lexer.mode number).rules.SpansMatch) →
      (∀ number, (env.lexer.mode number).IsSilent →
        (env.lexer.mode number).returnBegin = false ∧ (env.lexer.mode number).returnEnd = false) →
      text = env.slice first.index state.index) ∧
    (marks state.frames = marks first.frames →
      (∀ found move progress before after, nextVisit? env state = some (found, move) →
        move.Flushes env → Returns (step env nested state) before progress after →
        ∃ part, (part = "" ∨ part = env.lexeme found) ∧
          Resumes env nested found (first.top env)
            (first.buffer ++ (text ++ (env.slice state.index found.index ++ part))) first.tree
            progress.last) ∧
      ∀ last before after, Returns (flushRest env nested state) before last after →
        Flushed env nested (first.top env)
          (first.buffer ++ (text ++ env.slice state.index env.text.size)) first.tree last) ∧
    ((state.top env).OnlySkips →
      (∀ found move, nextVisit? env state = some (found, move) → move.Skips env state ∨
        ((state.top env).endsWithParent = true ∨ (state.top env).endsParent = true) ∧
          ∃ count, move = .leave (count + 2)) ∧
      ∀ last before after, Returns (flushRest env nested state) before last after →
        last.tree = first.tree.addText
          (first.buffer ++ (text ++ env.slice state.index env.text.size))) := by
  have hcarries := h.carries
  refine ⟨hcarries, h.marks hfirst, fun hspans hkept => (h.text_eq hspans hkept).2,
    fun hback => ?_, fun htop => ?_⟩
  · have htop : state.top env = first.top env := top_congr_marks hback
    constructor
    · intro found move progress before after hvisit hflushes hstep
      rw [← htop] at hfirst ⊢
      obtain ⟨part, hpart, hresumes⟩ := step_resumes hfirst hvisit hflushes hstep
      refine ⟨part, hpart, ?_⟩
      rwa [hcarries.buffer, hcarries.tree, String.append_assoc] at hresumes
    · intro last before after hrest
      refine ⟨state.addToBuffer (env.slice state.index env.text.size), before, after, htop, ?_,
        hcarries.tree, hrest⟩
      rw [← String.append_assoc, ← hcarries.buffer]
      rfl
  · constructor
    · intro found move hvisit
      exact skips_or_leaves_around (grammar.compile_linked hcompile) htop hvisit
    · intro last before after hrest
      rw [flushRest_onlySkips htop hrest, hcarries.buffer, hcarries.tree, String.append_assoc]

/-- A grammar with a mode in brackets, in which there is another one. -/
def bracketed (inner : ModeFields) : Grammar where
  name := "bracketed"
  root := .of {} [.own (.of {
    scope := some "p"
    beginPattern := some (.literal "(")
    endPattern := some (.literal ")") } [.own (.of inner)])]

/-- A scan of a text with this grammar. -/
def bracketedEnv (inner : ModeFields) (text : String) : Env where
  lexer := (bracketed inner).compile.toOption.getD default
  language := "bracketed"
  text := text.toList.toArray
  options := ⟨false, true⟩
  settings := {}

/-- A mode that only skips text, from one letter to another. -/
def letters : ModeFields :=
  { beginPattern := some (.regex "x"), endPattern := some (.regex "y"), skip := true }

/-- A scan of a word in brackets, in the middle of which text is skipped. -/
def wordEnv : Env := bracketedEnv letters "(axyb)"

/-- The bracket has been opened. -/
def wordOpened : State := {
  frames := [{ mode := 1 }], tree := TokenTree.empty.openNode "p", buffer := "(", index := 1
  iterations := 1, lastMatch := some (.begin 1, 0) }

/-- Text is skipped. -/
def wordInside : State := { wordOpened with
  frames := [{ mode := 2 }, { mode := 1 }], buffer := "(ax", index := 3, iterations := 2
  lastMatch := some (.begin 2, 2), cursor := 1 }

/-- Text has been skipped. -/
def wordBack : State := { wordOpened with
  buffer := "(axy", index := 4, iterations := 3, lastMatch := some (.finish, 3) }

theorem bracketed_compiles {inner : ModeFields} (text : String)
    (h : (bracketed inner).compile.isOk = true) :
    (bracketed inner).compile = .ok (bracketedEnv inner text).lexer :=
  eq_ok_of_isOk h default

theorem sweeps_word : Sweeps wordEnv .unknown wordOpened "axy" wordBack := by
  obtain ⟨hsilent, hvisit, hvisit', htext⟩ : (wordEnv.lexer.mode 2).IsSilent ∧
      nextVisit? wordEnv wordOpened =
        some (⟨2, [some ⟨2, 3⟩, none], .begin 2, 0⟩, .enter 2) ∧
      nextVisit? wordEnv wordInside = some (⟨3, [some ⟨3, 4⟩], .finish, 0⟩, .leave 1) ∧
      "" ++ stepText wordEnv ⟨2, [some ⟨2, 3⟩, none], .begin 2, 0⟩ (.enter 2) wordOpened
        wordInside ++ stepText wordEnv ⟨3, [some ⟨3, 4⟩], .finish, 0⟩ (.leave 1) wordInside
          wordBack = "axy" := by decide +kernel
  have hentered : Returns (step wordEnv .unknown wordOpened) {} (.more wordInside) {} := by
    unfold Returns Gives
    cbv
  have hleft : Returns (step wordEnv .unknown wordInside) {} (.more wordBack) {} := by
    unfold Returns Gives
    cbv
  have hsweeps := (Sweeps.refl.step hvisit hsilent hentered).step hvisit' ⟨rfl, hsilent⟩ hleft
  rw [← htext]
  exact hsweeps

/-- The word is flushed in one run. -/
theorem sweeps_transparent_word :
    (bracketed letters).compile = .ok wordEnv.lexer ∧
      Sweeps wordEnv .unknown wordOpened "axy" wordBack ∧
      ∃ found progress after, nextVisit? wordEnv wordBack = some (found, .leave 1) ∧
        Returns (step wordEnv .unknown wordBack) {} progress after ∧
        ∃ part, Resumes wordEnv .unknown found (wordEnv.lexer.mode 1)
          ("(" ++ ("axy" ++ ("b" ++ part))) wordOpened.tree progress.last := by
  obtain ⟨hok, hskip, hvisit, hsteps⟩ : (bracketed letters).compile.isOk = true ∧
      (wordOpened.top wordEnv).skip = false ∧
      nextVisit? wordEnv wordBack = some (⟨5, [some ⟨5, 6⟩], .finish, 1⟩, .leave 1) ∧
      ((step wordEnv .unknown wordBack).run.run {}).1.isOk = true := by decide +kernel
  have hcompile : (bracketed letters).compile = .ok wordEnv.lexer := bracketed_compiles _ hok
  obtain ⟨-, -, -, hback, -⟩ := sweeps_transparent hcompile hskip sweeps_word
  obtain ⟨progress, after, hstep⟩ :
      ∃ progress after, Returns (step wordEnv .unknown wordBack) {} progress after :=
    exists_gives_ok hsteps
  obtain ⟨part, -, hresumes⟩ := (hback rfl).1 _ _ progress {} after hvisit trivial hstep
  exact ⟨hcompile, sweeps_word, _, progress, after, hvisit, hstep, part, hresumes⟩

/-- A scan of letters in brackets, where the end of the brackets also ends the mode inside. -/
def spillingEnv : Env := bracketedEnv { letters with endsWithParent := true } "(ax)"

/-- Where the brackets are left together with the mode inside them, the text of both ends up behind
the brackets. -/
theorem skipped_text_spills :
    (bracketed { letters with endsWithParent := true }).compile = .ok spillingEnv.lexer ∧
      (spillingEnv.lexer.mode 2).OnlySkips ∧
      ∃ result after, Returns (highlight spillingEnv .unknown []) {} result after ∧
        result.value = "<span class=\"hljs-p\"></span>(ax)" := by
  obtain ⟨hok, hsilent, hkeywords, hlanguage, hcontains, hvalue⟩ :
      (bracketed { letters with endsWithParent := true }).compile.isOk = true ∧
      (spillingEnv.lexer.mode 2).IsSilent ∧ (spillingEnv.lexer.mode 2).keywords = none ∧
      (spillingEnv.lexer.mode 2).subLanguage = none ∧ (spillingEnv.lexer.mode 2).contains = [] ∧
      ((highlight spillingEnv .unknown []).run.run {}).1.toOption.map (·.value) =
        some "<span class=\"hljs-p\"></span>(ax)" := by decide +kernel
  obtain ⟨result, hresult, hvalue⟩ := Option.map_eq_some_iff.mp hvalue
  obtain ⟨after, hreturns⟩ := exists_gives_of_toOption hresult
  exact ⟨bracketed_compiles _ hok, ⟨hsilent, hkeywords, hlanguage, hcontains⟩, result, after,
    hreturns, hvalue⟩

end Scan

end Highlighter
