import Highlighter.Proofs.Scan.Agreement
import Highlighter.Proofs.Scan.Preservation

/-!
# Scans in lockstep

When the rules of related modes find related matches, two scans that start alike stay alike step by
step, and come to results that are the same but for the numbers of modes. Where agreement is
lenient, the first scan may be stricter, and nothing is asked of the second one if the first fails.
-/

namespace Highlighter

/-- Two searches find related matches, or none, or fail for the same reason. -/
inductive SearchAlike (R : Nat → Nat → Prop) :
    Except Regex.Error (Option RuleMatch × Nat) → Except Regex.Error (Option RuleMatch × Nat) →
      Prop where
  | failed (error : Regex.Error) : SearchAlike R (.error error) (.error error)
  | nothing (cursor cursor' : Nat) : SearchAlike R (.ok (none, cursor)) (.ok (none, cursor'))
  | found {found found' : RuleMatch} (h : found.Alike R found') (cursor : Nat) :
      SearchAlike R (.ok (some found, cursor)) (.ok (some found', cursor))

/-- Related modes of two lexers do the same, and their rules find related matches. -/
structure Lexer.Bisimilar (R : Nat → Nat → Prop) (lexer lexer' : Lexer) : Prop where
  alike : lexer.Alike R lexer'
  search : ∀ number number', R number number' → ∀ text start cursor,
    SearchAlike R ((lexer.mode number).rules.find text start cursor)
      ((lexer'.mode number').rules.find text start cursor)

namespace Scan

variable {R : Nat → Nat → Prop} {C : String → List Frame → List Frame → Prop}
  {P : Registers → Registers → Prop} {lenient : Bool} {env env' : Env} {nested nested' : Nested}
  {state state' : State} {found found' : RuleMatch} {frames frames' : List Frame}

/-- Two scans are equally far. -/
structure Registers.Alike (R : Nat → Nat → Prop) (registers registers' : Registers) : Prop where
  index : registers.index = registers'.index
  iterations : registers.iterations = registers'.iterations
  lastMatch : Option.Rel (fun last last' => last.1.Alike R last'.1 ∧ last.2 = last'.2)
    registers.lastMatch registers'.lastMatch
  cursor : registers.cursor = registers'.cursor
  resume : registers.resume = registers'.resume

/-- Two scans have written the same, and are equally far. -/
abbrev State.InStep (R : Nat → Nat → Prop) (C : String → List Frame → List Frame → Prop) :
    State → State → Prop :=
  State.Alike R C (Registers.Alike R)

/-- Two scans of one text, with lexers that do the same. -/
structure Env.Bisimilar (lenient : Bool) (R : Nat → Nat → Prop) (env env' : Env) : Prop where
  alike : env.Alike R env'
  search : ∀ number number', R number number' → ∀ text start cursor,
    SearchAlike R ((env.lexer.mode number).rules.find text start cursor)
      ((env'.lexer.mode number').rules.find text start cursor)
  options : env.options.Alike lenient env'.options

namespace State.InStep

theorem recorded (h : state.InStep R C state') (hfound : found.Alike R found') :
    (state.recorded found).InStep R C (state'.recorded found') :=
  ⟨h.frames, h.tree, h.buffer, h.relevance, h.hits, h.continuations,
    ⟨h.registers.index, h.registers.iterations, .some ⟨hfound.kind, hfound.index⟩,
      h.registers.cursor, h.registers.resume⟩⟩

theorem begun (h : state.InStep R C state') : state.begun.InStep R C state'.begun := by
  refine ⟨h.frames, h.tree, h.buffer, h.relevance, h.hits, h.continuations, h.registers.index, ?_,
    h.registers.lastMatch, ?_, rfl⟩
  · exact congrArg (· + 1) h.registers.iterations
  · have hcursor : state.cursor = state'.cursor := h.registers.cursor
    have hresume : state.resume = state'.resume := h.registers.resume
    simp only [State.registers, State.begun, hcursor, hresume]

theorem reached (henv : env.Alike R env') (h : state.InStep R C state')
    (hfound : found.Alike R found') (cursor : Nat) :
    (state.reached env found cursor).InStep R C (state'.reached env' found' cursor) := by
  have hbegun := h.begun
  have hindex : state.index = state'.index := h.registers.index
  refine ⟨h.frames, h.tree, ?_, h.relevance, h.hits, h.continuations, hbegun.registers.index,
    hbegun.registers.iterations, h.registers.lastMatch, rfl, rfl⟩
  simp only [State.reached, h.buffer, hindex, hfound.index, henv.slice]

theorem withIndex (h : state.InStep R C state') (index : Nat) :
    ({ state with index := index } : State).InStep R C { state' with index := index } :=
  ⟨h.frames, h.tree, h.buffer, h.relevance, h.hits, h.continuations,
    ⟨rfl, h.registers.iterations, h.registers.lastMatch, h.registers.cursor, h.registers.resume⟩⟩

theorem ignore (henv : env.Alike R env') (h : state.InStep R C state') (index : Nat) :
    (Scan.ignore env index state).1.InStep R C (Scan.ignore env' index state').1 ∧
      (Scan.ignore env index state).2 = (Scan.ignore env' index state').2 := by
  have hcursor : state.cursor = state'.cursor := h.registers.cursor
  simp only [Scan.ignore, hcursor]
  split
  · exact ⟨h.takeChar henv index, rfl⟩
  · exact ⟨⟨h.frames, h.tree, h.buffer, h.relevance, h.hits, h.continuations,
      ⟨h.registers.index, h.registers.iterations, h.registers.lastMatch, rfl, rfl⟩⟩, rfl⟩

theorem isRunaway (henv : env.Alike R env') (h : state.InStep R C state') (position : Nat) :
    Scan.isRunaway env position state = Scan.isRunaway env' position state' := by
  have hiterations : state.iterations = state'.iterations := h.registers.iterations
  rw [Scan.isRunaway, Scan.isRunaway, hiterations, henv.settings, henv.text]

end State.InStep

/-- Related last matches lead to the same answer about a mode that ends where it began. -/
theorem emptyMode?_alike
    (h : Option.Rel (fun last last' => last.1.Alike R last'.1 ∧ last.2 = last'.2) state.lastMatch
      state'.lastMatch) (hfound : found.Alike R found') :
    Option.Rel R (emptyMode? found state) (emptyMode? found' state') := by
  have hfinish : (decide (found.kind = .finish)) = decide (found'.kind = .finish) := by
    rcases kind_cases hfound with ⟨_, _, hkind, hkind', -⟩ | ⟨hkind, hkind'⟩ | ⟨hkind, hkind'⟩ <;>
      simp [hkind, hkind']
  simp only [emptyMode?, hfinish, hfound.index, width_alike hfound]
  generalize state.lastMatch = last at h ⊢
  generalize state'.lastMatch = last' at h ⊢
  cases h with
  | none => exact .none
  | @some last last' hsame =>
    obtain ⟨kind, index⟩ := last
    obtain ⟨kind', index'⟩ := last'
    obtain ⟨hkind, hindex⟩ := hsame
    simp only at hkind hindex
    subst hindex
    cases hkind with
    | begin hnumber =>
      simp only
      split
      · exact .some hnumber
      · exact .none
    | finish => exact .none
    | illegal => exact .none

theorem handle_inStep (henv : env.Bisimilar lenient R env')
    (hnested : nested.Alike lenient C nested') (h : state.InStep R C state')
    (hfound : found.Alike R found') :
    AgreeExcept lenient
      (fun handled handled' => handled.1.InStep R C handled'.1 ∧ handled.2 = handled'.2)
      (handle env nested found state) (handle env' nested' found' state') := by
  have hignored := (h.recorded hfound).ignore henv.alike found'.index
  refine AgreeExcept.mono (handle_agree henv.alike hnested henv.options hfound h (h.recorded hfound)
    ?_ (emptyMode?_alike h.registers.lastMatch hfound)) ?_
  · rw [hfound.index]
    exact h.isRunaway henv.alike _
  · intro handled handled' hhandled
    cases hhandled with
    | alike hstate => exact ⟨hstate, rfl⟩
    | ignored =>
      rw [hfound.index]
      exact hignored

/-- Two steps lead to states that are alike, and both scans go on or both are done. -/
inductive Progress.Alike (R : Nat → Nat → Prop) (C : String → List Frame → List Frame → Prop) :
    Progress → Progress → Prop where
  | more {state state' : State} (h : state.InStep R C state') :
      Progress.Alike R C (.more state) (.more state')
  | done {state state' : State} (h : state.InStep R C state') :
      Progress.Alike R C (.done state) (.done state')

/-- Two scans that are alike stay alike in a step. -/
theorem step_agree (henv : env.Bisimilar lenient R env')
    (hnested : nested.Alike lenient C nested') (h : state.InStep R C state') :
    AgreeExcept lenient (Progress.Alike R C) (step env nested state)
      (step env' nested' state') := by
  have hindex : state.index = state'.index := h.registers.index
  have hcursor : state.begun.cursor = state'.begun.cursor := h.begun.registers.cursor
  have hsearch := henv.search _ _ (h.top_number henv.alike) env'.text state'.index
    state'.begun.cursor
  rw [step_eq, step_eq, henv.alike.text, hindex, hcursor]
  change SearchAlike R ((state.top env).rules.find env'.text state'.index state'.begun.cursor)
    ((state'.top env').rules.find env'.text state'.index state'.begun.cursor) at hsearch
  generalize (state.top env).rules.find env'.text state'.index state'.begun.cursor = result
    at hsearch ⊢
  generalize (state'.top env').rules.find env'.text state'.index state'.begun.cursor = result'
    at hsearch ⊢
  cases hsearch with
  | failed error =>
    simp only [Env.fault, henv.alike.language]
    exact .of_throw _
  | nothing cursor cursor' => exact .of_pure (.done h.begun)
  | found hfound cursor =>
    refine .bind (handle_inStep henv hnested (h.reached henv.alike hfound cursor) hfound) ?_
    rintro ⟨next, advance⟩ ⟨next', _⟩ ⟨hnext, rfl⟩
    simp only [hfound.index]
    refine .of_pure ?_
    split
    · exact .done (hnext.withIndex _)
    · exact .more (hnext.withIndex _)

/-- Two scans stop alike. -/
inductive Outcome.Alike (lenient : Bool) (R : Nat → Nat → Prop)
    (C : String → List Frame → List Frame → Prop) : Outcome → Outcome → Prop where
  | done {state state' : State} (h : state.InStep R C state') :
      Outcome.Alike lenient R C (.done state) (.done state')
  | failed {fault : Fault} {frames frames' : List Frame} (h : FramesAlike R frames frames') :
      Outcome.Alike lenient R C (.failed fault frames) (.failed fault frames')
  | excused {fault : Fault} {frames : List Frame} {outcome : Outcome} (h : lenient = true) :
      Outcome.Alike lenient R C (.failed fault frames) outcome

theorem loop_agree (henv : env.Bisimilar lenient R env')
    (hnested : nested.Alike lenient C nested') (fuel : Nat) (h : state.InStep R C state') :
    Agree (Outcome.Alike lenient R C) (loop env nested fuel state)
      (loop env' nested' fuel state') := by
  induction fuel generalizing state state' with
  | zero => exact agree_pure (.done h)
  | succ fuel ih =>
    rw [loop, loop]
    refine .bind (step_agree henv hnested h) fun outcome outcome' hstep => ?_
    cases hstep with
    | ok hprogress =>
      cases hprogress with
      | more hnext => exact ih hnext
      | done hnext => exact agree_pure (.done hnext)
    | error herror =>
      cases herror
      exact agree_pure (.failed h.frames)
    | excused hlenient =>
      intro before before'
      exact .excused hlenient

/-- Scans that start inside related modes start alike. -/
theorem restore_alike (henv : env.Alike R env') (h : FramesAlike R frames frames')
    (hstart : P (State.registers {}) (State.registers {})) :
    (State.restore env frames).Alike R C P (State.restore env' frames') := by
  have hwithin : frames.all (·.mode < env.lexer.modeCount) =
      frames'.all (·.mode < env'.lexer.modeCount) := by
    induction h with
    | nil => rfl
    | cons hframe _ ih =>
      rw [List.all_cons, List.all_cons, ih, decide_eq_decide.mpr
        (henv.lexer.within _ _ hframe.mode)]
  have hopened : ∀ (tree : TokenTree) {frames frames' : List Frame}, FramesAlike R frames frames' →
      frames.foldl (fun tree frame => openScope env (env.lexer.mode frame.mode) tree) tree =
        frames'.foldl (fun tree frame => openScope env' (env'.lexer.mode frame.mode) tree)
          tree := by
    intro tree frames frames' hframes
    induction hframes generalizing tree with
    | nil => rfl
    | cons hframe _ ih =>
      rw [List.foldl_cons, List.foldl_cons, ih,
        openScope_alike henv (henv.lexer.bare _ _ hframe.mode)]
  rw [State.restore, State.restore, hwithin]
  split
  · exact ⟨h, hopened _ (List.forall₂_reverse_iff.mpr h), rfl, rfl, rfl, .nil, hstart⟩
  · exact ⟨.nil, rfl, rfl, rfl, rfl, .nil, hstart⟩

theorem flushRest_agree (henv : env.Alike R env') (hnested : nested.Alike lenient C nested')
    (h : state.InStep R C state') :
    AgreeExcept lenient (State.InStep R C) (flushRest env nested state)
      (flushRest env' nested' state') := by
  have hindex : state.index = state'.index := h.registers.index
  rw [flushRest, flushRest, hindex, henv.slice, henv.text]
  exact flush_agree henv hnested (h.addToBuffer _)

theorem conclude_alike (henv : env.Alike R env') (h : state.Alike R C P state') :
    (conclude env state).Alike (FramesAlike R) (conclude env' state') := by
  have hpopped := popFrames_alike henv h state'.frames.length
  rw [conclude, conclude, h.frames.length_eq]
  refine ⟨?_, ?_, rfl, rfl⟩
  · simp only [Highlighted.bare, Highlighted.ofTree, hpopped.tree, hpopped.relevance, henv.language,
      henv.settings]
  · exact List.forall₂_map_left_iff.mpr (List.forall₂_map_right_iff.mpr
      (h.frames.imp fun _ _ hframe => ⟨hframe.mode, hframe.data, rfl⟩))

/-- Two runs give related results, or fail with the same fault inside related modes. -/
abbrev RunsAgree (lenient : Bool) (R : Nat → Nat → Prop) :
    Except (Fault × List Frame) Highlighted → Except (Fault × List Frame) Highlighted → Prop :=
  OutcomesAgree lenient
    (fun failure failure' => failure.1 = failure'.1 ∧ FramesAlike R failure.2 failure'.2)
    (Highlighted.Alike (FramesAlike R))

/-- Runs of two scans agree, also in the modes that are active where they fail. -/
theorem run_agree (henv : env.Bisimilar lenient R env')
    (hnested : nested.Alike lenient C nested') (h : FramesAlike R frames frames') :
    Agree (RunsAgree lenient R) (run env nested frames) (run env' nested' frames') := by
  have hfuel : env.fuel = env'.fuel := by
    rw [Env.fuel, Env.fuel, henv.alike.settings, henv.alike.text]
  have hstart : (State.restore env frames).InStep R C (State.restore env' frames') :=
    restore_alike henv.alike h ⟨rfl, rfl, .none, rfl, rfl⟩
  simp only [run, hfuel]
  refine .bind (loop_agree henv hnested _ hstart) fun _ _ houtcome => ?_
  cases houtcome with
  | failed hframes => exact agree_pure (.error ⟨rfl, hframes⟩)
  | excused hlenient => exact fun _ _ => .excused hlenient
  | done hstate =>
    refine .bind (flushRest_agree henv.alike hnested hstate) fun outcome outcome' hflushed => ?_
    cases hflushed with
    | ok hflushed => exact agree_pure (.ok (conclude_alike henv.alike hflushed))
    | error herror =>
      cases herror
      exact agree_pure (.error ⟨rfl, hstate.frames⟩)
    | excused hlenient => exact fun _ _ => .excused hlenient

/-- What becomes of the outcome of a run: in safe mode the text as it stands takes the place of a
fault. -/
def settle (env : Env) : Except (Fault × List Frame) Highlighted → TracedExcept Highlighted
  | .ok result => return result
  | .error (fault, frames) => do
    let plain :=
      Highlighted.plain (some env.language) (env.slice 0 env.text.size) env.settings.classPrefix
    if !env.options.safeMode then throw fault
    match fault with
    | .illegalToken context => return { plain with illegalBy := some context }
    | .engine .. =>
      Trace.log .warn fault.message
      return { plain with errorRaised := some fault.message, frames := frames }
    | _ => throw fault

theorem highlight_eq (env : Env) (nested : Nested) (frames : List Frame) :
    highlight env nested frames = (do settle env (← (run env nested frames : Traced _))) := by
  refine bind_congr fun outcome => ?_
  cases outcome with
  | ok result => rfl
  | error failure => rfl

/-- Outcomes that agree are settled alike. -/
theorem settle_agree (henv : env.Alike R env')
    (hoptions : env.options.Alike lenient env'.options)
    {outcome outcome' : Except (Fault × List Frame) Highlighted}
    (h : RunsAgree lenient R outcome outcome') :
    AgreeExcept lenient (Highlighted.Alike (FramesAlike R)) (settle env outcome)
      (settle env' outcome') := by
  cases h with
  | ok hresult => exact .of_pure hresult
  | @error failure failure' hfailure =>
    obtain ⟨fault, active⟩ := failure
    obtain ⟨fault', active'⟩ := failure'
    obtain ⟨hfault, hactive⟩ := hfailure
    simp only at hfault hactive
    subst hfault
    simp only [settle, throw_bind, henv.language, henv.slice, henv.text, henv.settings]
    generalize env.options = options at hoptions ⊢
    generalize env'.options = options' at hoptions ⊢
    cases hoptions with
    | strict hlenient hsafe _ =>
      simp only [hsafe, Bool.not_false, if_true]
      exact .of_excused hlenient _
    | same =>
      split
      · exact .of_throw _
      · cases fault with
        | illegalToken context => exact .of_pure ⟨rfl, .nil, rfl, rfl⟩
        | engine language cause rule =>
          refine .bind (r := fun _ _ => True) (.of_agree fun _ _ => trivial) fun _ _ _ => ?_
          exact .of_pure ⟨rfl, hactive, rfl, rfl⟩
        | _ => exact .of_throw _
  | @excused failure _ hlenient =>
    obtain ⟨fault, active⟩ := failure
    simp only [settle]
    generalize env.options = options at hoptions ⊢
    generalize env'.options = options' at hoptions ⊢
    cases hoptions with
    | same hexact => cases hlenient.symm.trans hexact
    | strict _ hsafe _ =>
      simp only [hsafe, Bool.not_false, if_true, throw_bind]
      exact .of_excused hlenient _

/-- Two scans with lexers that do the same give the same, but for the numbers of modes. -/
theorem highlight_agree (henv : env.Bisimilar lenient R env')
    (hnested : nested.Alike lenient C nested') (h : FramesAlike R frames frames') :
    AgreeExcept lenient (Highlighted.Alike (FramesAlike R)) (highlight env nested frames)
      (highlight env' nested' frames') := by
  rw [highlight_eq, highlight_eq]
  exact .bind (.of_agree (run_agree henv hnested h))
    fun _ _ houtcome => settle_agree henv.alike henv.options houtcome

end Scan

end Highlighter
