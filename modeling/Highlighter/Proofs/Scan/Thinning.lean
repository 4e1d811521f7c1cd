import Highlighter.Proofs.Scan.Abreast

/-!
# Scans without idle rules

Two scans that stay abreast come to the same result, unless the one with the idle rules runs out of
iterations: every match that it ignores takes one.
-/

namespace Highlighter.Scan

variable {R : Nat → Nat → Prop} {C : String → List Frame → List Frame → Prop}
  {env env' : Env} {nested nested' : Nested} {state state' : State} {found found' : RuleMatch}
  {cursor cursor' : Nat} {frames frames' : List Frame}

theorem byteSize_eq_sum (text : Array Char) :
    Text.byteSize text = (text.toList.map Char.utf8Size).sum := by
  rw [Text.byteSize, ← Array.foldl_toList, List.sum_eq_foldl, List.foldl_map]

theorem byteOffset_le (text : Array Char) (position : Nat) :
    Text.byteOffset text position ≤ Text.byteSize text := by
  have hsplit := congrArg (fun chars => (chars.map Char.utf8Size).sum)
    (List.take_append_drop position text.toList)
  simp only [List.map_append, List.sum_append] at hsplit
  rw [Text.byteOffset, byteSize_eq_sum, byteSize_eq_sum, Array.toList_extract,
    List.extract_eq_take_drop, List.drop_zero, Nat.sub_zero]
  omega

theorem iterationLimit_mono (settings : Settings) {offset offset' : Nat} (h : offset ≤ offset') :
    settings.iterationLimit offset ≤ settings.iterationLimit offset' := by
  have hratio := Nat.mul_le_mul_left settings.iterationRatio h
  unfold Settings.iterationLimit
  omega

/-- A scan that is within its limits has two more iterations ahead before it has no fuel left. -/
theorem fuel_of_allowed {position : Nat} (h : isRunaway env position state = false) :
    state.iterations + 2 ≤ env.fuel := by
  have hlimit := iterationLimit_mono env.settings (byteOffset_le env.text position)
  have hallowed := isRunaway_eq_false_iff.mp h
  unfold Env.fuel
  omega

/-- A match is ignored when one of the hooks ignores every match. -/
theorem askAll_ignored {hooks : List Hook} {info : MatchInfo}
    (h : ∃ hook ∈ hooks, ∀ data, (hook.call info data).1 = .ignore) (data : FrameData)
    (trace : Trace) : ((askAll info hooks data).run trace).1.1 = .ignore := by
  induction hooks generalizing data trace with
  | nil =>
    obtain ⟨_, hmem, _⟩ := h
    cases hmem
  | cons first hooks ih =>
    have hask := ask_run .begin first info data trace
    rw [askAll, StateT.run_bind]
    generalize (Trace.ask .begin first info data).run trace = outcome at hask ⊢
    obtain ⟨⟨decision, data'⟩, trace'⟩ := outcome
    cases decision with
    | ignore => rfl
    | accept =>
      obtain ⟨hook, hmem, hignores⟩ := h
      rcases List.mem_cons.mp hmem with rfl | hmem
      · have hignored := hignores data
        rw [← hask] at hignored
        cases hignored
      · exact ih ⟨hook, hmem, hignores⟩ data' trace'

/-- Hooks of an idle mode ignore every match. -/
theorem askAll_idle {mode : LexerMode} (h : mode.IsIdle) (info : MatchInfo) (trace : Trace) :
    ((askAll info (beginHooks mode) {}).run trace).1.1 = .ignore := by
  obtain ⟨hook, hhook, hignores⟩ := h
  refine askAll_ignored ⟨hook, List.mem_append_right _ ?_, hignores info⟩ {} trace
  rw [hhook]
  exact List.mem_singleton_self hook

theorem loop_nothing {fuel : Nat}
    (hfind : (state.top env).rules.find env.text state.index state.begun.cursor =
      .ok (none, cursor)) :
    loop env nested (fuel + 1) state = pure (.done state.begun) := by
  rw [loop, step_eq, hfind]
  rfl

theorem loop_runaway {fuel : Nat}
    (hfind : (state.top env).rules.find env.text state.index state.begun.cursor =
      .ok (some found, cursor))
    (h : isRunaway env found.index (state.reached env found cursor) = true) :
    loop env nested (fuel + 1) state =
      pure (.failed (env.fault .tooManyIterations none) state.frames) := by
  rw [loop, step_eq, hfind]
  simp only [handle, h, if_true, throw_bind]
  rfl

/-- A scan goes on past a match of an idle mode. -/
theorem agree_loop_idle {β : Type} {r : Outcome → β → Prop} {y : Traced β} {fuel number : Nat}
    (hfind : (state.top env).rules.find env.text state.index state.begun.cursor =
      .ok (some found, cursor)) (hkind : found.kind = .begin number)
    (hidle : (env.lexer.mode number).IsIdle)
    (hallowed : isRunaway env found.index (state.reached env found cursor) = false)
    (h : Agree r
      (if env.text.size < (state.afterIgnored env found cursor).index
        then pure (.done (state.afterIgnored env found cursor))
        else loop env nested fuel (state.afterIgnored env found cursor)) y) :
    Agree r (loop env nested (fuel + 1) state) y := by
  intro before before'
  obtain ⟨after, hstep⟩ := @step_ignored _ nested _ _ _ _ hfind hkind hallowed
    (askAll_idle hidle _ _) before
  have hnext := h after before'
  rw [loop, StateT.run_bind]
  have hrun : (step env nested state).run.run before = _ := hstep
  rw [hrun]
  split at hnext
  · next hend =>
    rw [if_pos hend]
    exact hnext
  · next hend =>
    rw [if_neg hend]
    exact hnext

/-- Two scans stop level with each other, unless the first one has run out of iterations. -/
inductive Outcome.Level (R : Nat → Nat → Prop) (C : String → List Frame → List Frame → Prop)
    (env env' : Env) : Outcome → Outcome → Prop where
  | done {state state' : State} (h : state.Level R C env env' state') :
      Outcome.Level R C env env' (.done state) (.done state')
  | failed (fault : Fault) {frames frames' : List Frame} (h : FramesAlike R frames frames') :
      Outcome.Level R C env env' (.failed fault frames) (.failed fault frames')
  | runaway (frames : List Frame) (outcome : Outcome) :
      Outcome.Level R C env env' (.failed (env.fault .tooManyIterations none) frames) outcome

theorem State.Level.begun (h : state.Level R C env env' state') :
    state.begun.Level R C env env' state' :=
  ⟨h.frames, h.tree, h.relevance, h.hits, h.continuations, h.filled⟩

theorem State.Level.begun_right (h : state.Level R C env env' state') :
    state.Level R C env env' state'.begun :=
  ⟨h.frames, h.tree, h.relevance, h.hits, h.continuations, h.filled⟩

/-- What a search of a scan finds where rules find their leftmost matches. -/
theorem State.Abreast.exists_find (h : state.Abreast R C env env' state') :
    ∃ result, (state.top env).rules.find env.text state.index state.begun.cursor = .ok result := by
  obtain ⟨isMatch, isMatch', place, hthins, -⟩ := h.ahead
  obtain ⟨result, hfind, -⟩ :=
    RuleSet.find_foundFirst hthins.finds state.index state.begun.cursor h.cursor
  exact ⟨result, hfind⟩

/-- Once the second of two scans abreast is behind the text, the first one finds matches of idle
modes only. -/
theorem loop_drained {fuel : Nat} (htext : env.text = env'.text)
    (h : state.Abreast R C env env' state') (hend : env.text.size < state'.index)
    (hfuel : state.iterations + fuel = env.fuel) (hleft : 0 < fuel) :
    Agree (Outcome.Level R C env env') (loop env nested fuel state) (pure (.done state')) := by
  induction fuel generalizing state with
  | zero => cases hleft
  | succ fuel ih =>
    obtain ⟨⟨_ | found, cursor⟩, hfind⟩ := h.exists_find
    · rw [loop_nothing hfind]
      exact agree_pure (.done h.level.begun)
    · obtain ⟨-, hwithin, ⟨number, hkind, hidle, hnext⟩ | ⟨_, _, _, _, hle', _⟩⟩ :=
        h.search htext hfind
      · cases hallowed : isRunaway env found.index (state.reached env found cursor) with
        | true =>
          rw [loop_runaway hfind hallowed]
          exact agree_pure (.runaway _ _)
        | false =>
          have hmore : state.iterations + 1 + 2 ≤ env.fuel := fuel_of_allowed hallowed
          refine agree_loop_idle hfind hkind hidle hallowed ?_
          split
          · exact agree_pure (.done hnext.level)
          · refine ih hnext ?_ ?_
            · rw [iterations_afterIgnored]
              omega
            · omega
      · omega

/-- What a step of each of two scans abreast leads to. Where both ignore a match, one of them may be
behind the text before the other one is. -/
inductive Progress.Level (R : Nat → Nat → Prop) (C : String → List Frame → List Frame → Prop)
    (env env' : Env) (iterations iterations' : Nat) : Progress → Progress → Prop where
  | more {state state' : State} (h : state.Abreast R C env env' state')
      (hfirst : state.iterations = iterations) (hsecond : state'.iterations = iterations') :
      Progress.Level R C env env' iterations iterations' (.more state) (.more state')
  | done {state state' : State} (h : state.Level R C env env' state') :
      Progress.Level R C env env' iterations iterations' (.done state) (.done state')
  | drained {state state' : State} (h : state.Abreast R C env env' state')
      (hfirst : state.iterations = iterations) (hend : env.text.size < state'.index) :
      Progress.Level R C env env' iterations iterations' (.more state) (.done state')
  | ahead {state state' : State} (h : state.Abreast R C env env' state')
      (hsecond : state'.iterations = iterations') (hend : env.text.size < state.index) :
      Progress.Level R C env env' iterations iterations' (.done state) (.more state')

/-- A step of two scans abreast in which both find the same. -/
theorem step_level (henv : env.Thins R env') (hnested : nested.Alike false C nested')
    (h : state.Abreast R C env env' state')
    (hfind : (state.top env).rules.find env.text state.index state.begun.cursor =
      .ok (some found, cursor))
    (hfind' : (state'.top env').rules.find env'.text state'.index state'.begun.cursor =
      .ok (some found', cursor')) (hfound : found.Alike R found')
    (hle : state.index ≤ found.index) (hle' : state'.index ≤ found.index)
    (hignored : (state.afterIgnored env found cursor).Abreast R C env env'
      (state'.afterIgnored env' found' cursor'))
    (hallowed : isRunaway env found.index (state.reached env found cursor) = false) :
    AgreeExcept false
      (Progress.Level R C env env' (state.iterations + 1) (state'.iterations + 1))
      (step env nested state) (step env' nested' state') := by
  rw [step_eq, step_eq, hfind, hfind']
  refine .bind (h.handle_agree henv hnested hfind hfound hle hle' hallowed) ?_
  intro handled handled' hhandled
  refine .of_pure ?_
  cases hhandled with
  | @alike next next' advance hnext =>
    have habreast := hnext.abreast henv (Nat.succ_le_succ h.iterations)
      (Nat.le_add_right found.index advance)
    have hfirst : next.iterations = state.iterations + 1 := hnext.registers.iterations
    have hsecond : next'.iterations = state'.iterations + 1 := hnext.registers.iterations'
    simp only [← hfound.index, ← henv.alike.text]
    split
    · exact .done habreast.level
    · exact .more habreast hfirst hsecond
  | ignored =>
    have hfirst := iterations_afterIgnored env found cursor state
    have hsecond := iterations_afterIgnored env' found' cursor' state'
    change Progress.Level R C env env' _ _
      (if env.text.size < (state.afterIgnored env found cursor).index then
        .done (state.afterIgnored env found cursor)
      else .more (state.afterIgnored env found cursor))
      (if env'.text.size < (state'.afterIgnored env' found' cursor').index then
        .done (state'.afterIgnored env' found' cursor')
      else .more (state'.afterIgnored env' found' cursor'))
    rw [← henv.alike.text]
    split <;> split
    · exact .done hignored.level
    · next hend _ => exact .ahead hignored hsecond hend
    · next hend => exact .drained hignored hfirst hend
    · exact .more hignored hfirst hsecond

/-- Scans abreast stop level with each other, unless the first one runs out of iterations. -/
theorem loop_level {fuel fuel' : Nat} (henv : env.Thins R env')
    (hnested : nested.Alike false C nested') (h : state.Abreast R C env env' state')
    (hfuel : state.iterations + fuel = env.fuel) (hfuel' : state'.iterations + fuel' = env.fuel)
    (hleft : state.iterations + 2 ≤ env.fuel) :
    Agree (Outcome.Level R C env env') (loop env nested fuel state)
      (loop env' nested' fuel' state') := by
  have htext := henv.alike.text
  -- a scan that finds nothing any more is done in the next step
  have hdone : ∀ {state state' : State} {fuel' : Nat}, state.Abreast R C env env' state' →
      env.text.size < state.index → 0 < fuel' →
      Agree (Outcome.Level R C env env') (pure (.done state)) (loop env' nested' fuel' state') := by
    intro state state' fuel' habreast hend hpositive
    obtain ⟨cursor', hfind'⟩ := habreast.search_behind htext hend
    obtain ⟨rest, rfl⟩ := Nat.exists_eq_succ_of_ne_zero (Nat.ne_of_gt hpositive)
    rw [loop_nothing hfind']
    exact agree_pure (.done habreast.level.begun_right)
  induction fuel generalizing state state' fuel' with
  | zero => omega
  | succ fuel ih =>
    have hlead := h.iterations
    obtain ⟨rest, rfl⟩ := Nat.exists_eq_succ_of_ne_zero (n := fuel') (by omega)
    obtain ⟨⟨_ | found, cursor⟩, hfind⟩ := h.exists_find
    · obtain ⟨cursor', hfind'⟩ := h.search_nothing htext hfind
      rw [loop_nothing hfind, loop_nothing hfind']
      exact agree_pure (.done h.level.begun.begun_right)
    · have hsearch := h.search htext hfind
      obtain ⟨hle, hwithin, hcases⟩ := hsearch
      cases hallowed : isRunaway env found.index (state.reached env found cursor) with
      | true =>
        rw [loop_runaway hfind hallowed]
        exact fun _ _ => .runaway _ _
      | false =>
        have hmore : state.iterations + 1 + 2 ≤ env.fuel := fuel_of_allowed hallowed
        obtain ⟨number, hkind, hidle, hnext⟩ | ⟨found', cursor', hfind', hfound, hle', hnext⟩ :=
          hcases
        · refine agree_loop_idle hfind hkind hidle hallowed ?_
          have hiterations := iterations_afterIgnored env found cursor state
          split
          · next hend => exact hdone hnext hend (by omega)
          · exact ih hnext (by omega) hfuel' (by omega)
        · rw [loop, loop]
          refine .bind (step_level henv hnested h hfind hfind' hfound hle hle' hnext hallowed) ?_
          intro outcome outcome' hstep
          cases hstep with
          | error herror =>
            cases herror
            exact agree_pure (.failed _ h.level.frames)
          | excused hlenient => cases hlenient
          | ok hprogress =>
            cases hprogress with
            | more hnext hfirst hsecond =>
              exact ih hnext (by omega) (by omega) (by omega)
            | done hlevel => exact agree_pure (.done hlevel)
            | drained hnext hfirst hend =>
              exact loop_drained htext hnext hend (by omega) (by omega)
            | ahead hnext hsecond hend => exact hdone hnext hend (by omega)

theorem fuel_alike (henv : env.Alike R env') : env.fuel = env'.fuel := by
  rw [Env.fuel, Env.fuel, henv.settings, henv.text]

theorem registers_restore (env : Env) (frames : List Frame) :
    (State.restore env frames).registers = State.registers {} := by
  unfold State.restore
  split <;> rfl

theorem restore_abreast (henv : env.Thins R env') (h : FramesAlike R frames frames') :
    (State.restore env frames).Abreast R C env env' (State.restore env' frames') := by
  have hstart : (State.restore env frames).Alike R C (Registers.Fresh R 0 0 0)
      (State.restore env' frames') :=
    restore_alike henv.alike h ⟨rfl, rfl, .none, nofun, rfl, rfl⟩
  have hstill : ∀ (env : Env) (frames : List Frame),
      ({ State.restore env frames with index := 0 } : State) = State.restore env frames := by
    intro env frames
    have hindex : (State.restore env frames).index = 0 :=
      congrArg Registers.index (registers_restore env frames)
    rw [← hindex]
  have habreast := hstart.abreast henv (Nat.le_refl 0) (Nat.le_refl 0)
  rwa [hstill, hstill] at habreast

/-- Wherever two scans that are level have stopped, the text that is left makes up for the
difference. -/
theorem State.Level.filled_end (h : state.Level R C env env' state')
    (htext : env.text = env'.text) :
    state.filled env env.text.size = state'.filled env' env'.text.size := by
  have hend : ∀ (env : Env) (state : State) (stop : Nat), env.text.size ≤ stop →
      state.filled env env.text.size = state.filled env stop := by
    intro env state stop hle
    rw [State.filled, State.filled, Env.slice, Env.slice, ← @Regex.Span.text_min _ _ stop,
      Nat.min_eq_right hle]
  have hstop : ∃ stop, env.text.size ≤ stop ∧ state.index ≤ stop ∧ state'.index ≤ stop :=
    ⟨env.text.size + state.index + state'.index, by omega, by omega, by omega⟩
  obtain ⟨stop, hsize, hle, hle'⟩ := hstop
  rw [hend env state stop hsize, hend env' state' stop (htext ▸ hsize), h.filled stop hle hle']

theorem flushRest_level (henv : env.Alike R env') (hnested : nested.Alike false C nested')
    (h : state.Level R C env env' state') :
    AgreeExcept false (State.Alike R C fun _ _ => True) (flushRest env nested state)
      (flushRest env' nested' state') :=
  flush_agree henv hnested
    ⟨h.frames, h.tree, h.filled_end henv.text, h.relevance, h.hits, h.continuations, trivial⟩

/-- A run ends since it has taken more iterations than are allowed. -/
def Env.IsExhausted (env : Env) (outcome : Except (Fault × List Frame) Highlighted) : Prop :=
  ∃ active, outcome = .error (env.fault .tooManyIterations none, active)

/-- Runs of two scans agree, unless the first one runs out of iterations. -/
theorem run_level (henv : env.Thins R env') (hnested : nested.Alike false C nested')
    (h : FramesAlike R frames frames') :
    Agree (fun outcome outcome' => env.IsExhausted outcome ∨ RunsAgree false R outcome outcome')
      (run env nested frames) (run env' nested' frames') := by
  have hstart := @restore_abreast R C env env' frames frames' henv h
  have hiterations : ∀ (env : Env) (frames : List Frame),
      (State.restore env frames).iterations = 0 :=
    fun env frames => congrArg Registers.iterations (registers_restore env frames)
  have hloop := loop_level henv hnested hstart (by rw [hiterations, Nat.zero_add])
    (by rw [hiterations, Nat.zero_add]) (by rw [hiterations]; exact Nat.le_add_left _ _)
  simp only [run, ← fuel_alike henv.alike]
  refine .bind hloop fun outcome outcome' houtcome => ?_
  cases houtcome with
  | failed fault hframes => exact agree_pure (.inr (.error ⟨rfl, hframes⟩))
  | runaway active outcome' => exact fun _ _ => .inl ⟨active, rfl⟩
  | done hlevel =>
    refine .bind (flushRest_level henv.alike hnested hlevel) fun outcome outcome' hflushed => ?_
    cases hflushed with
    | ok hflushed => exact agree_pure (.inr (.ok (conclude_alike henv.alike hflushed)))
    | error herror =>
      cases herror
      exact agree_pure (.inr (.error ⟨rfl, hlevel.frames⟩))
    | excused hlenient => cases hlenient

/-- A scan comes to the same as one without the idle rules, as long as it does not run out of
iterations. -/
theorem highlight_level (henv : env.Thins R env') (hnested : nested.Alike false C nested')
    (h : FramesAlike R frames frames') {before : Trace}
    (hallowed : ¬ env.IsExhausted ((run env nested frames).run before).1) (before' : Trace) :
    OutcomesAgree false Eq (Highlighted.Alike (FramesAlike R))
      ((highlight env nested frames).run.run before).1
      ((highlight env' nested' frames').run.run before').1 := by
  have hoptions : env.options.Alike false env'.options := by
    rw [henv.options]
    exact .same rfl
  rw [highlight_eq, highlight_eq, ExceptT.run_bind, ExceptT.run_bind, StateT.run_bind,
    StateT.run_bind]
  rcases run_level henv hnested h before before' with hexhausted | hruns
  · exact absurd hexhausted hallowed
  · exact settle_agree henv.alike hoptions hruns _ _

end Highlighter.Scan
