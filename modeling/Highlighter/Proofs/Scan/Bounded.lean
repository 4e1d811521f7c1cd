import Highlighter.Proofs.Scan.Recovery
import Highlighter.Proofs.Scan.Registers
import Highlighter.Proofs.Scan.Thinning

/-!
# The loop of a scan always stops

Matches may be empty and may give their text back, so that the position of a scan need not grow. A
scan stops nevertheless: every match is handled only while there have not been too many iterations,
and at no position more of them are allowed than at the end of the text. This holds whatever the
search gives, and whatever is done with a match that is allowed.
-/

namespace Highlighter.Scan

/-- What drives the loop of a scan: a search for the next match, and what is done with it. Whatever
the search finds, a match after too many iterations is refused; and only the loop counts
iterations. -/
structure Driver (env : Env) where
  find : State → Except Regex.Error (Option RuleMatch × Nat)
  handle : RuleMatch → State → TracedExcept (State × Nat)
  refuses : ∀ {found : RuleMatch} {state : State}, isRunaway env found.index state = true →
    handle found state = throw (env.fault .tooManyIterations none)
  counts : ∀ {found : RuleMatch} {state state' : State} {advance : Nat} {before after : Trace},
    Returns (handle found state) before (state', advance) after →
      state'.iterations = state.iterations

namespace Driver

variable {env : Env} {nested : Nested} {driver : Driver env} {count count' : Nat}
  {state state' : State} {outcome outcome' : Outcome} {before after after' : Trace}

/-- A scan as it is, but for a search that may give anything. -/
def ofSearch (env : Env) (nested : Nested)
    (find : State → Except Regex.Error (Option RuleMatch × Nat)) : Driver env where
  find := find
  handle := Scan.handle env nested
  refuses h := by
    simp only [Scan.handle, h, if_true, throw_bind]
  counts := handle_iterations

/-- The scan with the rules of its modes. -/
def ofRules (env : Env) (nested : Nested) : Driver env :=
  ofSearch env nested fun state => (state.top env).rules.find env.text state.index state.cursor

/-- The body of the loop. -/
def step (driver : Driver env) (state : State) : TracedExcept Progress :=
  match driver.find state.begun with
  | .error error => throw (env.fault (.badRules error) none)
  | .ok (none, _) => return .done state.begun
  | .ok (some found, cursor) => do
    let (state', advance) ← driver.handle found (state.reached env found cursor)
    let state' := { state' with index := found.index + advance }
    return if env.text.size < state'.index then .done state' else .more state'

theorem step_ofRules (env : Env) (nested : Nested) (state : State) :
    (ofRules env nested).step state = Scan.step env nested state :=
  rfl

/-- From a state, the loop stops with an outcome after its body has been executed `count` times.
Nothing here limits the number of executions. -/
inductive Runs (driver : Driver env) : Nat → Trace → State → Outcome → Trace → Prop where
  | failed {state : State} {fault : Fault} {before after : Trace}
      (hstep : Gives (driver.step state).run before (.error fault) after) :
      Runs driver 1 before state (.failed fault state.frames) after
  | done {state last : State} {before after : Trace}
      (hstep : Returns (driver.step state) before (.done last) after) :
      Runs driver 1 before state (.done last) after
  | more {count : Nat} {state next : State} {outcome : Outcome} {before between after : Trace}
      (hstep : Returns (driver.step state) before (.more next) between)
      (hruns : Runs driver count between next outcome after) :
      Runs driver (count + 1) before state outcome after

/-! ## How often the body is executed -/

/-- A step after which the loop goes on has counted, and was within the limits. -/
theorem step_counts (h : Returns (driver.step state) before (.more state') after) :
    state'.iterations = state.iterations + 1 ∧
      state.iterations + 1 ≤ env.settings.iterationLimit (Text.byteSize env.text) := by
  unfold step at h
  split at h
  · exact absurd h not_returns_throw
  · cases (returns_pure_iff.mp h).1
  · next found cursor _ =>
    obtain ⟨⟨handled, advance⟩, _, hhandle, hpure⟩ := returns_bind_iff.mp h
    constructor
    · obtain ⟨heq, -⟩ := returns_pure_iff.mp hpure
      split at heq
      · cases heq
      · cases heq
        exact driver.counts hhandle
    · have hallowed : isRunaway env found.index (state.reached env found cursor) = false := by
        refine Bool.eq_false_iff.mpr fun hrunaway => ?_
        rw [driver.refuses hrunaway] at hhandle
        exact not_returns_throw hhandle
      have hlimit := isRunaway_eq_false_iff.mp hallowed
      exact Nat.le_trans hlimit
        (iterationLimit_mono env.settings (byteOffset_le env.text found.index))

/-- The more iterations have been counted, the fewer are left; beyond the limits there is one. -/
theorem Runs.count_le (h : driver.Runs count before state outcome after) :
    count ≤ env.settings.iterationLimit (Text.byteSize env.text) - state.iterations + 1 := by
  induction h with
  | failed hstep => omega
  | done hstep => omega
  | more hstep hruns ih =>
    obtain ⟨hcounted, hwithin⟩ := step_counts hstep
    rw [hcounted] at ih
    omega

/-- There is a run from every state. -/
theorem exists_runs (driver : Driver env) (before : Trace) (state : State) :
    ∃ count outcome after, driver.Runs count before state outcome after := by
  -- the number of iterations that are left becomes smaller with every step that is followed by one
  induction hleft : env.settings.iterationLimit (Text.byteSize env.text) - state.iterations using
    Nat.strong_induction_on generalizing before state with
  | _ left ih =>
    rcases hstep : (driver.step state).run.run before with ⟨fault | next | last, after⟩
    · exact ⟨1, _, after, .failed hstep⟩
    · have hreturns : Returns (driver.step state) before (.more next) after := hstep
      obtain ⟨hcounted, hwithin⟩ := step_counts hreturns
      obtain ⟨count, outcome, after', hruns⟩ :=
        ih _ (by omega) after next rfl
      exact ⟨count + 1, outcome, after', .more hstep hruns⟩
    · exact ⟨1, _, after, .done hstep⟩

/-- There is only one run from a state. -/
theorem Runs.unique (h : driver.Runs count before state outcome after)
    (h' : driver.Runs count' before state outcome' after') :
    count' = count ∧ outcome' = outcome ∧ after' = after := by
  induction h generalizing count' with
  | failed hstep =>
    cases h' with
    | failed hstep' =>
      cases Eq.trans hstep.symm hstep'
      exact ⟨rfl, rfl, rfl⟩
    | done hstep' => cases Eq.trans hstep.symm hstep'
    | more hstep' => cases Eq.trans hstep.symm hstep'
  | done hstep =>
    cases h' with
    | failed hstep' => cases Eq.trans hstep.symm hstep'
    | done hstep' =>
      cases Eq.trans hstep.symm hstep'
      exact ⟨rfl, rfl, rfl⟩
    | more hstep' => cases Eq.trans hstep.symm hstep'
  | more hstep hruns ih =>
    cases h' with
    | failed hstep' => cases Eq.trans hstep.symm hstep'
    | done hstep' => cases Eq.trans hstep.symm hstep'
    | more hstep' hruns' =>
      cases Eq.trans hstep.symm hstep'
      obtain ⟨rfl, rfl, rfl⟩ := ih hruns'
      exact ⟨rfl, rfl, rfl⟩

/-- With fuel for as many steps, the loop comes to the same outcome. -/
theorem Runs.loop_eq (h : (ofRules env nested).Runs count before state outcome after) {fuel : Nat}
    (hfuel : count ≤ fuel) : Gives (loop env nested fuel state) before outcome after := by
  induction h generalizing fuel with
  | failed hstep =>
    obtain ⟨fuel, rfl⟩ := Nat.exists_eq_add_of_le' hfuel
    exact gives_bind_iff.mpr ⟨_, _, hstep, gives_pure_iff.mpr ⟨rfl, rfl⟩⟩
  | done hstep =>
    obtain ⟨fuel, rfl⟩ := Nat.exists_eq_add_of_le' hfuel
    exact gives_bind_iff.mpr ⟨_, _, hstep, gives_pure_iff.mpr ⟨rfl, rfl⟩⟩
  | @more count _ _ _ _ _ _ hstep hruns ih =>
    obtain ⟨fuel, rfl⟩ := Nat.exists_eq_add_of_le' (Nat.le_trans (Nat.le_add_left 1 count) hfuel)
    exact gives_bind_iff.mpr ⟨_, _, hstep, ih (Nat.le_of_succ_le_succ hfuel)⟩

end Driver

/-! ## What a scan ends with -/

/-- An embedded language that is known fails with a fault. -/
def Nested.Raises (nested : Nested) (fault : Fault) : Prop :=
  ∃ name text frames before after, nested.isKnown name = true ∧
    Gives (nested.highlight name text frames).run before (.error fault) after

/-- The faults that are not due to the engine of a scan: illegal text, unless this is ignored, and
the faults of embedded languages. -/
inductive IsForeign (env : Env) (nested : Nested) : Fault → Prop where
  | illegal (h : env.options.ignoreIllegals = false) (context : IllegalContext) :
      IsForeign env nested (.illegalToken context)
  | embedded {fault : Fault} (h : nested.Raises fault) : IsForeign env nested fault

/-- The faults that end a scan. -/
inductive EndsWith (env : Env) (nested : Nested) : Fault → Prop where
  | engine (language : String) (cause : ScanFault) (rule : Option String) :
      EndsWith env nested (.engine language cause rule)
  | foreign {fault : Fault} (h : IsForeign env nested fault) : EndsWith env nested fault

variable {env : Env} {nested : Nested}

theorem nested_failsWith_isForeign (env : Env) (nested : Nested) :
    nested.FailsWith (IsForeign env nested) :=
  fun name text frames hknown before _ after h =>
    .embedded ⟨name, text, frames, before, after, hknown, h⟩

theorem nested_failsWith_endsWith (env : Env) (nested : Nested) :
    nested.FailsWith (EndsWith env nested) :=
  fun name text frames hknown before fault after h =>
    .foreign (nested_failsWith_isForeign env nested name text frames hknown before fault after h)

theorem Driver.Runs.endsWith {find : State → Except Regex.Error (Option RuleMatch × Nat)}
    {count : Nat} {state : State} {outcome : Outcome} {before after : Trace} {fault : Fault}
    {frames : List Frame} (h : (ofSearch env nested find).Runs count before state outcome after)
    (hfault : outcome = .failed fault frames) : EndsWith env nested fault := by
  have hstep : ∀ state : State, FailsWith (EndsWith env nested)
      ((ofSearch env nested find).step state) := by
    intro state
    unfold Driver.step
    split
    · exact .of_throw (.engine _ _ _)
    · exact .of_pure _
    · exact .bind (handle_failsWith (nested_failsWith_endsWith env nested) .engine
        (fun hignore context => .foreign (.illegal hignore context)) _ _) fun _ => .of_pure _
  induction h with
  | failed hfails =>
    cases hfault
    exact hstep _ _ _ _ hfails
  | done => cases hfault
  | more _ _ ih => exact ih hfault

/-- The loop of a scan always stops. Whatever the search gives and whatever is done with the matches
that are allowed, there is exactly one run of it, and this executes its body at most once more often
than is allowed at the end of the text. What stops it before the end of the text is a fault of the
scan, illegal text, or a fault of an embedded language. With the rules of the modes this is what the
scan does: the fuel that it is given never decides anything. -/
theorem loop_stops (env : Env) (nested : Nested) (frames : List Frame) (before : Trace) :
    (∀ driver : Driver env, ∃ count outcome after,
        driver.Runs count before (State.restore env frames) outcome after ∧
        count ≤ env.settings.iterationLimit (Text.byteSize env.text) + 1 ∧
        ∀ count' outcome' after',
          driver.Runs count' before (State.restore env frames) outcome' after' →
            count' = count ∧ outcome' = outcome ∧ after' = after) ∧
      (∀ find count fault frames' after, (Driver.ofSearch env nested find).Runs count before
          (State.restore env frames) (.failed fault frames') after → EndsWith env nested fault) ∧
      (∀ count outcome after, (Driver.ofRules env nested).Runs count before
          (State.restore env frames) outcome after →
        (run env nested frames).run before = (afterLoop env nested outcome).run after) ∧
      ∀ fault frames' after, Gives (run env nested frames) before (.error (fault, frames')) after →
        EndsWith env nested fault := by
  have hcount : ∀ (driver : Driver env) count outcome after,
      driver.Runs count before (State.restore env frames) outcome after →
        count ≤ env.settings.iterationLimit (Text.byteSize env.text) + 1 := by
    intro driver count outcome after hruns
    have hle := hruns.count_le
    omega
  refine ⟨fun driver => ?_, fun find count fault frames' after hruns => hruns.endsWith rfl,
    fun count outcome after hruns => ?_, fun fault frames' after hrun => ?_⟩
  · obtain ⟨count, outcome, after, hruns⟩ :=
      driver.exists_runs before (State.restore env frames)
    exact ⟨count, outcome, after, hruns, hcount driver _ _ _ hruns,
      fun _ _ _ hruns' => hruns.unique hruns'⟩
  · have hfuel : count ≤ env.fuel := Nat.le_succ_of_le (hcount _ _ _ _ hruns)
    rw [run_eq, StateT.run_bind, show (loop env nested env.fuel _).run before = _ from
      hruns.loop_eq hfuel]
    rfl
  · exact run_failsWith (nested_failsWith_endsWith env nested) .engine
      (fun hignore context => .foreign (.illegal hignore context)) hrun

end Highlighter.Scan
