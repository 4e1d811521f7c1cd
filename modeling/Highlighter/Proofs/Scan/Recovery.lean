import Highlighter.Proofs.Scan.Lockstep

/-!
# Recovering from faults

Everything that can stop a scan is illegal text or a fault of the scan itself, as long as the
languages that are embedded in it fail for these reasons only. In safe mode a scan recovers from
both, and gives the text as it stands, without any score.
-/

namespace Highlighter

variable {α β : Type}

/-- A fault from which a scan recovers in safe mode: illegal text, or a fault of the scan. -/
inductive Fault.IsRecoverable : Fault → Prop where
  | illegalToken (context : IllegalContext) : IsRecoverable (.illegalToken context)
  | engine (language : String) (cause : ScanFault) (rule : Option String) :
      IsRecoverable (.engine language cause rule)

/-- A computation fails with faults of one kind only. -/
def FailsWith (P : Fault → Prop) (x : TracedExcept α) : Prop :=
  ∀ before fault after, Gives x.run before (.error fault) after → P fault

/-- A computation fails for recoverable reasons only. -/
abbrev FailsRecoverably (x : TracedExcept α) : Prop :=
  FailsWith Fault.IsRecoverable x

namespace FailsWith

variable {P : Fault → Prop}

theorem of_pure (a : α) : FailsWith P (pure a) := by
  intro before fault after h
  cases (gives_pure_iff.mp h).1

theorem of_throw {fault : Fault} (h : P fault) : FailsWith P (throw fault : TracedExcept α) := by
  intro before other after hthrow
  cases congrArg Prod.fst hthrow
  exact h

theorem of_lift (x : Traced α) : FailsWith P (liftM x) := by
  intro before fault after h
  have hrun : (liftM x : TracedExcept α).run = (x >>= fun a => pure (.ok a)) := rfl
  rw [hrun] at h
  obtain ⟨_, _, _, hpure⟩ := gives_bind_iff.mp h
  cases (gives_pure_iff.mp hpure).1

theorem bind {x : TracedExcept α} {f : α → TracedExcept β} (hx : FailsWith P x)
    (hf : ∀ a, FailsWith P (f a)) : FailsWith P (x >>= f) := by
  intro before fault after h
  rw [ExceptT.run_bind] at h
  obtain ⟨outcome, between, hfirst, hrest⟩ := gives_bind_iff.mp h
  cases outcome with
  | error other =>
    obtain ⟨heq, rfl⟩ := gives_pure_iff.mp hrest
    cases heq
    exact hx before fault between hfirst
  | ok a => exact hf a between fault after hrest

/-- A computation that succeeds from every trace fails for no reason. -/
theorem of_returns {x : TracedExcept α} (h : ∀ before, ∃ a after, Returns x before a after) :
    FailsWith P x := by
  intro before fault after hfails
  obtain ⟨a, after', hreturns⟩ := h before
  cases congrArg Prod.fst (Eq.trans hfails.symm hreturns)

end FailsWith

namespace Scan

variable {P : Fault → Prop} {env : Env} {nested : Nested} {before after : Trace}

/-- Languages that are known fail with faults of one kind only. -/
def Nested.FailsWith (P : Fault → Prop) (nested : Nested) : Prop :=
  ∀ name text frames, nested.isKnown name = true →
    Highlighter.FailsWith P (nested.highlight name text frames)

/-- Languages that are known fail for recoverable reasons only. -/
abbrev Nested.FailsRecoverably (nested : Nested) : Prop :=
  nested.FailsWith Fault.IsRecoverable

section

variable (hnested : nested.FailsWith P)
include hnested

theorem flush_failsWith (state : State) : FailsWith P (flush env nested state) := by
  simp only [flush]
  split
  · simp only [embed]
    split
    · exact .of_pure _
    · split
      · next name _ =>
        split
        · exact .bind (.of_lift _) fun _ => .of_pure _
        · next hknown =>
          refine .bind (hnested name _ _ ?_) fun _ => .of_pure _
          simpa using hknown
      · exact .bind (.of_lift _) fun _ => .of_pure _
  · exact .of_pure _

theorem begin_failsWith (number : Nat) (found : RuleMatch) (state : State) :
    FailsWith P (begin env nested number found state) := by
  unfold begin
  refine .bind (.of_lift _) fun ⟨decision, data⟩ => ?_
  dsimp only
  split
  · exact .of_pure _
  · split
    · exact .bind (.of_pure _) fun _ => .of_pure _
    · exact .bind (flush_failsWith hnested _) fun _ => .of_pure _

theorem placeEnd_failsWith (found : RuleMatch) (state : State) :
    FailsWith P (placeEnd env nested found state) := by
  unfold placeEnd
  dsimp only
  split
  · exact .bind (flush_failsWith hnested _) fun _ => .of_pure _
  · exact .bind (flush_failsWith hnested _) fun _ => .of_pure _
  · split
    · exact .of_pure _
    · exact .bind (flush_failsWith hnested _) fun _ => .of_pure _

theorem finish_failsWith (found : RuleMatch) (state : State) :
    FailsWith P (finish env nested found state) := by
  unfold finish
  refine .bind (.of_lift _) fun ⟨frames, count⟩ => ?_
  cases count with
  | none => exact .of_pure _
  | some count =>
    exact .bind (placeEnd_failsWith hnested found _) fun _ => .of_pure _

variable (hengine : ∀ language cause rule, P (.engine language cause rule))
  (hillegal : env.options.ignoreIllegals = false → ∀ context, P (.illegalToken context))
include hengine hillegal

omit hengine in
/-- A match that is allowed and does not end a mode where this began without text fails at illegal
text only, unless this is ignored. -/
theorem handle_failsWith_of_allowed {found : RuleMatch} {state : State}
    (hallowed : isRunaway env found.index state = false) (hempty : emptyMode? found state = none) :
    FailsWith P (handle env nested found state) := by
  simp only [handle, hallowed, hempty, throw_bind, Bool.false_eq_true, if_false]
  split
  · exact begin_failsWith hnested _ found _
  · split
    · next hignore => exact .of_throw (hillegal (by simpa using hignore) _)
    · exact .of_pure _
  · refine .bind (finish_failsWith hnested found _) fun handled => ?_
    obtain ⟨_, advance⟩ := handled
    cases advance with
    | none => exact .of_pure _
    | some advance => exact .of_pure _

/-- Handling a match fails when there have been too many iterations, when a mode begins and ends
without text, and at illegal text unless this is ignored. -/
theorem handle_failsWith (found : RuleMatch) (state : State) :
    FailsWith P (handle env nested found state) := by
  cases hallowed : isRunaway env found.index state with
  | true =>
    simp only [handle, hallowed, throw_bind, if_true]
    exact .of_throw (hengine _ _ _)
  | false =>
    cases hempty : emptyMode? found state with
    | none => exact handle_failsWith_of_allowed hnested hillegal hallowed hempty
    | some number =>
      simp only [handle, hallowed, hempty, throw_bind, Bool.false_eq_true, if_false]
      split
      · exact .of_throw (hengine _ _ _)
      · exact .of_pure _

theorem step_failsWith (state : State) : FailsWith P (step env nested state) := by
  rw [step_eq]
  split
  · exact .of_throw (hengine _ _ _)
  · exact .of_pure _
  · exact .bind (handle_failsWith hnested hengine hillegal _ _) fun _ => .of_pure _

theorem loop_failsWith {fuel : Nat} {state : State} {fault : Fault} {frames : List Frame}
    (h : Gives (loop env nested fuel state) before (.failed fault frames) after) : P fault := by
  induction fuel generalizing state before with
  | zero => cases (gives_pure_iff.mp h).1
  | succ fuel ih =>
    obtain ⟨outcome, between, hstep, hrest⟩ := gives_bind_iff.mp h
    split at hrest
    · cases (gives_pure_iff.mp hrest).1
      exact step_failsWith hnested hengine hillegal state _ _ _ hstep
    · cases (gives_pure_iff.mp hrest).1
    · exact ih hrest

theorem run_failsWith {frames frames' : List Frame} {fault : Fault}
    (h : Gives (run env nested frames) before (.error (fault, frames')) after) : P fault := by
  obtain ⟨outcome, between, hloop, hrest⟩ := gives_bind_iff.mp h
  split at hrest
  · cases (gives_pure_iff.mp hrest).1
    exact loop_failsWith hnested hengine hillegal hloop
  · obtain ⟨flushed, _, hflush, hpure⟩ := gives_bind_iff.mp hrest
    split at hpure
    · cases (gives_pure_iff.mp hpure).1
      exact flush_failsWith hnested _ _ _ _ hflush
    · cases (gives_pure_iff.mp hpure).1

end

end Scan

/-- A text as it stands is shown with its entities. -/
theorem Highlighted.value_plain (language : Option String) (text classPrefix : String) :
    (Highlighted.plain language text classPrefix).value = Text.Html.escape text := by
  have hescape : ∀ text : String, TokenTree.html classPrefix { latest := [.text text] } =
      Text.Html.escape text := by
    intro text
    simp [TokenTree.html, TokenTree.children, Token.htmlList, Token.html_text]
  unfold Highlighted.plain Highlighted.ofTree TokenTree.addText
  split
  · next hempty =>
    rw [String.isEmpty_iff.mp hempty]
    simp [TokenTree.finish, TokenTree.closeMany, TokenTree.empty, TokenTree.html,
      TokenTree.children, Token.htmlList, Text.Html.escape, Text.Html.escapeChars]
  · exact hescape text

/-- A result tells what has been recovered from: illegal text or a fault, but not both. After
either, the text stands there without highlighting and without a score. -/
structure Highlighted.Recovers (result : Highlighted) (code : String) : Prop where
  illegal : result.isIllegal = result.illegalBy.isSome
  exclusive : ¬ (result.isIllegal = true ∧ result.errorRaised.isSome = true)
  plain : result.isIllegal = true ∨ result.errorRaised.isSome = true →
    result.relevance = 0 ∧ result.value = Text.Html.escape code

namespace Scan

variable {env : Env} {nested : Nested} {before after : Trace}

theorem conclude_recovers (env : Env) (state : State) (code : String) :
    (conclude env state).Recovers code where
  illegal := rfl
  exclusive h := by cases h.1
  plain h := by rcases h with h | h <;> cases h

/-- In safe mode a run that a recoverable fault has stopped is given up for the text as it
stands. -/
theorem settle_recovers (hsafe : env.options.safeMode = true) {fault : Fault}
    (h : fault.IsRecoverable) (frames : List Frame) (before : Trace) :
    ∃ result after, Returns (settle env (.error (fault, frames))) before result after ∧
      result.Recovers (env.slice 0 env.text.size) := by
  have hvalue := Highlighted.value_plain (some env.language) (env.slice 0 env.text.size)
    env.settings.classPrefix
  obtain ⟨hrelevance, hillegal, hraised⟩ :
      (Highlighted.plain (some env.language) (env.slice 0 env.text.size)
        env.settings.classPrefix).relevance = 0 ∧
      (Highlighted.plain (some env.language) (env.slice 0 env.text.size)
        env.settings.classPrefix).illegalBy = none ∧
      (Highlighted.plain (some env.language) (env.slice 0 env.text.size)
        env.settings.classPrefix).errorRaised = none := ⟨rfl, rfl, rfl⟩
  unfold settle
  generalize Highlighted.plain (some env.language) (env.slice 0 env.text.size)
    env.settings.classPrefix = plain at hvalue hrelevance hillegal hraised ⊢
  simp only [hsafe, Bool.not_true, Bool.false_eq_true, if_false]
  cases h with
  | illegalToken context =>
    refine ⟨_, before, returns_pure_iff.mpr ⟨rfl, rfl⟩, rfl, fun h => ?_,
      fun _ => ⟨hrelevance, hvalue⟩⟩
    rw [hraised] at h
    cases h.2
  | engine language cause rule =>
    refine ⟨_, _, returns_bind_iff.mpr ⟨(), _, returns_lift_iff.mpr rfl,
      returns_pure_iff.mpr ⟨rfl, rfl⟩⟩, rfl, fun h => ?_, fun _ => ⟨hrelevance, hvalue⟩⟩
    rw [Highlighted.isIllegal, hillegal] at h
    cases h.1

/-- In safe mode a scan comes to a result, whatever stops it. -/
theorem highlight_safe (hnested : nested.FailsRecoverably) (hsafe : env.options.safeMode = true)
    (frames : List Frame) (before : Trace) :
    ∃ result after, Returns (highlight env nested frames) before result after ∧
      result.Recovers (env.slice 0 env.text.size) := by
  rw [highlight_eq]
  obtain ⟨outcome, between, hrun⟩ : ∃ outcome between,
      Gives (run env nested frames) before outcome between := ⟨_, _, rfl⟩
  obtain ⟨result, after, hsettle, hrecovers⟩ : ∃ result after,
      Returns (settle env outcome) between result after ∧
        result.Recovers (env.slice 0 env.text.size) := by
    cases outcome with
    | ok result =>
      refine ⟨result, between, returns_pure_iff.mpr ⟨rfl, rfl⟩, ?_⟩
      obtain ⟨stopped, _, _, hrest⟩ := gives_bind_iff.mp hrun
      split at hrest
      · cases (gives_pure_iff.mp hrest).1
      · obtain ⟨flushed, _, _, hpure⟩ := gives_bind_iff.mp hrest
        split at hpure
        · cases (gives_pure_iff.mp hpure).1
        · cases (gives_pure_iff.mp hpure).1
          exact conclude_recovers env _ _
    | error failure =>
      exact settle_recovers hsafe (run_failsWith hnested .engine (fun _ => .illegalToken) hrun)
        failure.2 between
  exact ⟨result, after,
    returns_bind_iff.mpr ⟨outcome, between, returns_lift_iff.mpr hrun, hsettle⟩, hrecovers⟩

end Scan

end Highlighter
