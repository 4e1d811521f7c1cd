import Highlighter.Proofs.Rendering
import Highlighter.Proofs.Scan.Discipline
import Highlighter.Proofs.Scan.Recovery
import Highlighter.Proofs.Text.Window

/-!
# Complaints about illegal text

A scan complains about illegal text in one place only: where a step has found a match that the mode
forbids. Languages that are embedded in it ignore their illegal text, so that the complaint is about
a match in the text of the scan itself. Up to there the scan has kept the text, and what the
complaint reports are stretches of it.
-/

namespace Highlighter

/-- A fault that has nothing to do with illegal text. -/
def Fault.IsUnrelated (fault : Fault) : Prop :=
  ∀ context, fault ≠ .illegalToken context

/-- The complaint that a call tells of: the one it fails with, or the one it has recovered from. -/
def complaint? : Except Fault Highlighted → Option IllegalContext
  | .ok result => result.illegalBy
  | .error (.illegalToken context) => some context
  | .error _ => none

/-- Without its tags and with its entities read back, the HTML of a tree under construction is
everything added to it so far. -/
theorem TokenTree.unescape_html_finish {classPrefix : String} (tree : TokenTree)
    (hclosing : '>' ∉ classPrefix.toList)
    (hscopes : ∀ scope ∈ tree.finish.shownScopes, '>' ∉ scope.toList) :
    Text.Html.unescape (Regex.Tag.regex.deleteAll (tree.finish.html classPrefix)) =
      tree.content := by
  have hstrip := Token.strip_htmlList hclosing tree.finish.children hscopes []
  rw [List.append_nil, Regex.Tag.strip, List.append_nil] at hstrip
  rw [Regex.Tag.deleteAll_regex, html, hstrip, ← plain_finish]
  exact Text.Html.unescape_escape tree.finish.plain

namespace Scan

variable {env : Env} {nested : Nested} {found : RuleMatch} {frames frames' : List Frame}
  {state : State} {context : IllegalContext} {before after : Trace}

/-- A scan stops at an illegal match: its steps lead to a state from which they find the match, and
the step from there fails with the complaint. -/
structure StopsAt (env : Env) (nested : Nested) (frames : List Frame) (state : State)
    (found : RuleMatch) (context : IllegalContext) : Prop where
  reaches : Reaches env nested frames state
  finds : ∃ cursor, (state.top env).rules.find env.text state.index state.begun.cursor =
    .ok (some found, cursor)
  isIllegal : found.kind = .illegal
  complains : ∃ before after,
    Gives (step env nested state).run before (.error (.illegalToken context)) after

/-- A complaint points into the text. Its index counts the bytes before the match. What it shows of
the text reaches from the last boundary with as many bytes between it and the index as the settings
ask for to the first one behind the match of which the same holds, as far as the text goes. The HTML
so far, without its tags and entities, goes on with the text that is still in the buffer up to the
match. -/
structure PointsInto (env : Env) (state : State) (found : RuleMatch) (context : IllegalContext) :
    Prop where
  within : found.index ≤ env.text.size
  index : context.index = (env.slice 0 found.index).utf8ByteSize
  window : Text.Spans (env.slice 0 env.text.size) context.context
    (context.index - env.settings.contextWindow)
    (min (env.slice 0 env.text.size).utf8ByteSize (context.index + env.settings.contextWindow))
  shown : '>' ∉ env.settings.classPrefix.toList →
    (∀ scope ∈ state.tree.finish.shownScopes, '>' ∉ scope.toList) →
    ∃ tag, Regex.compile false "<[^>]*>" = .ok tag ∧
      Text.Html.unescape (tag.deleteAll context.resultSoFar) ++
          (state.buffer ++ env.slice state.index found.index) =
        env.slice 0 found.index

/-! ## Where complaints come from -/

/-- Handling a match complains where the match is illegal, and nowhere else. -/
theorem handle_complains (hnested : nested.FailsWith Fault.IsUnrelated)
    (h : Gives (handle env nested found state).run before (.error (.illegalToken context)) after) :
    found.kind = .illegal ∧ complain env found state = .illegalToken context := by
  have hengine : ∀ language cause rule, Fault.IsUnrelated (.engine language cause rule) :=
    fun _ _ _ _ heq => by cases heq
  have hunrelated : ∀ {α : Type} {x : TracedExcept α} {before after},
      FailsWith Fault.IsUnrelated x → ¬ Gives x.run before (.error (.illegalToken context)) after :=
    fun hx hgives => hx _ _ _ hgives _ rfl
  by_cases hallowed : isRunaway env found.index state = true
  · simp only [handle, hallowed, throw_bind, if_true] at h
    exact absurd h (hunrelated (.of_throw (hengine _ _ _)))
  · cases hempty : emptyMode? found state with
    | some number =>
      simp only [handle, hallowed, hempty, throw_bind, Bool.false_eq_true, if_false] at h
      split at h
      · exact absurd h (hunrelated (.of_throw (hengine _ _ _)))
      · exact absurd h (hunrelated (.of_pure _))
    | none =>
      simp only [handle, hallowed, hempty, throw_bind, Bool.false_eq_true, if_false] at h
      split at h
      · exact absurd h (hunrelated (begin_failsWith hnested _ found _))
      · next hkind =>
        split at h
        · refine ⟨hkind, ?_⟩
          cases congrArg Prod.fst h
          rfl
        · exact absurd h (hunrelated (.of_pure _))
      · refine absurd h (hunrelated (.bind (finish_failsWith hnested found _) fun handled => ?_))
        obtain ⟨_, advance⟩ := handled
        cases advance with
        | none => exact .of_pure _
        | some advance => exact .of_pure _

/-- A step complains about the match that it has found. -/
theorem step_complains (hnested : nested.FailsWith Fault.IsUnrelated)
    (h : Gives (step env nested state).run before (.error (.illegalToken context)) after) :
    ∃ found cursor, (state.top env).rules.find env.text state.index state.begun.cursor =
        .ok (some found, cursor) ∧
      found.kind = .illegal ∧
      complain env found (state.reached env found cursor) = .illegalToken context := by
  rw [step_eq] at h
  split at h
  · cases congrArg Prod.fst h
  · cases congrArg Prod.fst h
  · next found cursor hfind =>
    rw [ExceptT.run_bind] at h
    obtain ⟨outcome, between, hhandle, hrest⟩ := gives_bind_iff.mp h
    cases outcome with
    | error fault =>
      cases (gives_pure_iff.mp hrest).1
      obtain ⟨hkind, hcomplain⟩ := handle_complains hnested hhandle
      exact ⟨found, cursor, hfind, hkind, hcomplain⟩
    | ok handled => cases (gives_pure_iff.mp hrest).1

/-- A loop fails in a step from a state that keeps what every step keeps. -/
theorem loop_fails {motive : State → Prop} {fuel : Nat} {fault : Fault}
    (hstep : ∀ {state progress before after}, motive state →
      Returns (step env nested state) before progress after → motive progress.last)
    (hstate : motive state)
    (h : Gives (loop env nested fuel state) before (.failed fault frames) after) :
    ∃ last, motive last ∧ ∃ before after, Gives (step env nested last).run before (.error fault)
      after := by
  induction fuel generalizing state before with
  | zero => cases (gives_pure_iff.mp h).1
  | succ fuel ih =>
    obtain ⟨outcome, between, hfirst, hrest⟩ := gives_bind_iff.mp h
    split at hrest
    · cases (gives_pure_iff.mp hrest).1
      exact ⟨state, hstate, before, between, hfirst⟩
    · cases (gives_pure_iff.mp hrest).1
    · exact ih (hstep hstate hfirst) hrest

/-! ## What complaints report -/

/-- A complaint points into the text where the scan has kept the text up to the match. -/
theorem complain_pointsInto {cursor : Nat} (hreads : Reads env state)
    (hle : state.index ≤ found.index) (hwithin : found.index ≤ env.text.size)
    (h : complain env found (state.reached env found cursor) = .illegalToken context) :
    PointsInto env state found context := by
  cases h
  have hindex : Text.byteOffset env.text found.index =
      (env.slice 0 found.index).utf8ByteSize := by
    rw [Text.byteOffset_eq, Env.slice, Regex.Span.text, String.utf8ByteSize_ofList,
      Array.toList_extract, List.extract_eq_take_drop, List.drop_zero, Nat.sub_zero]
  have htext : env.slice 0 env.text.size = String.ofList env.text.toList := by
    rw [Env.slice, Regex.Span.text, Array.extract_size]
  refine ⟨hwithin, hindex, ?_, fun hclosing hscopes => ?_⟩
  · rw [htext]
    exact Text.around_spans env.text found.index env.settings.contextWindow
  · refine ⟨Regex.Tag.regex, Regex.Tag.compile_regex, ?_⟩
    have hcontent := state.tree.unescape_html_finish hclosing hscopes
    have hwritten : state.tree.content ++ (state.buffer ++ env.slice state.index found.index) =
        env.slice 0 found.index := hreads.reached hle cursor
    rw [← hcontent] at hwritten
    exact hwritten

/-- A run that fails with a complaint has stopped at an illegal match, and the complaint points into
the text. -/
theorem run_complains (hkeeps : nested.KeepsText) (hnested : nested.FailsWith Fault.IsUnrelated)
    (hchecked : ∀ number, (env.lexer.mode number).Checked) (horderly : env.lexer.Orderly)
    (hgrouped : env.lexer.Grouped)
    (h : Gives (run env nested frames) before (.error (.illegalToken context, frames')) after) :
    ∃ state found, StopsAt env nested frames state found context ∧
      PointsInto env state found context := by
  obtain ⟨outcome, between, hloop, hrest⟩ := gives_bind_iff.mp h
  split at hrest
  · cases (gives_pure_iff.mp hrest).1
    obtain ⟨state, ⟨hreaches, hreads⟩, failing, failed, hfails⟩ :=
      loop_fails (motive := fun state => Reaches env nested frames state ∧ Reads env state)
        (fun hstate hstep => ⟨hstate.1.step hstep,
          step_reads hkeeps hchecked horderly hgrouped hstate.2 hstep⟩)
        ⟨.start, reads_restore env frames⟩ hloop
    obtain ⟨found, cursor, hfind, hkind, hcomplain⟩ := step_complains hnested hfails
    have hle := (hgrouped.spans _).start_le_index hfind
    have hwithin : found.index ≤ env.text.size := by
      obtain ⟨hspan, hstretch⟩ := RuleSet.find_within hfind
      have hstart := hstretch.start_le
      have hstop := hstretch.stop_le
      omega
    exact ⟨state, found, ⟨hreaches, ⟨cursor, hfind⟩, hkind, failing, failed, hfails⟩,
      complain_pointsInto hreads hle hwithin hcomplain⟩
  · obtain ⟨flushed, _, hflush, hpure⟩ := gives_bind_iff.mp hrest
    split at hpure
    · cases (gives_pure_iff.mp hpure).1
      exact absurd rfl (flush_failsWith hnested _ _ _ _ hflush context)
    · cases (gives_pure_iff.mp hpure).1

/-- What a scan complains about has stopped its run, also where the scan has recovered from it. -/
theorem run_of_complaint {outcome : Except Fault Highlighted}
    (h : Gives (highlight env nested frames).run before outcome after)
    (hcomplaint : complaint? outcome = some context) :
    ∃ frames' between, Gives (run env nested frames) before
      (.error (.illegalToken context, frames')) between := by
  rw [highlight_eq] at h
  obtain ⟨stopped, between, hrun, hsettle⟩ := gives_lift_bind_iff.mp h
  obtain ⟨last, -, rfl | ⟨fault, rfl⟩⟩ := Reaches.of_run hrun
  · cases (gives_pure_iff.mp hsettle).1
    cases hcomplaint
  · refine ⟨last.frames, between, ?_⟩
    have hsame : fault = .illegalToken context := by
      simp only [settle, throw_bind] at hsettle
      split at hsettle
      · cases congrArg Prod.fst hsettle
        cases fault with
        | illegalToken other =>
          cases hcomplaint
          rfl
        | _ => cases hcomplaint
      · cases fault with
        | illegalToken other =>
          cases (gives_pure_iff.mp hsettle).1
          cases hcomplaint
          rfl
        | engine =>
          obtain ⟨_, _, _, hpure⟩ := gives_lift_bind_iff.mp hsettle
          cases (gives_pure_iff.mp hpure).1
          cases hcomplaint
        | _ =>
          cases congrArg Prod.fst hsettle
          cases hcomplaint
    rwa [hsame] at hrun

end Scan

end Highlighter
