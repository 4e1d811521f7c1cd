import Highlighter.Proofs.Scan.Segments

/-!
# What an embedded language is asked for

The texts that a scan gives to an embedded language are all that it asks of it. Where two services
agree on these texts, and on everything that is not this language's, a scan does the same with both.
-/

namespace Highlighter.Scan

/-- Services that differ at most in what the language with a name makes of texts that are not
listed. -/
structure Nested.AgreesOn (name : String) (segments : List Segment) (nested nested' : Nested) :
    Prop where
  isKnown : nested'.isKnown = nested.isKnown
  detect : nested'.detect = nested.detect
  others : ∀ other, other ≠ name → nested'.highlight other = nested.highlight other
  listed : ∀ segment ∈ segments, nested'.highlight name segment.text segment.frames =
    nested.highlight name segment.text segment.frames

variable {env : Env} {nested nested' : Nested} {name : String} {found : RuleMatch} {state : State}
  {before : Trace} {frames : List Frame}

theorem Nested.AgreesOn.of_subset {segments segments' : List Segment}
    (h : nested.AgreesOn name segments nested') (hsubset : segments' ⊆ segments) :
    nested.AgreesOn name segments' nested' :=
  { h with listed := fun segment hsegment => h.listed segment (hsubset hsegment) }

theorem flush_congr (h : nested.AgreesOn name (state.asks? env nested name).toList nested') :
    flush env nested' state = flush env nested state := by
  have htop : ({ state with buffer := "" } : State).top env = state.top env := rfl
  simp only [flush, htop]
  cases hsub : (state.top env).subLanguage with
  | none => rfl
  | some language =>
    cases language with
    | candidates names => simp only [embed, h.detect]
    | named other =>
      simp only [embed, h.isKnown]
      split
      · rfl
      · next hempty =>
        split
        · rfl
        · next hknown =>
          have hsame : nested'.highlight other state.buffer (state.left other) =
              nested.highlight other state.buffer (state.left other) := by
            by_cases hname : other = name
            · subst hname
              refine h.listed ⟨state.buffer, state.left other⟩ ?_
              rw [State.asks?, if_pos ⟨hsub, by simpa using hknown, by simpa using hempty⟩]
              exact List.mem_singleton_self _
            · rw [h.others other hname]
          rw [State.left] at hsame
          rw [hsame]

theorem placeEnd_congr
    (h : nested.AgreesOn name ((endInput env found state).bind (State.asks? env nested name)).toList
      nested') :
    placeEnd env nested' found state = placeEnd env nested found state := by
  unfold endInput at h
  cases hscope : (state.top env).endScope with
  | some scope =>
    simp only [hscope, Option.bind_some] at h
    cases scope <;> simp only [placeEnd, hscope, flush_congr h]
  | none =>
    simp only [hscope] at h
    simp only [placeEnd, hscope]
    split
    · rfl
    · next hskip =>
      simp only [if_neg hskip, Option.bind_some] at h
      rw [flush_congr h]

theorem begin_congr {number : Nat}
    (h : ((askAll (env.info found) (beginHooks (env.lexer.mode number)) {}).run default).1.1 =
        .accept → nested.AgreesOn name
      ((beginInput env found number state).bind (State.asks? env nested name)).toList nested')
    (before : Trace) :
    (begin env nested' number found state).run.run before =
      (begin env nested number found state).run.run before := by
  refine lift_bind_run_congr ?_
  rintro ⟨decision, data⟩ between hask
  rw [beginHooks, (steady_askAll _ _ _).gives hask default] at h
  cases decision with
  | ignore => rfl
  | accept =>
    have h := h rfl
    unfold beginInput at h
    simp only [reduceCtorEq, if_false]
    split
    · rfl
    · next hskip =>
      rw [if_neg hskip] at h
      rw [flush_congr h]

theorem finish_congr
    (h : ((findEnded env found state.frames).run default).1.2.isSome = true → nested.AgreesOn name
      ((endInput env found state).bind (State.asks? env nested name)).toList nested')
    (before : Trace) :
    (finish env nested' found state).run.run before =
      (finish env nested found state).run.run before := by
  refine lift_bind_run_congr ?_
  rintro ⟨frames, count⟩ between hfind
  rw [(steady_findEnded _ _ _).gives hfind default] at h
  cases count with
  | none => rfl
  | some count =>
    have h := h rfl
    rw [← endInput_asks (findEnded_marks hfind).1] at h
    simp only [placeEnd_congr h]

theorem handle_congr (hwithin : isRunaway env found.index state = false)
    (h : nested.AgreesOn name ((flushed? env found (state.recorded found)
      (moveOf env found state)).bind (State.asks? env nested name)).toList nested')
    (before : Trace) :
    (handle env nested' found state).run.run before =
      (handle env nested found state).run.run before := by
  unfold moveOf at h
  cases hempty : emptyMode? found state with
  | some number => simp only [handle, hwithin, hempty]
  | none =>
    rw [hempty] at h
    cases hkind : found.kind with
    | illegal => simp only [handle, hwithin, hempty, hkind]
    | begin number =>
      rw [hkind] at h
      simp only [handle, hwithin, hempty, hkind, Bool.false_eq_true, if_false]
      refine @begin_congr _ _ _ name _ _ _ (fun haccept => ?_) before
      simp only [haccept, flushed?, State.recorded, hkind] at h
      exact h
    | finish =>
      rw [hkind] at h
      simp only [handle, hwithin, hempty, hkind, Bool.false_eq_true, if_false]
      refine bind_run_congr (@finish_congr _ _ _ name _ _ (fun hended => ?_) before)
      obtain ⟨count, hcount⟩ := Option.isSome_iff_exists.mp hended
      have hcount : ((findEnded env found state.frames).run default).1.2 = some count := hcount
      simp only [hcount, flushed?, State.recorded, hkind] at h
      exact h

/-- A step asks the language for nothing else. -/
theorem step_congr (h : nested.AgreesOn name (stepAsks? env nested name state).toList nested')
    (before : Trace) :
    (step env nested' state).run.run before = (step env nested state).run.run before := by
  unfold stepAsks? at h
  rw [step_eq, step_eq]
  split
  · rfl
  · rfl
  · next found cursor hfind =>
    rw [hfind] at h
    simp only at h
    split at h
    · next hrunaway => simp only [handle, hrunaway, if_true, throw_bind]
    · next hwithin =>
      exact bind_run_congr (handle_congr (Bool.not_eq_true _ ▸ hwithin) h before)

theorem afterLoop_congr {outcome : Outcome}
    (h : ∀ last, outcome = .done last →
      nested.AgreesOn name (restAsks? env nested name last).toList nested')
    (before : Trace) :
    (afterLoop env nested' outcome).run before = (afterLoop env nested outcome).run before := by
  cases outcome with
  | failed fault frames => rfl
  | done last => simp only [afterLoop, flushRest, flush_congr (h last rfl)]

theorem loop_congr {fuel : Nat}
    (h : nested.AgreesOn name ((segmentsFrom env nested name fuel state).run before).1 nested') :
    (loop env nested' fuel state >>= afterLoop env nested').run before =
      (loop env nested fuel state >>= afterLoop env nested).run before := by
  induction fuel generalizing state before with
  | zero =>
    simp only [loop, pure_bind]
    refine @afterLoop_congr _ _ _ name _ (fun last hlast => ?_) before
    cases hlast
    exact h
  | succ fuel ih =>
    have hlisted : (stepAsks? env nested name state).toList ⊆
        ((segmentsFrom env nested name (fuel + 1) state).run before).1 := by
      simp only [segmentsFrom, StateT.run_bind]
      generalize (step env nested state).run.run before = given
      obtain ⟨_ | ⟨_ | _⟩, _⟩ := given
      · exact List.Subset.refl _
      · exact List.subset_append_left _ _
      · exact List.subset_append_left _ _
    have hsame := step_congr (h.of_subset hlisted) before
    simp only [segmentsFrom, StateT.run_bind] at h
    simp only [loop, StateT.run_bind, bind_assoc, hsame]
    generalize (step env nested state).run.run before = given at h ⊢
    obtain ⟨_ | ⟨next | last⟩, between⟩ := given
    · rfl
    · exact ih (h.of_subset (List.subset_append_right _ _))
    · refine @afterLoop_congr _ _ _ name _ (fun _ hlast => ?_) between
      cases hlast
      exact h.of_subset (List.subset_append_right _ _)

/-- A scan asks an embedded language for nothing but its texts: what the language makes of any other
text has no effect. -/
theorem run_congr
    (h : nested.AgreesOn name ((segments env nested name frames).run before).1 nested') :
    (run env nested' frames).run before = (run env nested frames).run before := by
  rw [run_eq, run_eq]
  exact loop_congr h

end Highlighter.Scan
