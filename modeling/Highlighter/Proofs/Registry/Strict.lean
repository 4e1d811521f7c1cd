import Highlighter.Proofs.Registry.Agreement

/-!
# Success under strict options

A strict run fails at every illegal match and at every fault. One that succeeds has met neither, so
that the options make no difference: a run of the same text with any options is in lockstep with it
and comes to the same result.
-/

namespace Highlighter

/-- A lexer does the same as itself. -/
theorem Lexer.bisimilar_self (lexer : Lexer) : lexer.Bisimilar Eq lexer := by
  have hkind : ∀ kind : RuleKind, kind.Alike Eq kind := by
    intro kind
    cases kind with
    | «begin» number => exact .begin rfl
    | finish => exact .finish
    | illegal => exact .illegal
  constructor
  · constructor
    · rfl
    · rintro number _ rfl
      exact Iff.rfl
    · rintro number _ rfl
      rfl
    · rintro number _ rfl
      cases (lexer.mode number).next with
      | none => exact .none
      | some next => exact .some rfl
    · rfl
    · rfl
  · rintro number _ rfl text start cursor
    match (lexer.mode number).rules.find text start cursor with
    | .error error => exact .failed error
    | .ok (none, after) => exact .nothing after after
    | .ok (some found, after) => exact .found ⟨rfl, fun _ => rfl, hkind found.kind⟩ after

theorem Language.alike_self (language : Language) : language.Alike Eq language :=
  ⟨rfl, rfl, rfl, language.lexer.bisimilar_self⟩

theorem Catalog.alike_self (catalog : Catalog) : catalog.Alike (fun _ => Eq) catalog where
  names := rfl
  lookup key := by
    cases catalog.languages.lookup key with
    | none => exact .none
    | some language => exact .some language.alike_self
  aliases := rfl

theorem Workshop.alike_self (workshop : Workshop) : workshop.Alike (fun _ => Eq) workshop :=
  ⟨workshop.catalog.alike_self, rfl⟩

theorem framesAlike_eq_iff {frames frames' : List Frame} :
    FramesAlike Eq frames frames' ↔ frames = frames' := by
  have hframe : Frame.Alike Eq = Eq := by
    funext frame frame'
    refine propext ⟨fun h => ?_, fun h => h ▸ ⟨rfl, rfl, rfl⟩⟩
    obtain ⟨mode, data, isCredited⟩ := frame
    obtain ⟨mode', data', isCredited'⟩ := frame'
    obtain ⟨rfl, rfl, rfl⟩ := h
    rfl
  rw [FramesAlike, hframe, List.forall₂_eq_eq_eq]

/-- Results that are the same but for the numbers of modes are the same where the numbers are. -/
theorem Highlighted.Alike.eq {result result' : Highlighted}
    (h : result.Alike (FramesAlike Eq) result') : result = result' := by
  obtain ⟨hbare, hframes, hsingle, hsingle'⟩ := h
  obtain ⟨language, value, relevance, illegalBy, errorRaised, secondBest, tree, frames⟩ := result
  obtain ⟨language', value', relevance', illegalBy', errorRaised', secondBest', tree', frames'⟩ :=
    result'
  simp only [Highlighted.bare, Highlighted.mk.injEq] at hbare hsingle hsingle'
  cases framesAlike_eq_iff.mp hframes
  simp_all

namespace Scan

variable {env : Env} {nested : Nested} {frames : List Frame} {before after : Trace}
  {result : Highlighted}

theorem run_clean (h : Gives (run env nested frames) before (.ok result) after) :
    result.illegalBy = none ∧ result.errorRaised = none := by
  obtain ⟨outcome, _, _, hrest⟩ := gives_bind_iff.mp h
  split at hrest
  · obtain ⟨heq, -⟩ := gives_pure_iff.mp hrest
    cases heq
  · obtain ⟨_, _, _, hrest⟩ := gives_bind_iff.mp hrest
    split at hrest
    · obtain ⟨heq, -⟩ := gives_pure_iff.mp hrest
      cases heq
    · obtain ⟨heq, -⟩ := gives_pure_iff.mp hrest
      cases heq
      exact ⟨rfl, rfl⟩

/-- A scan that does not recover succeeds only where it has met nothing illegal and no fault. -/
theorem highlight_clean (hsafe : env.options.safeMode = false)
    (h : Returns (highlight env nested frames) before result after) :
    result.illegalBy = none ∧ result.errorRaised = none := by
  simp only [highlight, hsafe, Bool.not_false, if_true, throw_bind] at h
  obtain ⟨outcome, _, hrun, hrest⟩ := returns_bind_iff.mp h
  split at hrest
  · obtain ⟨rfl, -⟩ := returns_pure_iff.mp hrest
    exact run_clean (returns_lift_iff.mp hrun)
  · exact absurd hrest not_returns_throw

end Scan

namespace Workshop

variable {workshop : Workshop} {depth : Nat} {name code : String} {frames : List Frame}
  {before after : Trace} {result : Highlighted}

/-- A text that is highlighted under strict options, inside any modes and with languages embedded
to any depth, has nothing illegal and meets no fault, and under all options the result is the
same. -/
theorem highlightWithin_of_strict
    (h : Returns (workshop.highlightWithin depth name code ⟨false, false⟩ frames) before result
      after) (options : Scan.Options) (before' : Trace) :
    result.illegalBy = none ∧ result.errorRaised = none ∧
      ∃ after', Returns (workshop.highlightWithin depth name code options frames) before' result
        after' := by
  cases depth with
  | zero => exact absurd h not_returns_throw
  | succ depth =>
    obtain ⟨key, language, _, hfind, hscan⟩ := highlightWithin_succ h
    obtain ⟨hillegal, herror⟩ := Scan.highlight_clean rfl hscan
    refine ⟨hillegal, herror, ?_⟩
    have hagree := highlightWithin_agree workshop.alike_self (depth + 1) true name code
      ⟨false, false⟩ options frames frames (.strict rfl rfl fun hignore => by cases hignore)
      (fun _ _ _ => framesAlike_eq_iff.mpr rfl) before before'
    rw [show _ = _ from h] at hagree
    generalize hother : (workshop.highlightWithin (depth + 1) name code options frames).run.run
      before' = other at hagree
    obtain ⟨outcome, after'⟩ := other
    cases hagree with
    | ok hsame =>
      obtain rfl := Highlighted.Alike.eq ⟨hsame.bare, hsame.frames key language hfind, hsame.single,
        hsame.single'⟩
      exact ⟨after', hother⟩

/-- A grammar that has texts in quotes between angle brackets. -/
def bracketed : Grammar where
  name := "h"
  root := .of {} [.own (.of {
    beginPattern := some (.regex "<")
    endPattern := some (.regex ">")
    excludeBegin := true
    excludeEnd := true
    subLanguage := some (.named "t") })]

/-- The language of texts between brackets. -/
def bracketedLanguage : Language where
  grammar := bracketed
  lexer := bracketed.compile.toOption.getD default

/-- A workshop with this language and the one that it embeds. -/
def bracketedWorkshop : Workshop where
  catalog := { languages := [("h", bracketedLanguage), ("t", quotedLanguage)] }
  settings := {}

/-- A text in quotes between brackets is highlighted under strict options, and so it is under all
others. -/
theorem highlightWithin_of_strict_bracketed : ∃ result after,
    Returns (bracketedWorkshop.highlightWithin 2 "h" "<\"y\">" ⟨false, false⟩ []) {} result after ∧
      result.illegalBy = none ∧ result.errorRaised = none ∧
      ∃ after', Returns (bracketedWorkshop.highlightWithin 2 "h" "<\"y\">" ⟨true, true⟩ []) {} result
        after' := by
  obtain ⟨result, after, hstrict⟩ : ∃ result after,
      Gives (bracketedWorkshop.highlightWithin 2 "h" "<\"y\">" ⟨false, false⟩ []).run {}
        (.ok result) after := exists_gives_ok (by decide +kernel)
  exact ⟨result, after, hstrict, highlightWithin_of_strict hstrict ⟨true, true⟩ {}⟩

end Workshop

end Highlighter
