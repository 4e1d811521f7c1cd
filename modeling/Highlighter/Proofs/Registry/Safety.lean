import Highlighter.Proofs.Registry.History
import Highlighter.Proofs.Scan.Recovery

/-!
# Safe mode

In safe mode highlighting a known language comes to a result. By induction on the depth of
embedding, an embedded language comes to one as well, or embedding goes too deep, which the scan
around it recovers from. Detection scans in safe mode, so that it loses none of its candidates.
-/

namespace Highlighter

/-- A language takes part in detection only where its name leads to it. -/
theorem Catalog.find?_of_takesPart {catalog : Catalog} {name : String}
    (h : catalog.takesPart name = true) : (catalog.find? name).isSome = true := by
  unfold Catalog.takesPart at h
  split at h
  · next hfind => exact Option.isSome_of_mem hfind
  · cases h

namespace Workshop

variable {workshop : Workshop} {depth : Nat} {name code : String} {options : Scan.Options}
  {before : Trace}

/-- In safe mode highlighting comes to a result where the name leads to a language, as long as the
languages that are embedded in it fail for recoverable reasons only. -/
theorem highlightWithin_recovers (hnested : (workshop.services depth options).FailsRecoverably)
    (hknown : (workshop.catalog.find? name).isSome = true) (hsafe : options.safeMode = true)
    (frames : List Frame) (before : Trace) :
    ∃ result after, Returns (workshop.highlightWithin (depth + 1) name code options frames) before
      result after ∧ result.Recovers code := by
  obtain ⟨⟨key, language⟩, hfind⟩ := Option.isSome_iff_exists.mp hknown
  obtain ⟨lexer, started, hstart⟩ : ∃ lexer started,
      Gives (start key language) before lexer started := ⟨_, _, rfl⟩
  cases start_eq hstart
  have hscan := @Scan.highlight_safe (workshop.env language code options) _ hnested hsafe frames
    started
  rw [slice_env] at hscan
  obtain ⟨result, after, hresult, hrecovers⟩ := hscan
  refine ⟨result, after, ?_, hrecovers⟩
  simp only [highlightWithin, hfind]
  exact returns_bind_iff.mpr ⟨_, started, returns_lift_iff.mpr hstart, hresult⟩

/-- In safe mode an embedded language comes to a result, or embedding has become too deep, which is
a fault of the scan. -/
theorem services_failsWith {P : Fault → Prop}
    (hengine : ∀ language cause rule, P (.engine language cause rule)) (workshop : Workshop)
    (depth : Nat) (hsafe : options.safeMode = true) :
    (workshop.services depth options).FailsWith P := by
  induction depth generalizing options P with
  | zero => exact fun _ _ _ _ => .of_throw (hengine _ _ _)
  | succ depth ih =>
    intro name text frames hknown
    refine .of_returns fun before => ?_
    have hinner := @ih ⟨true, options.safeMode⟩ _ Fault.IsRecoverable.engine hsafe
    obtain ⟨result, after, hresult, _⟩ := highlightWithin_recovers hinner hknown hsafe frames before
    exact ⟨result, after, hresult⟩

/-- In safe mode highlighting comes to a result where the name leads to a language. -/
theorem highlight_safe (hknown : (workshop.catalog.find? name).isSome = true)
    (hsafe : options.safeMode = true) (before : Trace) :
    ∃ result after, Returns (workshop.highlight name code options) before result after ∧
      result.Recovers code := by
  have hdepth : workshop.depth code ≠ 0 := Nat.mul_ne_zero (Nat.succ_ne_zero _) (Nat.succ_ne_zero _)
  obtain ⟨depth, heq⟩ := Nat.exists_eq_succ_of_ne_zero hdepth
  rw [highlight, heq]
  exact highlightWithin_recovers (services_failsWith .engine workshop depth hsafe) hknown hsafe []
    before

/-- Detection has a result of every candidate that takes part: the one that highlighting it in safe
mode comes to. -/
theorem tryAll_complete {highlight : Highlight} {names : List String}
    (h : ∀ name ∈ names, workshop.catalog.takesPart name = true → ∀ started, ∃ result ended,
      Returns (highlight name code ⟨false, true⟩ []) started result ended) (before : Trace) :
    ∃ results after, Gives (workshop.tryAll highlight code names) before results after ∧
      List.Forall₂ (fun name result => ∃ started ended,
          Returns (highlight name code ⟨false, true⟩ []) started result ended)
        (names.filter workshop.catalog.takesPart) results := by
  induction names generalizing before with
  | nil => exact ⟨[], before, gives_pure_iff.mpr ⟨rfl, rfl⟩, .nil⟩
  | cons name names ih =>
    have ih := ih fun name hname => h name (List.mem_cons_of_mem _ hname)
    simp only [tryAll]
    split
    · next hpart =>
      obtain ⟨result, between, hresult⟩ := h name List.mem_cons_self hpart before
      obtain ⟨results, after, hresults, hall⟩ := ih between
      refine ⟨result :: results, after, ?_, ?_⟩
      · refine gives_bind_iff.mpr ⟨_, between, hresult, ?_⟩
        exact gives_bind_iff.mpr ⟨results, after, hresults, gives_pure_iff.mpr ⟨rfl, rfl⟩⟩
      · rw [List.filter_cons_of_pos hpart]
        exact .cons ⟨before, between, hresult⟩ hall
    · next hpart =>
      rw [List.filter_cons_of_neg hpart]
      exact ih before

end Workshop

namespace Registry

variable {registry : Registry}

/-- Without plugins a text is highlighted as it is given, in the language that is asked for. -/
theorem highlight_of_no_plugins (hplugins : registry.plugins = []) (code language : String)
    (ignoreIllegals : Bool) :
    registry.highlight code language ignoreIllegals =
      if (registry.find? language).isNone then do
        Trace.log .error ("could not find the language `" ++ language ++ "`")
        throw (.unknownLanguage language)
      else registry.workshop.highlight language code
        { ignoreIllegals := ignoreIllegals, safeMode := registry.settings.safeMode } := by
  simp only [highlight, hplugins, askPlugins, List.foldl_nil, liftM_pure, pure_bind, throw_bind,
    bind_pure]

/-- A grammar with a pattern that cannot be compiled. -/
def unclosed : Grammar where
  name := "h"
  root := .of {} [.own (.of { beginPattern := some (.regex "(") })]

/-- A registry that has learned texts in quotes and has refused the other grammar. -/
def refusing : Registry :=
  let learned := ((Registry.empty.registerGrammar quoted).run {}).1.2
  ((learned.registerGrammar unclosed).run {}).1.2

theorem refusing_reached : refusing.Reached := by
  have hlearned : Reached ((Registry.empty.registerGrammar quoted).run {}).1.2 :=
    .registerGrammar .empty rfl
  exact .registerGrammar hlearned rfl

end Registry

end Highlighter
