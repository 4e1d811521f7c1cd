import Highlighter.Proofs.Registry.Safety
import Highlighter.Proofs.Scan.Diagnostics

/-!
# Complaints of a registry

By induction on the depth of embedding, an embedded language never complains about illegal text, as
it ignores its own. So whatever a registry complains about, be it that a call fails or that its
result tells of it, is an illegal match in the text of the call.
-/

namespace Highlighter

namespace Workshop

variable {workshop : Workshop} {depth : Nat} {name code : String} {options : Scan.Options}
  {frames : List Frame} {before after : Trace} {outcome : Except Fault Highlighted}
  {context : IllegalContext}

/-- A complaint is about an illegal match in a text in the language that a name leads to, and points
into this text. -/
def Explains (workshop : Workshop) (name code : String) (options : Scan.Options)
    (frames : List Frame) (context : IllegalContext) : Prop :=
  ∃ key language depth state found, workshop.catalog.find? name = some (key, language) ∧
    Scan.StopsAt (workshop.env language code options) (workshop.services depth options) frames state
      found context ∧
    Scan.PointsInto (workshop.env language code options) state found context

/-- Highlighting in a language that a name leads to starts its lexer and scans the text. -/
theorem highlightWithin_gives {key : String} {language : Language}
    (hfind : workshop.catalog.find? name = some (key, language))
    (h : Gives (workshop.highlightWithin (depth + 1) name code options frames).run before outcome
      after) :
    ∃ started, Gives (Scan.highlight (workshop.env language code options)
      (workshop.services depth options) frames).run started outcome after := by
  simp only [highlightWithin, hfind] at h
  obtain ⟨lexer, started, hstart, hscan⟩ := gives_lift_bind_iff.mp h
  cases start_eq hstart
  exact ⟨started, hscan⟩

/-- Embedded languages do not complain about illegal text. -/
theorem services_unrelated (workshop : Workshop) (depth : Nat) (options : Scan.Options) :
    (workshop.services depth options).FailsWith Fault.IsUnrelated := by
  have hengine : ∀ language cause rule, Fault.IsUnrelated (.engine language cause rule) :=
    fun _ _ _ _ heq => by cases heq
  induction depth generalizing options with
  | zero => exact fun _ _ _ _ => .of_throw (hengine _ _ _)
  | succ depth ih =>
    intro name code frames hknown before fault after hgives context heq
    obtain ⟨⟨key, language⟩, hfind⟩ := Option.isSome_iff_exists.mp hknown
    obtain ⟨started, hscan⟩ := highlightWithin_gives hfind hgives
    have hcomplaint : complaint? (.error fault : Except Fault Highlighted) = some context := by
      rw [heq]
      rfl
    obtain ⟨frames', between, hrun⟩ := Scan.run_of_complaint hscan hcomplaint
    have hignored : (workshop.env language code ⟨true, options.safeMode⟩).options.ignoreIllegals =
      true := rfl
    refine Scan.run_failsWith (ih _) hengine (fun hignores => ?_) hrun context rfl
    cases hignored.symm.trans hignores

/-- What highlighting complains about is an illegal match in the text. -/
theorem highlightWithin_explains (hsound : workshop.catalog.Sound)
    (h : Gives (workshop.highlightWithin depth name code options frames).run before outcome after)
    (hcomplaint : complaint? outcome = some context) :
    workshop.Explains name code options frames context := by
  cases depth with
  | zero =>
    cases congrArg Prod.fst h
    cases hcomplaint
  | succ depth =>
    cases hfind : workshop.catalog.find? name with
    | none =>
      simp only [highlightWithin, hfind] at h
      cases congrArg Prod.fst h
      cases hcomplaint
    | some entry =>
      obtain ⟨key, language⟩ := entry
      obtain ⟨started, hscan⟩ := highlightWithin_gives hfind h
      obtain ⟨frames', between, hrun⟩ := Scan.run_of_complaint hscan hcomplaint
      have hmem := Catalog.mem_of_find? hfind
      obtain ⟨state, found, hstops, hpoints⟩ := Scan.run_complains
        (services_keepText (highlightWithin_carries hsound) options)
        (services_unrelated workshop depth options)
        (Grammar.compile_checked (hsound.compiled _ hmem)) (hsound.orderly _ hmem)
        (hsound.grouped _ hmem) hrun
      exact ⟨key, language, depth, state, found, hfind, hstops, hpoints⟩

end Workshop

namespace Registry

variable {registry : Registry}

/-- Complaints point into the text. In a registry without plugins whose languages are sound, what
highlighting complains about, through its failure or through the result that recovers from it, is an
illegal match in the text that it was given, and points into this text. So does what the best result
of detection and the runner-up complain about, which come from candidates of the catalogue. -/
theorem complaints_point_into_text (hplugins : registry.plugins = [])
    (hsound : registry.catalog.Sound) :
    (∀ code name ignoreIllegals before outcome after context,
      Gives (registry.highlight code name ignoreIllegals).run before outcome after →
      complaint? outcome = some context →
        registry.workshop.Explains name code ⟨ignoreIllegals, registry.settings.safeMode⟩ []
          context) ∧
      ∀ code asked before result after context,
        Gives (registry.detect code asked) before result after →
        (result.illegalBy = some context ∨
          ∃ second, result.secondBest = some second ∧ second.illegalBy = some context) →
          ∃ name, registry.workshop.Explains name code ⟨false, true⟩ [] context := by
  constructor
  · intro code name ignoreIllegals before outcome after context h hcomplaint
    rw [highlight_of_no_plugins hplugins] at h
    split at h
    · obtain ⟨_, _, _, hthrow⟩ := gives_lift_bind_iff.mp h
      cases congrArg Prod.fst hthrow
      cases hcomplaint
    · exact Workshop.highlightWithin_explains hsound h hcomplaint
  · intro code asked before result after context h hcomplaint
    have hplain : ∀ context, (Highlighted.plain none code
        registry.workshop.settings.classPrefix).illegalBy = some context →
        ∃ name, registry.workshop.Explains name code ⟨false, true⟩ [] context := by
      intro context hnone
      cases hnone
    obtain ⟨⟨best, hbest, heq⟩, hsecond⟩ := Workshop.detectWith_forall (motive := fun result =>
      ∀ context, result.illegalBy = some context →
        ∃ name, registry.workshop.Explains name code ⟨false, true⟩ [] context) hplain
      (fun hresult context hcomplaint =>
        ⟨_, Workshop.highlightWithin_explains hsound hresult hcomplaint⟩) h
    rcases hcomplaint with hcomplaint | ⟨second, hrunner, hcomplaint⟩
    · rw [heq] at hcomplaint
      exact hbest context hcomplaint
    · exact hsecond second hrunner context hcomplaint

/-- A grammar for texts in quotes in which the letter x is illegal. -/
def strictQuoted : Grammar where
  name := "t"
  root := .of {} [.own (.of {
    scope := some "string"
    beginPattern := some (.regex "\"")
    endPattern := some (.regex "\"")
    illegal := some (.regex "x") })]

/-- The language of these texts. -/
def strictLanguage : Language where
  grammar := strictQuoted
  lexer := strictQuoted.compile.toOption.getD default

/-- A catalogue with this language only. -/
def strictCatalog : Catalog where
  languages := [("t", strictLanguage)]

theorem strictCatalog_sound : strictCatalog.Sound := by
  obtain ⟨hok, hplain, halone⟩ : strictQuoted.compile.isOk = true ∧ strictLanguage.lexer.Plain ∧
      ∀ mode ∈ strictLanguage.lexer.modes.toList, ∀ rule ∈ mode.rules.rules, ∀ ignoreCase,
        rule.StandsAlone ignoreCase := by decide +kernel
  have hcompile : strictQuoted.compile = .ok strictLanguage.lexer := by
    dsimp only [strictLanguage]
    exact eq_ok_of_isOk hok default
  exact Catalog.sound_singleton hcompile hplain halone

/-- An illegal letter between letters of two bytes. What is shown around it has two bytes before it,
and cuts no letter behind it. -/
theorem complaints_point_into_text_multibyte :
    let registry : Registry :=
      { catalog := strictCatalog, settings := { safeMode := false, contextWindow := 2 } }
    let outcome := ((registry.highlight "é<\"aéxé" "t" false).run.run {}).1
    registry.plugins = [] ∧ registry.catalog.Sound ∧
      ∃ context, complaint? outcome = some context ∧ context.index = 7 ∧ context.context = "éxé" ∧
        context.resultSoFar = "é&lt;<span class=\"hljs-string\"></span>" ∧
        registry.workshop.Explains "t" "é<\"aéxé" ⟨false, false⟩ [] context := by
  intro registry outcome
  obtain ⟨hhighlight, -⟩ := @complaints_point_into_text registry rfl strictCatalog_sound
  have hcomplaint : complaint? outcome = some {
      message := "Illegal lexeme \"x\" for mode \"string\""
      index := 7
      context := "éxé"
      mode := "string"
      language := "t"
      resultSoFar := "é&lt;<span class=\"hljs-string\"></span>" } := by
    decide +kernel
  exact ⟨rfl, strictCatalog_sound, _, hcomplaint, rfl, rfl, rfl,
    hhighlight _ _ _ {} _ _ _ rfl hcomplaint⟩

end Registry

end Highlighter
