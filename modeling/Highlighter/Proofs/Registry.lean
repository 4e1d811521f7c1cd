import Highlighter.Proofs.Lexer.Numbers
import Highlighter.Proofs.Lexer.Thinning
import Highlighter.Proofs.Scan.Extent
import Highlighter.Proofs.Registry.Rank

/-!
# Registries keep the text

The languages of a registry call each other for embedded text. By induction on the depth of these
calls, whatever a registry highlights or detects has the text it was given, provided that every
language in it has been compiled from a grammar whose flags do not contradict each other.
-/

namespace Highlighter

/-- Every language of a catalogue has been compiled from its grammar, its flags do not contradict
each other, and its matches are grouped as its patterns are. -/
structure Catalog.Sound (catalog : Catalog) : Prop where
  compiled : ∀ entry ∈ catalog.languages, entry.2.grammar.compile = .ok entry.2.lexer
  orderly : ∀ entry ∈ catalog.languages, entry.2.lexer.Orderly
  grouped : ∀ entry ∈ catalog.languages, entry.2.lexer.Grouped

theorem Catalog.mem_of_lookup {β : Type} {key : String} {value : β} {entries : List (String × β)}
    (h : entries.lookup key = some value) : (key, value) ∈ entries := by
  obtain ⟨_, _, happend, _⟩ := List.lookup_eq_some_iff.mp h
  rw [happend]
  simp

theorem Catalog.mem_of_find? {catalog : Catalog} {name key : String} {language : Language}
    (h : catalog.find? name = some (key, language)) : (key, language) ∈ catalog.languages := by
  simp only [find?] at h
  split at h
  · next hname =>
    cases h
    exact mem_of_lookup hname
  · simp only [Option.bind_eq_bind, Option.bind_eq_some_iff] at h
    obtain ⟨target, _, other, hother, hpure⟩ := h
    cases hpure
    exact mem_of_lookup hother

/-! ## A registry with one language -/

/-- A grammar for texts in quotes. -/
def quoted : Grammar where
  name := "t"
  root := .of {} [.own (.of {
    scope := some "string"
    beginPattern := some (.regex "\"")
    endPattern := some (.regex "\"") })]

/-- The language of texts in quotes. -/
def quotedLanguage : Language where
  grammar := quoted
  lexer := quoted.compile.toOption.getD default

/-- A catalogue with this language only. -/
def quotedCatalog : Catalog where
  languages := [("t", quotedLanguage)]

/-- A catalogue with one language is sound where the flags of the language do not contradict each
other and its rules stand alone, in whatever letter case. -/
theorem Catalog.sound_singleton {name : String} {language : Language}
    (hcompile : language.grammar.compile = .ok language.lexer) (hplain : language.lexer.Plain)
    (halone : ∀ mode ∈ language.lexer.modes.toList, ∀ rule ∈ mode.rules.rules, ∀ ignoreCase,
      rule.StandsAlone ignoreCase) : Sound { languages := [(name, language)] } := by
  have hspans : ∀ number, (language.lexer.mode number).rules.SpansMatch := by
    intro number
    obtain ⟨ignoreCase, hbuilt⟩ := ((language.grammar.compile_linked hcompile).modes number).built
    refine RuleSet.spansMatch_of_standsAlone hbuilt fun rule hrule => ?_
    exact Lexer.mode_of_forall (motive := fun mode => ∀ rule ∈ mode.rules.rules, ∀ ignoreCase,
      rule.StandsAlone ignoreCase) (List.forall_mem_nil _) halone number rule hrule ignoreCase
  have hmem : ∀ {motive : String × Language → Prop}, motive (name, language) →
      ∀ entry ∈ [(name, language)], motive entry :=
    fun h => List.forall_mem_singleton.mpr h
  exact ⟨hmem hcompile, hmem hplain.orderly, hmem (hplain.grouped hspans)⟩

theorem quotedCatalog_sound : quotedCatalog.Sound := by
  obtain ⟨hok, hplain, halone⟩ : quoted.compile.isOk = true ∧ quotedLanguage.lexer.Plain ∧
      ∀ mode ∈ quotedLanguage.lexer.modes.toList, ∀ rule ∈ mode.rules.rules, ∀ ignoreCase,
        rule.StandsAlone ignoreCase := by decide +kernel
  have hcompile : quoted.compile = .ok quotedLanguage.lexer := by
    dsimp only [quotedLanguage]
    exact eq_ok_of_isOk hok default
  exact Catalog.sound_singleton hcompile hplain halone

namespace Workshop

variable {workshop : Workshop} {before after : Trace} {result : Highlighted}

/-- What every candidate gives holds of all results. -/
theorem tryAll_forall {highlight : Highlight} {code : String} {names : List String}
    {results : List Highlighted} {motive : Highlighted → Prop}
    (hhighlight : ∀ {name before result after},
      Returns (highlight name code ⟨false, true⟩ []) before result after → motive result)
    (h : Gives (workshop.tryAll highlight code names) before results after) :
    ∀ result ∈ results, motive result := by
  induction names generalizing results before after with
  | nil =>
    obtain ⟨rfl, -⟩ := gives_pure_iff.mp h
    simp
  | cons name names ih =>
    rw [tryAll] at h
    split at h
    · obtain ⟨outcome, _, hfirst, hrest⟩ := gives_bind_iff.mp h
      split at hrest
      · obtain ⟨others, _, hothers, hpure⟩ := gives_bind_iff.mp hrest
        obtain ⟨rfl, -⟩ := gives_pure_iff.mp hpure
        intro result hmem
        rcases List.mem_cons.mp hmem with rfl | hmem
        · exact hhighlight hfirst
        · exact ih hothers result hmem
      · obtain ⟨_, _, _, hothers⟩ := gives_bind_iff.mp hrest
        exact ih hothers
    · exact ih h

/-- Detection ranks plain text along with what the candidates give. It gives the best one, with the
next one as its runner-up. -/
theorem detectWith_ranked {highlight : Highlight} {code : String} {asked : Option (List String)}
    (h : Gives (workshop.detectWith highlight code asked) before result after) :
    ∃ results between best rest,
      Gives (workshop.tryAll highlight code (workshop.candidates asked)) before results between ∧
      Rank.rank workshop.catalog
        (Highlighted.plain none code workshop.settings.classPrefix :: results) = best :: rest ∧
      result = { best with secondBest := rest.head? } := by
  simp only [detectWith] at h
  obtain ⟨results, between, htry, h⟩ := gives_bind_iff.mp h
  obtain ⟨_, _, _, h⟩ := gives_bind_iff.mp h
  split at h
  · next hrank =>
    have hperm := Rank.rank_perm workshop.catalog
      (Highlighted.plain none code workshop.settings.classPrefix :: results)
    rw [hrank] at hperm
    cases hperm.nil_eq
  · next best rest hrank =>
    obtain ⟨rfl, -⟩ := gives_pure_iff.mp h
    exact ⟨results, between, best, rest, htry, hrank, rfl⟩

/-- What holds of plain text and of what every candidate gives holds of the best result of detection
and of the runner-up. -/
theorem detectWith_forall {highlight : Highlight} {code : String} {asked : Option (List String)}
    {motive : Highlighted → Prop}
    (hplain : motive (Highlighted.plain none code workshop.settings.classPrefix))
    (hhighlight : ∀ {name before result after},
      Returns (highlight name code ⟨false, true⟩ []) before result after → motive result)
    (h : Gives (workshop.detectWith highlight code asked) before result after) :
    (∃ best, motive best ∧ result = { best with secondBest := result.secondBest }) ∧
      ∀ second, result.secondBest = some second → motive second := by
  obtain ⟨results, between, best, rest, htry, hrank, rfl⟩ := detectWith_ranked h
  have hranked : ∀ result ∈ best :: rest, motive result := by
    intro result hmem
    rw [← hrank] at hmem
    rcases List.mem_cons.mp ((Rank.rank_perm _ _).mem_iff.mp hmem) with rfl | hmem
    · exact hplain
    · exact tryAll_forall hhighlight htry result hmem
  refine ⟨⟨best, hranked best List.mem_cons_self, rfl⟩, fun second hsecond => ?_⟩
  exact hranked second (List.mem_cons_of_mem _ (List.mem_of_mem_head? hsecond))

/-- What detection gives has the text, and so has the runner-up. -/
theorem detectWith_carries {highlight : Highlight} {code : String} {asked : Option (List String)}
    (hhighlight : ∀ {name options before result after},
      Returns (highlight name code options []) before result after → result.Carries code)
    (h : Gives (workshop.detectWith highlight code asked) before result after) :
    result.Carries code ∧ ∀ second, result.secondBest = some second → second.Carries code := by
  have hplain := Highlighted.plain_carries none code workshop.settings.classPrefix
  obtain ⟨⟨best, hbest, heq⟩, hsecond⟩ := detectWith_forall hplain hhighlight h
  rw [heq]
  exact ⟨⟨hbest.openNodes, hbest.content⟩, heq ▸ hsecond⟩

/-- What stays the same while a text is scanned in a language of the catalogue. -/
def env (workshop : Workshop) (language : Language) (code : String) (options : Scan.Options) :
    Scan.Env where
  lexer := language.lexer
  language := language.grammar.name
  text := code.toList.toArray
  options := options
  settings := workshop.settings

/-- The services for embedded languages that may nest to the given depth. -/
def services (workshop : Workshop) (depth : Nat) (options : Scan.Options) : Scan.Nested where
  isKnown name := (workshop.catalog.find? name).isSome
  highlight name code frames :=
    workshop.highlightWithin depth name code
      { ignoreIllegals := true, safeMode := options.safeMode } frames
  detect := workshop.detectWith (workshop.highlightWithin depth)

theorem slice_env (workshop : Workshop) (language : Language) (code : String)
    (options : Scan.Options) :
    (workshop.env language code options).slice 0 (workshop.env language code options).text.size =
      code :=
  Regex.Span.text_ofList code

/-- Starting a language gives its lexer. -/
theorem start_eq {key : String} {language : Language} {lexer : Lexer}
    (h : Gives (start key language) before lexer after) : lexer = language.lexer := by
  simp only [start] at h
  obtain ⟨_, _, _, h⟩ := gives_bind_iff.mp h
  split at h
  · obtain ⟨_, _, _, h⟩ := gives_bind_iff.mp h
    obtain ⟨_, _, _, hpure⟩ := gives_bind_iff.mp h
    exact (gives_pure_iff.mp hpure).1.symm
  · exact (gives_pure_iff.mp h).1.symm

/-- Highlighting scans the text with the lexer of the language that the name leads to. -/
theorem highlightWithin_succ {depth : Nat} {name code : String} {options : Scan.Options}
    {frames : List Frame}
    (h : Returns (workshop.highlightWithin (depth + 1) name code options frames) before result
      after) :
    ∃ key language started, workshop.catalog.find? name = some (key, language) ∧
      Returns (Scan.highlight (workshop.env language code options)
        (workshop.services depth options) frames) started result after := by
  simp only [highlightWithin] at h
  split at h
  · exact absurd h not_returns_throw
  · next key language hfind =>
    obtain ⟨lexer, started, hstart, hscan⟩ := returns_bind_iff.mp h
    cases start_eq (returns_lift_iff.mp hstart)
    exact ⟨key, language, started, hfind, hscan⟩

theorem services_keepText {depth : Nat}
    (hhighlight : ∀ {name code options frames before result after},
      Returns (workshop.highlightWithin depth name code options frames) before result after →
        result.Carries code)
    (options : Scan.Options) : (workshop.services depth options).KeepsText :=
  ⟨fun hresult => (hhighlight hresult).content,
    fun hresult => (detectWith_carries hhighlight hresult).1.content⟩

/-- The embedded languages of a sound catalogue give back their text. -/
theorem highlightWithin_carries (hsound : workshop.catalog.Sound) {depth : Nat}
    {name code : String} {options : Scan.Options} {frames : List Frame}
    (h : Returns (workshop.highlightWithin depth name code options frames) before result after) :
    result.Carries code := by
  induction depth generalizing name code options frames before result after with
  | zero =>
    simp only [highlightWithin] at h
    exact absurd h not_returns_throw
  | succ depth ih =>
    obtain ⟨key, language, _, hfind, hscan⟩ := highlightWithin_succ h
    have hmem := Catalog.mem_of_find? hfind
    have hcarries := Scan.highlight_carries (services_keepText ih options)
      (Grammar.compile_checked (hsound.compiled _ hmem)) (hsound.orderly _ hmem)
      (hsound.grouped _ hmem) hscan
    rwa [slice_env] at hcarries

/-- In a completed run of a language of a sound catalogue, at any depth of embedding and inside any
modes, every node that the modes call for is a node of the tree, with the text from where its scope
starts to where it ends. -/
theorem run_keeps_extents (hsound : workshop.catalog.Sound)
    (hskip : ∀ entry ∈ workshop.catalog.languages, ∀ number,
      (entry.2.lexer.mode number).skip = false)
    {depth : Nat} {name key code : String} {language : Language} {options : Scan.Options}
    {frames : List Frame} (hfind : workshop.catalog.find? name = some (key, language))
    (h : Gives (Scan.run (workshop.env language code options) (workshop.services depth options)
      frames) before (.ok result) after) :
    (Scan.extents (workshop.env language code options) (workshop.services depth options) frames
      before).Sublist result.tree.placed := by
  have hmem := Catalog.mem_of_find? hfind
  exact Scan.run_extents (services_keepText (highlightWithin_carries hsound) options)
    (Grammar.compile_checked (hsound.compiled _ hmem)) (hskip _ hmem) (hsound.orderly _ hmem)
    (hsound.grouped _ hmem) h

/-- A text in quotes is a node from the first quote on up to behind the second one. -/
theorem run_keeps_extents_quoted :
    let workshop : Workshop := ⟨quotedCatalog, {}⟩
    let options : Scan.Options := ⟨false, false⟩
    let env := workshop.env quotedLanguage "x\"y\"" options
    let nested := workshop.services 0 options
    workshop.catalog.find? "T" = some ("t", quotedLanguage) ∧
      Scan.extents env nested [] {} = [⟨some "string", 1, "\"y\""⟩] ∧
      ∃ result after, Gives (Scan.run env nested []) {} (.ok result) after ∧
        (Scan.extents env nested [] {}).Sublist result.tree.placed := by
  intro workshop options env nested
  have hskip : ∀ number, (quotedLanguage.lexer.mode number).skip = false :=
    Lexer.mode_of_forall (motive := fun mode => mode.skip = false) rfl (by decide +kernel)
  have hskips : ∀ entry ∈ workshop.catalog.languages, ∀ number,
      (entry.2.lexer.mode number).skip = false := List.forall_mem_singleton.mpr hskip
  have hlower : Text.lower "T" = "t" := by decide +kernel
  have hfind : workshop.catalog.find? "T" = some ("t", quotedLanguage) := by
    rw [Catalog.find?, hlower]
    rfl
  obtain ⟨hok, hextents⟩ : ((Scan.run env nested []).run {}).1.isOk = true ∧
      Scan.extents env nested [] {} = [⟨some "string", 1, "\"y\""⟩] := by decide +kernel
  obtain ⟨result, after, hrun⟩ : ∃ result after,
      Gives (Scan.run env nested []) {} (.ok result) after := exists_gives_ok hok
  exact ⟨hfind, hextents, _, _, hrun,
    run_keeps_extents quotedCatalog_sound hskips hfind hrun⟩

end Workshop

namespace Registry

variable {registry : Registry} {before after : Trace}

/-- A registry without plugins keeps the text: whatever it highlights or detects has the text that
it was given, and so has the runner-up of detection. -/
theorem keeps_text (hplugins : registry.plugins = []) (hsound : registry.catalog.Sound) :
    (∀ code language ignoreIllegals before result after,
      Returns (registry.highlight code language ignoreIllegals) before result after →
        result.text = code) ∧
      ∀ code asked before result after, Gives (registry.detect code asked) before result after →
        result.text = code ∧ ∀ second, result.secondBest = some second → second.text = code := by
  constructor
  · intro code language ignoreIllegals before result after h
    simp only [highlight, hplugins] at h
    obtain ⟨request, _, hrequest, h⟩ := returns_bind_iff.mp h
    obtain ⟨rfl, -⟩ := gives_pure_iff.mp (returns_lift_iff.mp hrequest)
    simp only at h
    split at h
    · obtain ⟨_, _, _, h⟩ := returns_bind_iff.mp h
      exact absurd h not_returns_throw_bind
    · obtain ⟨highlighted, _, hhighlight, hpure⟩ := returns_bind_iff.mp h
      obtain ⟨rfl, -⟩ := returns_pure_iff.mp hpure
      exact (Workshop.highlightWithin_carries hsound hhighlight).text_eq
  · intro code asked before result after h
    have hhighlight : ∀ {name options before result after},
        Returns (registry.workshop.highlightWithin (registry.workshop.depth code) name code
          options []) before result after → result.Carries code :=
      Workshop.highlightWithin_carries hsound
    obtain ⟨hbest, hsecond⟩ := Workshop.detectWith_carries hhighlight h
    exact ⟨hbest.text_eq, fun second heq => (hsecond second heq).text_eq⟩

/-- The registry of this language keeps the texts that it highlights. -/
theorem keeps_text_quoted :
    let registry : Registry := { catalog := quotedCatalog }
    registry.plugins = [] ∧ registry.catalog.Sound ∧
      (∃ result after, Returns (registry.highlight "x\"y" "t" false) {} result after ∧
        result.text = "x\"y") ∧
      ∃ result after, Gives (registry.detect "x\"y" none) {} result after ∧
        result.text = "x\"y" ∧ ∀ second, result.secondBest = some second → second.text = "x\"y" := by
  intro registry
  obtain ⟨hhighlight, hdetect⟩ := @keeps_text registry rfl quotedCatalog_sound
  obtain ⟨result, after, hresult⟩ : ∃ result after,
      Returns (registry.highlight "x\"y" "t" false) {} result after :=
    exists_gives_ok (by decide +kernel)
  have hdetected : Gives (registry.detect "x\"y" none) {}
      ((registry.detect "x\"y" none).run {}).1 ((registry.detect "x\"y" none).run {}).2 := rfl
  exact ⟨rfl, quotedCatalog_sound, ⟨_, _, hresult, hhighlight _ _ _ _ _ _ hresult⟩,
    ⟨_, _, hdetected, hdetect _ _ _ _ _ hdetected⟩⟩

end Registry

end Highlighter
