import Highlighter.Proofs.Registry.Changes
import Highlighter.Proofs.Registry.Safety

/-!
# Registrations that fail

A grammar that cannot be had or compiled leaves a placeholder under its name, and nothing else: the
names that led to other languages, or to none, lead there still, and whatever leads to the name
finds a language without rules. Scanning a text with such a language takes one step, which finds
nothing, so the text comes out as it stands.
-/

namespace Highlighter

namespace Scan

variable {env : Env} {nested : Nested} {before : Trace}

theorem top_of_idle (hmodes : env.lexer.modes = #[default]) {state : State}
    (hframes : state.frames = []) : state.top env = default := by
  simp only [State.top, hframes, Lexer.mode, hmodes]
  rfl

/-- A scan without rules takes no match: the whole text is what is left after its first step. -/
theorem loop_of_idle (hmodes : env.lexer.modes = #[default]) :
    Gives (loop env nested env.fuel (State.restore env [])) before
      (.done { State.restore env [] with iterations := 1 }) before := by
  have hstep : Returns (step env nested (State.restore env [])) before
      (.done { State.restore env [] with iterations := 1 }) before := by
    rw [step, top_of_idle hmodes rfl]
    exact returns_pure_iff.mpr ⟨rfl, rfl⟩
  exact gives_bind_iff.mpr ⟨_, before, hstep, gives_pure_iff.mpr ⟨rfl, rfl⟩⟩

/-- Text without keywords to look for goes into the tree as it is. -/
theorem flush_of_idle (hmodes : env.lexer.modes = #[default]) {state : State}
    (hframes : state.frames = []) :
    flush env nested state =
      pure { state with buffer := "", tree := state.tree.addText state.buffer } := by
  have htop : ({ state with buffer := "" } : State).top env = default :=
    top_of_idle hmodes hframes
  have hlanguage : (default : LexerMode).subLanguage = none := rfl
  have hkeywords : (default : LexerMode).keywords = none := rfl
  simp only [flush, markKeywords, htop, hlanguage, hkeywords]

theorem flushRest_of_idle (hmodes : env.lexer.modes = #[default]) :
    Returns (flushRest env nested { State.restore env [] with iterations := 1 }) before
      { iterations := 1, tree := TokenTree.empty.addText (env.slice 0 env.text.size) } before := by
  rw [flushRest, flush_of_idle hmodes rfl, returns_pure_iff]
  refine ⟨?_, rfl⟩
  simp only [State.addToBuffer, State.restore, List.all_nil, if_true, String.empty_append,
    List.reverse_nil, List.foldl_nil]

/-- A text comes out as it stands where there are no rules. -/
theorem run_of_idle (hmodes : env.lexer.modes = #[default]) :
    Gives (run env nested []) before
      (.ok (.plain (some env.language) (env.slice 0 env.text.size) env.settings.classPrefix))
      before := by
  have hconclude (text : String) :
      conclude env { iterations := 1, tree := TokenTree.empty.addText text } =
        .plain (some env.language) text env.settings.classPrefix := rfl
  rw [run]
  refine gives_bind_iff.mpr ⟨_, before, loop_of_idle hmodes, ?_⟩
  refine gives_bind_iff.mpr ⟨_, before, flushRest_of_idle hmodes, ?_⟩
  exact gives_pure_iff.mpr ⟨congrArg Except.ok (hconclude _), rfl⟩

/-- Without rules highlighting gives the text as it stands. -/
theorem highlight_of_idle (hmodes : env.lexer.modes = #[default]) :
    Returns (highlight env nested []) before
      (.plain (some env.language) (env.slice 0 env.text.size) env.settings.classPrefix)
      before :=
  returns_bind_iff.mpr ⟨_, before, returns_lift_iff.mpr (run_of_idle hmodes),
    returns_pure_iff.mpr ⟨rfl, rfl⟩⟩

end Scan

namespace Catalog

/-- Whether a name stands for a key: it is the key, or it is no language of its own and has been let
to lead to the key, whether or not there is a language under it. -/
def leads (catalog : Catalog) (name key : String) : Bool :=
  Text.lower name == key ||
    ((catalog.languages.lookup (Text.lower name)).isNone &&
      catalog.aliases.lookup (Text.lower name) == some key)

variable {catalog : Catalog} {name other : String} {language : Language}

/-- A language that is put under a name is found by the names that lead to it. -/
theorem find?_insert_of_leads (h : catalog.leads other (Text.lower name) = true) :
    (catalog.insert name language).find? other = some (Text.lower name, language) := by
  have hkey : (catalog.insert name language).languages.lookup (Text.lower name) =
      some language := by
    rw [insert, lookup_put, beq_self_eq_true, if_pos rfl]
  refine find?_eq_some_iff.mpr ⟨hkey, ?_⟩
  by_cases hsame : Text.lower other = Text.lower name
  · exact .inl hsame
  · have hother : (Text.lower other == Text.lower name) = false := beq_eq_false_iff_ne.mpr hsame
    simp only [leads, hother, Bool.false_or, Bool.and_eq_true, beq_iff_eq,
      Option.isNone_iff_eq_none] at h
    refine .inr ⟨?_, h.2⟩
    rw [insert, lookup_put, hother]
    exact h.1

/-- Any other name leads to what it has led to before. -/
theorem find?_insert_of_not_leads (h : catalog.leads other (Text.lower name) = false) :
    (catalog.insert name language).find? other = catalog.find? other := by
  simp only [leads, Bool.or_eq_false_iff, Bool.and_eq_false_iff] at h
  obtain ⟨hother, haliases⟩ := h
  simp only [find?, insert, lookup_put, hother, Bool.false_eq_true, if_false]
  cases hown : catalog.languages.lookup (Text.lower other) with
  | some found => rfl
  | none =>
    rw [hown] at haliases
    cases htarget : catalog.aliases.lookup (Text.lower other) with
    | none => rfl
    | some target =>
      have hne : (target == Text.lower name) = false := by
        simpa [htarget] using haliases
      simp only [Option.bind_eq_bind, Option.bind_some, hne, Bool.false_eq_true, if_false]

end Catalog

namespace Workshop

variable {workshop : Workshop} {name code : String} {options : Scan.Options} {before : Trace}

/-- Detection goes without the candidates that take no part. -/
theorem tryAll_filter (workshop : Workshop) (highlight : Highlight) (code : String)
    (goesIn : String → Bool) (names : List String)
    (hout : ∀ name ∈ names, goesIn name = false → workshop.catalog.takesPart name = false) :
    workshop.tryAll highlight code names =
      workshop.tryAll highlight code (names.filter goesIn) := by
  induction names with
  | nil => rfl
  | cons name names ih =>
    have ih := ih fun other hother => hout other (List.mem_cons_of_mem _ hother)
    cases hname : goesIn name with
    | true => rw [List.filter_cons_of_pos hname, tryAll, tryAll, ih]
    | false =>
      have hskip := hout name List.mem_cons_self hname
      rw [List.filter_cons_of_neg (Bool.eq_false_iff.mp hname), tryAll, hskip, ih]
      rfl

/-- A language without rules gives every text as it stands. -/
theorem highlight_of_idle {key : String} {language : Language}
    (hfind : workshop.catalog.find? name = some (key, language))
    (hmodes : language.lexer.modes = #[default]) :
    ∃ after, Returns (workshop.highlight name code options) before
      (.plain (some language.grammar.name) code workshop.settings.classPrefix) after := by
  have hdepth : workshop.depth code ≠ 0 := Nat.mul_ne_zero (Nat.succ_ne_zero _) (Nat.succ_ne_zero _)
  obtain ⟨depth, heq⟩ := Nat.exists_eq_succ_of_ne_zero hdepth
  obtain ⟨lexer, started, hstart⟩ : ∃ lexer started,
      Gives (start key language) before lexer started := ⟨_, _, rfl⟩
  cases start_eq hstart
  have hscan := @Scan.highlight_of_idle (workshop.env language code options)
    (workshop.services depth options) started hmodes
  rw [slice_env] at hscan
  refine ⟨started, ?_⟩
  rw [highlight, heq]
  simp only [highlightWithin, hfind]
  exact returns_bind_iff.mpr ⟨_, started, returns_lift_iff.mpr hstart, hscan⟩

end Workshop

namespace Registry

variable {registry registry' : Registry} {before after : Trace}

/-- The registry with the placeholder under a name. -/
def holdPlace (registry : Registry) (name : String) : Registry :=
  { registry with catalog := registry.catalog.insert name (placeholder name) }

/-- What is left of a registration under a name that has failed: a placeholder, which whatever
leads to the name comes to. -/
structure IsContained (name : String) (registry registry' : Registry) : Prop where
  aliases : registry'.catalog.aliases = registry.catalog.aliases
  settings : registry'.settings = registry.settings
  plugins : registry'.plugins = registry.plugins
  warned : registry'.warned = registry.warned
  names : registry'.names =
    if Text.lower name ∈ registry.names then registry.names
    else registry.names ++ [Text.lower name]
  others : ∀ other, registry.catalog.leads other (Text.lower name) = false →
    registry'.find? other = registry.find? other
  placeholder : ∀ other, registry.catalog.leads other (Text.lower name) = true →
    registry'.find? other = some (placeholder name)
  idle : ∀ other, registry.catalog.leads other (Text.lower name) = true →
    registry'.takesPart other = false
  /-- Detection goes by the other candidates only. -/
  undetected : ∀ highlight code candidates,
    registry'.workshop.tryAll highlight code candidates =
      registry'.workshop.tryAll highlight code
        (candidates.filter fun other => !registry.catalog.leads other (Text.lower name))
  plain : ∀ other, registry.catalog.leads other (Text.lower name) = true →
    ∀ code ignoreIllegals before, ∃ result after,
      Returns (registry'.highlight code other ignoreIllegals) before result after ∧
        result = .plain (some name) code registry'.settings.classPrefix ∧
        result.text = code ∧ result.relevance = 0

/-- Putting the placeholder under a name does nothing else. -/
theorem insert_isContained (hplugins : registry.plugins = []) (name : String) :
    IsContained name registry (registry.holdPlace name) := by
  have hfind : ∀ other, registry.catalog.leads other (Text.lower name) = true →
      (registry.holdPlace name).catalog.find? other =
        some (Text.lower name, Registry.placeholder name) :=
    fun other => Catalog.find?_insert_of_leads
  have hidle : ∀ other, registry.catalog.leads other (Text.lower name) = true →
      (registry.holdPlace name).takesPart other = false := by
    intro other hleads
    rw [takesPart, Catalog.takesPart, hfind other hleads]
    rfl
  refine ⟨rfl, rfl, rfl, rfl, Catalog.names_insert _ _ _, fun other hother => ?_,
    fun other hleads => ?_, hidle, fun highlight code candidates => ?_,
    fun other hleads code ignoreIllegals before => ?_⟩
  · exact congrArg (Option.map Prod.snd) (Catalog.find?_insert_of_not_leads hother)
  · rw [find?, hfind other hleads]
    rfl
  · refine Workshop.tryAll_filter _ highlight code _ candidates fun other _ hout => ?_
    exact hidle other (by simpa using hout)
  · have hknown : ((registry.holdPlace name).find? other).isNone = false := by
      rw [find?, hfind other hleads]
      rfl
    have hplugins' : (registry.holdPlace name).plugins = [] := hplugins
    have hfound : (registry.holdPlace name).workshop.catalog.find? other = _ := hfind other hleads
    rw [highlight_of_no_plugins hplugins', hknown]
    obtain ⟨after, hresult⟩ := Workshop.highlight_of_idle hfound rfl
    exact ⟨_, after, hresult, rfl, (Highlighted.plain_carries _ _ _).text_eq, rfl⟩

/-- Building a language fails with the fault that stands for its grammar, or because the grammar
cannot be compiled. -/
theorem buildLanguage_error {name : String} {grammar : Except Fault Grammar} {fault : Fault}
    (h : Gives (buildLanguage name grammar).run before (.error fault) after) :
    grammar = .error fault ∨ ∃ sort misuse, grammar = .ok sort ∧
      { sort with name := name }.compile = .error misuse ∧
      fault = .configuration name misuse := by
  rw [buildLanguage, ExceptT.run_bind] at h
  obtain ⟨outcome, _, hlift, hrest⟩ := gives_bind_iff.mp h
  cases grammar with
  | error failure =>
    obtain rfl : outcome = .error failure := (gives_pure_iff.mp hlift).1.symm
    cases (gives_pure_iff.mp hrest).1
    exact .inl rfl
  | ok sort =>
    obtain rfl : outcome = .ok sort := (gives_pure_iff.mp hlift).1.symm
    dsimp only at hrest
    split at hrest
    · next misuse hcompile =>
      cases (gives_pure_iff.mp hrest).1
      exact .inr ⟨sort, misuse, rfl, hcompile, rfl⟩
    · cases (Prod.mk.inj hrest).1

/-- A registration fails because the grammar cannot be had or compiled, and puts the placeholder
under the name. -/
theorem register_error {name : String} {grammar : Except Fault Grammar} {fault : Fault}
    (h : Gives (registry.register name grammar) before (.error fault, registry') after) :
    (grammar = .error fault ∨ ∃ sort misuse, grammar = .ok sort ∧
        { sort with name := name }.compile = .error misuse ∧
        fault = .configuration name misuse) ∧
      registry' = registry.holdPlace name := by
  obtain ⟨built, between, hbuilt, hrest⟩ := gives_bind_iff.mp h
  cases built with
  | ok language => cases (gives_pure_iff.mp hrest).1
  | error failure =>
    obtain ⟨_, _, _, hpure⟩ := gives_bind_iff.mp hrest
    cases (gives_pure_iff.mp hpure).1
    exact ⟨buildLanguage_error hbuilt, rfl⟩

/-- A failed registration is contained, whether the grammar could not be had or not be compiled, and
whatever led to the name before. A file without a grammar in it changes nothing; one whose grammar
cannot be compiled is as contained as any other. -/
theorem failure_is_contained (hplugins : registry.plugins = []) :
    (∀ name grammar fault registry' before after,
      Gives (registry.register name grammar) before (.error fault, registry') after →
        (grammar = .error fault ∨ ∃ sort misuse, grammar = .ok sort ∧
          { sort with name := name }.compile = .error misuse ∧
          fault = .configuration name misuse) ∧
        IsContained name registry registry') ∧
      ∀ path file fault registry' before after,
        Gives (registry.loadGrammar path file) before (.error fault, registry') after →
          (Grammar.ofFile path file = .error fault ∧ registry' = registry ∧ after = before) ∨
          ∃ grammar, Grammar.ofFile path file = .ok grammar ∧
            IsContained grammar.name registry registry' := by
  have hregister : ∀ {name grammar fault registry' before after},
      Gives (registry.register name grammar) before (.error fault, registry') after →
        IsContained name registry registry' := by
    intro name grammar fault registry' before after h
    rw [(register_error h).2]
    exact insert_isContained hplugins name
  refine ⟨fun name grammar fault registry' before after h => ⟨(register_error h).1, hregister h⟩,
    fun path file fault registry' before after h => ?_⟩
  simp only [loadGrammar] at h
  split at h
  · next failure hfile =>
    obtain ⟨heq, htrace⟩ := gives_pure_iff.mp h
    cases heq
    exact .inl ⟨hfile, rfl, htrace.symm⟩
  · next grammar hfile =>
    obtain ⟨⟨outcome, registered⟩, between, hregistered, hpure⟩ := gives_bind_iff.mp h
    obtain ⟨heq, -⟩ := gives_pure_iff.mp hpure
    obtain ⟨houtcome, rfl⟩ := Prod.mk.inj heq
    cases outcome with
    | ok _ => cases houtcome
    | error failure => exact .inr ⟨grammar, hfile, hregister hregistered⟩

/-- A registry that knows texts in quotes under two names, and an alias of a language that it does
not know. -/
def aliased : Registry :=
  let learned := ((Registry.empty.registerGrammar quoted).run {}).1.2
  (learned.addAliases ["T2"] "T").addAliases ["q"] "h"

theorem aliased_reached : aliased.Reached := by
  have hlearned : Reached ((Registry.empty.registerGrammar quoted).run {}).1.2 :=
    .registerGrammar .empty rfl
  exact (hlearned.addAliases _ _).addAliases _ _

/-- A computation that has been seen to fail has a fault. -/
theorem exists_gives_error {ε α β : Type} {x : Traced (Except ε α × β)}
    (h : (x.run before).1.1.isOk = false) :
    ∃ fault b after, Gives x before (.error fault, b) after := by
  obtain ⟨fault, hfault⟩ : ∃ fault, (x.run before).1.1 = .error fault := by
    cases houtcome : (x.run before).1.1 with
    | ok _ =>
      rw [houtcome] at h
      cases h
    | error fault => exact ⟨fault, rfl⟩
  exact ⟨fault, _, _, Prod.ext (Prod.ext hfault rfl) rfl⟩

/-- Refusing the grammar `unclosed` changes nothing for texts in quotes; the alias now leads to the
placeholder. -/
theorem failure_is_contained_aliased : ∃ fault registry' after,
    aliased.Reached ∧ aliased.plugins = [] ∧
      Gives (aliased.register "H" (.ok unclosed)) {} (.error fault, registry') after ∧
      registry'.names = ["t", "h"] ∧ (registry'.find? "t2").isSome = true ∧
      ∃ result ended, Returns (registry'.highlight "\"" "q" false) {} result ended ∧
        result.text = "\"" := by
  have hplugins : aliased.plugins = [] := aliased_reached.isReady.plugins
  have hnames : aliased.names = ["t"] := by decide +kernel
  have hother : aliased.catalog.leads "t2" (Text.lower "H") = false := by decide +kernel
  have hknown : (aliased.find? "t2").isSome = true := by decide +kernel
  have hleads : aliased.catalog.leads "q" (Text.lower "H") = true := by decide +kernel
  obtain ⟨fault, registry', after, hgives⟩ : ∃ fault registry' after,
      Gives (aliased.register "H" (.ok unclosed)) {} (.error fault, registry') after :=
    exists_gives_error (by decide +kernel)
  obtain ⟨-, hcontained⟩ := (failure_is_contained hplugins).1 _ _ _ _ _ _ hgives
  obtain ⟨result, ended, hresult, -, htext, -⟩ := hcontained.plain "q" hleads "\"" false {}
  refine ⟨fault, registry', after, aliased_reached, hplugins, hgives, ?_, ?_,
    result, ended, hresult, htext⟩
  · rw [hcontained.names, hnames]
    decide +kernel
  · rw [hcontained.others "t2" hother]
    exact hknown

end Registry

end Highlighter
