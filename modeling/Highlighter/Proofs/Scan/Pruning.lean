import Highlighter.Proofs.Lexer.Pruning
import Highlighter.Proofs.Scan.Thinning

/-!
# Ignored matches

A scan passes over a match that a hook ignores, but keeps it as the last match, and a mode that ends
without text where the last match began is taken for an empty one. Apart from that, an ignored match
leaves nothing behind: a text is highlighted with a grammar as it is with the grammar pruned of the
modes whose matches are all ignored.
-/

namespace Highlighter

/-- The rules of each mode of a lexer match among each other as they do alone, and where a match of
an idle one stands in a text, the mode does not end without text. -/
structure Lexer.Separable (lexer : Lexer) (text : Array Char) : Prop where
  alone : ∀ number < lexer.modeCount, ∀ rule ∈ (lexer.mode number).rules.rules,
    rule.StandsAlone lexer.ignoreCase
  joinable : ∀ number < lexer.modeCount, (lexer.mode number).rules.Joinable
  apart : ∀ number < lexer.modeCount,
    RuleSet.EndsApart lexer.ignoreCase (fun inner => (lexer.mode inner).IsIdle) text
      (lexer.mode number).rules.rules

namespace Scan

/-- The rules of a pruned lexer are those of the whole one, without some idle ones. -/
theorem Env.thins_of_pruned {grammar : Grammar} {env env' : Env}
    (hlexer : env.lexer.Alike (Lexer.PrunedTo grammar env.lexer env'.lexer) env'.lexer)
    (hcase : env.lexer.ignoreCase = grammar.caseInsensitive)
    (hlanguage : env.language = env'.language) (htext : env.text = env'.text)
    (hoptions : env.options = env'.options) (hsettings : env.settings = env'.settings)
    (hseparable : env.lexer.Separable env.text)
    (hjoinable : ∀ number < env'.lexer.modeCount, (env'.lexer.mode number).rules.Joinable) :
    env.Thins (Lexer.PrunedTo grammar env.lexer env'.lexer) env' := by
  refine ⟨⟨hlexer, hlanguage, htext, hsettings⟩, hoptions, fun number number' h => ?_⟩
  have ⟨_, _, _, _, hstands, hstands'⟩ := h
  have hmodes := h.modes
  obtain ⟨rules, hrules⟩ := hmodes.built
  obtain ⟨rules', hrules'⟩ := hmodes.built'
  have hthinned := hmodes.thinned
  have halone := hseparable.alone number hstands.done
  have hapart := hseparable.apart number hstands.done
  rw [(RuleSet.build_eq_ok hrules).1] at hthinned halone hapart
  rw [(RuleSet.build_eq_ok hrules').1] at hthinned
  rw [hcase] at halone hapart
  obtain ⟨place, hthins⟩ := hthinned.thins hrules hrules' halone
    (hseparable.joinable number hstands.done) (hjoinable number' hstands'.done) hapart
  exact ⟨_, _, place, hthins⟩

/-- Where no language is registered, the services agree with themselves. -/
theorem Nested.unknown_alike : Nested.unknown.Alike false (fun _ => Eq) Nested.unknown where
  isKnown _ := rfl
  fresh _ := rfl
  highlight _ _ _ _ _ := .of_throw _
  detect _ _ := agree_pure rfl

end Scan

namespace Grammar

open Scan (Env Nested)

/-- Modes whose begin matches are all ignored may as well not be there: with the grammar pruned of
them, every text is highlighted in the same way, or fails for the same reason, unless the scan that
comes to ignore their matches runs out of iterations. -/
theorem highlight_pruned {grammar pruned : Grammar} {meaning meaning' : String → RawMode}
    {C : String → List Frame → List Frame → Prop} {env env' : Env} {nested nested' : Nested}
    {before before' : Trace} (hfields : grammar.rootless = pruned.rootless)
    (hpruned : grammar.root.Pruned pruned.root) (hshares : grammar.root.Shares meaning)
    (hshares' : pruned.root.Shares meaning') (hlexer : grammar.compile = .ok env.lexer)
    (hlexer' : pruned.compile = .ok env'.lexer) (hlanguage : env.language = env'.language)
    (htext : env.text = env'.text) (hoptions : env.options = env'.options)
    (hsettings : env.settings = env'.settings) (hseparable : env.lexer.Separable env.text)
    (hjoinable : ∀ number < env'.lexer.modeCount, (env'.lexer.mode number).rules.Joinable)
    (hnested : nested.Alike false C nested')
    (hallowed : ¬ env.IsExhausted ((Scan.run env nested []).run before).1) :
    OutcomesAgree false Eq (fun result result' => result.bare = result'.bare)
      ((Scan.highlight env nested []).run.run before).1
      ((Scan.highlight env' nested' []).run.run before').1 := by
  obtain ⟨hcase, haliases, hroot⟩ := compile_stands hshares hlexer
  obtain ⟨hcase', haliases', hroot'⟩ := compile_stands hshares' hlexer'
  have hcases : grammar.caseInsensitive = pruned.caseInsensitive :=
    (congrArg Grammar.caseInsensitive hfields :)
  have hscopes : grammar.scopeAliases = pruned.scopeAliases :=
    (congrArg Grammar.scopeAliases hfields :)
  rw [← hfields] at hroot'
  have halike := Lexer.alike_of_pruned ⟨none, _, _, Outline.pruned_ofRoot hpruned, hroot, hroot'⟩
    (by rw [hcase, hcases, hcase']) (by rw [haliases, hscopes, haliases'])
  have hthins := Env.thins_of_pruned halike hcase hlanguage htext hoptions hsettings hseparable
    hjoinable
  have hagree := Scan.highlight_level hthins hnested .nil hallowed before'
  generalize ((Scan.highlight env nested []).run.run before).1 = outcome at hagree ⊢
  generalize ((Scan.highlight env' nested' []).run.run before').1 = outcome' at hagree ⊢
  cases hagree with
  | ok hresult => exact .ok hresult.bare
  | error herror => exact .error herror
  | excused hlenient => cases hlenient

/-- A hook that ignores every match. -/
def ignoring : Hook where
  call _ data := (.ignore, data)

/-- A mode that would begin at a letter, if its matches were not ignored. -/
def ignoredMode (letter : String) : RawMode := .of {
  wholePattern := some (.regex letter)
  onBegin := some ignoring }

theorem isIdle_ignoredMode (letter : String) : (ignoredMode letter).IsIdle where
  own _ := ⟨⟨ignoring, rfl, fun _ _ => rfl⟩, rfl⟩
  variants _ hmem := (List.not_mem_nil hmem).elim

/-- A grammar with one mode, which has the given modes inside. -/
def around (fields : ModeFields) (inside : List RawChild) : Grammar where
  name := "t"
  root := .of {} [.own (.of fields inside)]

/-- The grammar is pruned of an ignored mode. -/
theorem pruned_around (fields : ModeFields) (letter : String) :
    (around fields [.own (ignoredMode letter)]).root.Pruned (around fields []).root :=
  .mk (.kept (.mk (.dropped (isIdle_ignoredMode letter) .nil) .nil .nothing) .nil) .nil .nothing

/-- A scan of a text with a grammar. -/
def envOf (grammar : Grammar) (text : String) : Env where
  lexer := grammar.compile.toOption.getD default
  language := grammar.name
  text := text.toList.toArray
  options := ⟨false, true⟩
  settings := {}

theorem envOf_compiles {grammar : Grammar} (text : String) (h : grammar.compile.isOk = true) :
    grammar.compile = .ok (envOf grammar text).lexer :=
  eq_ok_of_isOk h default

/-- What a mode for texts in quotes says about itself. -/
def quotesFields : ModeFields where
  scope := some "string"
  beginPattern := some (.regex "\"")
  endPattern := some (.regex "\"")

/-- A scan of a letter in quotes, where the letter is ignored. -/
def quotedEnv : Env :=
  envOf (around quotesFields [.own (ignoredMode "a")]) "\"a\""

theorem separable_quotedEnv : quotedEnv.lexer.Separable quotedEnv.text := by
  obtain ⟨hcount, hcase, halone, hjoinable, hapart⟩ : quotedEnv.lexer.modeCount = 3 ∧
      quotedEnv.lexer.ignoreCase = false ∧
      (∀ number < 3, ∀ rule ∈ (quotedEnv.lexer.mode number).rules.rules, rule.StandsAlone false) ∧
      (∀ number < 3, ∀ first ≤ (quotedEnv.lexer.mode number).rules.rules.length - 1,
        ((quotedEnv.lexer.mode number).rules.joinedFrom first).isOk = true) ∧
      ∀ number < 3, RuleSet.beginsApart false quotedEnv.text
        (quotedEnv.lexer.mode number).rules.rules = true := by decide +kernel
  refine ⟨?_, ?_, ?_⟩ <;> rw [hcount]
  · rw [hcase]
    exact halone
  · exact fun number hnumber first hfirst =>
      exists_ok_of_isOk (hjoinable number hnumber first hfirst)
  · rw [hcase]
    exact fun number hnumber => .of_beginsApart (hapart number hnumber)

/-- A scan of the same text, where the letter is not looked for. -/
def plainEnv : Env :=
  envOf (around quotesFields []) "\"a\""

/-- A letter that is ignored in quotes might as well not be looked for there. -/
theorem highlight_pruned_quotes :
    (around quotesFields [.own (ignoredMode "a")]).compile = .ok quotedEnv.lexer ∧
    (around quotesFields []).compile = .ok plainEnv.lexer ∧
    quotedEnv.lexer.Separable quotedEnv.text ∧
    OutcomesAgree false Eq (fun result result' => result.bare = result'.bare)
      ((Scan.highlight quotedEnv .unknown []).run.run {}).1
      ((Scan.highlight plainEnv .unknown []).run.run {}).1 := by
  obtain ⟨hok, hok', hcount, hjoinable, hrun⟩ :
      (around quotesFields [.own (ignoredMode "a")]).compile.isOk = true ∧
      (around quotesFields []).compile.isOk = true ∧ plainEnv.lexer.modeCount = 2 ∧
      (∀ number < 2, ∀ first ≤ (plainEnv.lexer.mode number).rules.rules.length - 1,
        ((plainEnv.lexer.mode number).rules.joinedFrom first).isOk = true) ∧
      ((Scan.run quotedEnv .unknown []).run {}).1.isOk = true := by decide +kernel
  have hlexer : (around quotesFields [.own (ignoredMode "a")]).compile = .ok quotedEnv.lexer :=
    envOf_compiles _ hok
  have hlexer' : (around quotesFields []).compile = .ok plainEnv.lexer := envOf_compiles _ hok'
  have hshares : (around quotesFields [.own (ignoredMode "a")]).root.Shares fun _ => default := by
    simp [around, ignoredMode, RawMode.of, RawChild.own, RawMode.Shares, RawMode.SharesChildren,
      RawMode.SharesVariants, RawMode.SharesNext]
  have hshares' : (around quotesFields []).root.Shares fun _ => default := by
    simp [around, RawMode.of, RawChild.own, RawMode.Shares, RawMode.SharesChildren,
      RawMode.SharesVariants, RawMode.SharesNext]
  refine ⟨hlexer, hlexer', separable_quotedEnv, ?_⟩
  refine @highlight_pruned (around quotesFields [.own (ignoredMode "a")]) (around quotesFields [])
    (fun _ => default) (fun _ => default) (fun _ => Eq) quotedEnv plainEnv .unknown .unknown {} {}
    rfl (pruned_around quotesFields "a") hshares hshares' hlexer hlexer' rfl rfl rfl rfl
    separable_quotedEnv ?_ Scan.Nested.unknown_alike ?_
  · rw [hcount]
    exact fun number hnumber first hfirst =>
      exists_ok_of_isOk (hjoinable number hnumber first hfirst)
  · rintro ⟨active, hexhausted⟩
    rw [hexhausted] at hrun
    cases hrun

/-- What a mode for a single letter says about itself. -/
def letterFields : ModeFields where
  scope := some "m"
  wholePattern := some (.regex "a")

/-- The letter `b` is ignored where the mode for the letter `a` ends without text. The scan takes
that mode for an empty one and stays in it; without the ignored mode, the mode ends before the
`b`. -/
theorem highlight_pruned_letter :
    let grammar := around letterFields [.own (ignoredMode "b")]
    let pruned := around letterFields []
    grammar.root.Pruned pruned.root ∧
    grammar.compile = .ok (envOf grammar "ab").lexer ∧
    pruned.compile = .ok (envOf pruned "ab").lexer ∧
    ∃ result result' after after',
      Returns (Scan.highlight (envOf grammar "ab") .unknown []) {} result after ∧
      Returns (Scan.highlight (envOf pruned "ab") .unknown []) {} result' after' ∧
      result.value = "<span class=\"hljs-m\">ab</span>" ∧
      result'.value = "<span class=\"hljs-m\">a</span>b" := by
  intro grammar pruned
  obtain ⟨hok, hok', hvalue, hvalue'⟩ : grammar.compile.isOk = true ∧ pruned.compile.isOk = true ∧
      ((Scan.highlight (envOf grammar "ab") .unknown []).run.run {}).1.toOption.map (·.value) =
        some "<span class=\"hljs-m\">ab</span>" ∧
      ((Scan.highlight (envOf pruned "ab") .unknown []).run.run {}).1.toOption.map (·.value) =
        some "<span class=\"hljs-m\">a</span>b" := by decide +kernel
  obtain ⟨result, hresult, hvalue⟩ := Option.map_eq_some_iff.mp hvalue
  obtain ⟨result', hresult', hvalue'⟩ := Option.map_eq_some_iff.mp hvalue'
  obtain ⟨after, hreturns⟩ := exists_gives_of_toOption hresult
  obtain ⟨after', hreturns'⟩ := exists_gives_of_toOption hresult'
  exact ⟨pruned_around letterFields "b", envOf_compiles _ hok, envOf_compiles _ hok', result,
    result', after, after', hreturns, hreturns', hvalue, hvalue'⟩

end Grammar

end Highlighter
