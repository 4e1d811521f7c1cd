import Highlighter.Languages
import Highlighter.Proofs.Registry.Sharing
import Highlighter.Stored

/-!
# The registries a program can reach

A program starts with an empty registry or with the languages that come with the library, and
registers, loads and removes languages from there, whether this succeeds or fails. Whatever it does,
every language of its registry has a grammar that can be compiled, and comes with the lexer of this
grammar: a grammar that cannot be compiled is never stored, and the placeholder in its place can.
-/

namespace Highlighter

namespace Catalog

/-- Every language of a catalogue comes with the lexer of its grammar. -/
def IsCompiled (catalog : Catalog) : Prop :=
  ∀ entry ∈ catalog.languages, entry.2.grammar.compile = .ok entry.2.lexer

variable {catalog : Catalog}

theorem mem_put {β : Type} {key : String} {value : β} {entries : List (String × β)}
    {entry : String × β} (h : entry ∈ put key value entries) :
    entry = (key, value) ∨ entry ∈ entries := by
  induction entries with
  | nil => exact .inl (List.mem_singleton.mp h)
  | cons other entries ih =>
    simp only [put] at h
    split at h
    · exact (List.mem_cons.mp h).imp_right (List.mem_cons_of_mem _)
    · rcases List.mem_cons.mp h with rfl | h
      · exact .inr List.mem_cons_self
      · exact (ih h).imp_right (List.mem_cons_of_mem _)

theorem IsCompiled.insert (h : catalog.IsCompiled) (name : String) {language : Language}
    (hlanguage : language.grammar.compile = .ok language.lexer) :
    (catalog.insert name language).IsCompiled := by
  intro entry hentry
  rcases mem_put hentry with rfl | hentry
  · exact hlanguage
  · exact h entry hentry

theorem IsCompiled.addAliases (h : catalog.IsCompiled) (names : List String) (language : String) :
    (catalog.addAliases names language).IsCompiled := by
  intro entry hentry
  rw [languages_addAliases] at hentry
  exact h entry hentry

theorem IsCompiled.erase (h : catalog.IsCompiled) (name : String) :
    (catalog.erase name).IsCompiled :=
  fun entry hentry => h entry (List.mem_filter.mp hentry).1

/-- Marking languages as started changes neither their grammars nor their lexers. -/
theorem IsCompiled.start (h : catalog.IsCompiled) (keys : List String) :
    (catalog.start keys).IsCompiled := by
  intro entry hentry
  obtain ⟨old, hold, rfl⟩ := List.mem_map.mp hentry
  dsimp only
  split <;> exact h old hold

end Catalog

namespace Registry

variable {registry registry' : Registry} {before after : Trace}

/-- The placeholder comes with the lexer of its grammar. -/
theorem compile_placeholder (name : String) :
    (placeholder name).grammar.compile = .ok (placeholder name).lexer :=
  rfl

theorem buildLanguage_compile {name : String} {grammar : Except Fault Grammar}
    {language : Language} (h : Returns (buildLanguage name grammar) before language after) :
    language.grammar.compile = .ok language.lexer := by
  obtain ⟨grammar, _, _, h⟩ := returns_bind_iff.mp h
  dsimp only at h
  split at h
  · exact absurd h not_returns_throw
  · next lexer hcompile =>
    obtain ⟨_, _, _, hpure⟩ := returns_bind_iff.mp h
    cases (returns_pure_iff.mp hpure).1
    exact hcompile

/-- A registry without plugins, all of whose languages come with the lexers of their grammars. -/
structure IsReady (registry : Registry) : Prop where
  compiled : registry.catalog.IsCompiled
  plugins : registry.plugins = []

theorem IsReady.register (h : registry.IsReady) {name : String} {grammar : Except Fault Grammar}
    {outcome : Except Fault Unit}
    (hregister : Gives (registry.register name grammar) before (outcome, registry') after) :
    registry'.IsReady := by
  obtain ⟨built, _, hbuilt, hrest⟩ := gives_bind_iff.mp hregister
  cases built with
  | ok language =>
    cases (gives_pure_iff.mp hrest).1
    exact ⟨(h.compiled.insert name (buildLanguage_compile hbuilt)).addAliases _ _, h.plugins⟩
  | error fault =>
    obtain ⟨_, _, _, hpure⟩ := gives_bind_iff.mp hrest
    cases (gives_pure_iff.mp hpure).1
    exact ⟨h.compiled.insert name (compile_placeholder name), h.plugins⟩

theorem IsReady.registerAll (h : registry.IsReady) {grammars : List Grammar}
    (hregister : Gives (registry.registerAll grammars) before registry' after) :
    registry'.IsReady := by
  induction grammars generalizing registry before with
  | nil =>
    cases (gives_pure_iff.mp hregister).1
    exact h
  | cons grammar grammars ih =>
    obtain ⟨⟨outcome, between⟩, _, hfirst, hrest⟩ := gives_bind_iff.mp hregister
    have hbetween := h.register hfirst
    cases outcome with
    | ok _ => exact ih hbetween hrest
    | error fault =>
      obtain ⟨_, _, _, hrest⟩ := gives_bind_iff.mp hrest
      exact ih hbetween hrest

theorem IsReady.loadGrammar (h : registry.IsReady) {path : String}
    {file : Except FileError String} {outcome : Except Fault String}
    (hload : Gives (registry.loadGrammar path file) before (outcome, registry') after) :
    registry'.IsReady := by
  simp only [Registry.loadGrammar] at hload
  split at hload
  · cases (gives_pure_iff.mp hload).1
    exact h
  · obtain ⟨⟨registered, between⟩, _, hregister, hpure⟩ := gives_bind_iff.mp hload
    cases (gives_pure_iff.mp hpure).1
    exact h.register hregister

/-- The registries that a program can reach, starting from nothing or from the languages that come
with the library. -/
inductive Reached : Registry → Prop where
  | empty : Reached empty
  | builtIn {registry : Registry} {trace : Trace} : Registry.builtIn = (registry, trace) →
      Reached registry
  /-- Registering a grammar, or one that cannot be had, whether this succeeds or fails. -/
  | register {registry registry' : Registry} {name : String} {grammar : Except Fault Grammar}
      {before after : Trace} {outcome : Except Fault Unit} :
      Reached registry →
      Gives (registry.register name grammar) before (outcome, registry') after → Reached registry'
  | registerGrammar {registry registry' : Registry} {grammar : Grammar} {before after : Trace}
      {outcome : Except Fault Unit} :
      Reached registry →
      Gives (registry.registerGrammar grammar) before (outcome, registry') after →
      Reached registry'
  | loadGrammar {registry registry' : Registry} {path : String} {file : Except FileError String}
      {before after : Trace} {outcome : Except Fault String} :
      Reached registry →
      Gives (registry.loadGrammar path file) before (outcome, registry') after →
      Reached registry'
  | unregister {registry : Registry} (name : String) :
      Reached registry → Reached (registry.unregister name)
  | addAliases {registry : Registry} (names : List String) (language : String) :
      Reached registry → Reached (registry.addAliases names language)
  | configure {registry : Registry} (settings : Settings) :
      Reached registry → Reached (registry.configure settings)
  /-- Keeping what a computation has learned of warnings and of languages that it has started. -/
  | run {α : Type} {registry : Registry} (computation : Traced α) :
      Reached registry → Reached (registry.run computation).2.1

/-- Every language of a registry that a program can reach comes with the lexer of its grammar. -/
theorem Reached.isReady (h : registry.Reached) : registry.IsReady := by
  have hempty : Registry.empty.IsReady := by
    refine ⟨?_, rfl⟩
    intro entry hentry
    cases hentry
  induction h with
  | empty => exact hempty
  | builtIn hbuilt => exact hempty.registerAll hbuilt
  | register _ hregister ih => exact ih.register hregister
  | registerGrammar _ hregister ih => exact ih.register hregister
  | loadGrammar _ hload ih => exact ih.loadGrammar hload
  | unregister name _ ih => exact ⟨ih.compiled.erase name, ih.plugins⟩
  | addAliases names language _ ih => exact ⟨ih.compiled.addAliases names language, ih.plugins⟩
  | configure settings _ ih => exact ⟨ih.compiled, ih.plugins⟩
  | run computation _ ih => exact ⟨ih.compiled.start _, ih.plugins⟩

end Registry

end Highlighter
