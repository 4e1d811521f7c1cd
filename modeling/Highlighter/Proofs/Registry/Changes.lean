import Highlighter.Proofs.Registry.History

/-!
# What a registry remembers of its changes

The languages, their order and the names that lead to them are told by the changes that a registry
has seen: a key is listed from when it has been registered until it is unregistered, in the order in
which these registrations have come, and a name leads to a language because it has been let to,
after the key of the language has last been unregistered. Changes are listed the latest first, as
the lines of a trace are, and the number of a change is how many have come before it.
-/

namespace Highlighter

namespace Catalog

variable {catalog : Catalog} {name key : String} {language : Language}

/-! ## Names -/

theorem mem_names_iff : key ∈ catalog.names ↔ (catalog.languages.lookup key).isSome = true := by
  rw [List.lookup_isSome_iff, names, List.mem_map]
  simp only [beq_iff_eq, @eq_comm _ key]

theorem map_fst_put {β : Type} (key : String) (value : β) (entries : List (String × β)) :
    (put key value entries).map (·.1) =
      if key ∈ entries.map (·.1) then entries.map (·.1) else entries.map (·.1) ++ [key] := by
  induction entries with
  | nil => rfl
  | cons entry entries ih =>
    obtain ⟨other, old⟩ := entry
    simp only [put, List.map_cons, List.mem_cons]
    by_cases h : key = other
    · subst h
      simp
    · have hother : (other == key) = false := beq_eq_false_iff_ne.mpr (Ne.symm h)
      simp only [hother, Bool.false_eq_true, if_false, List.map_cons, ih, h, false_or]
      split
      · rfl
      · rfl

/-- A new name is added at the end, and a name that is there stays in its place. -/
theorem names_insert (catalog : Catalog) (name : String) (language : Language) :
    (catalog.insert name language).names =
      if Text.lower name ∈ catalog.names then catalog.names
      else catalog.names ++ [Text.lower name] :=
  map_fst_put _ _ _

theorem mem_names_insert :
    key ∈ (catalog.insert name language).names ↔ key ∈ catalog.names ∨ key = Text.lower name := by
  rw [names_insert]
  split
  · next hmem =>
    refine ⟨.inl, fun h => h.elim id fun hkey => ?_⟩
    rwa [hkey]
  · rw [List.mem_append, List.mem_singleton]

theorem names_addAliases (catalog : Catalog) (names : List String) (language : String) :
    (catalog.addAliases names language).names = catalog.names := by
  rw [Catalog.names, languages_addAliases, Catalog.names]

theorem names_erase (catalog : Catalog) (name : String) :
    (catalog.erase name).names = catalog.names.filter (· != Text.lower name) := by
  simp only [erase, names, List.filter_map, Function.comp_def]

theorem names_start (catalog : Catalog) (keys : List String) :
    (catalog.start keys).names = catalog.names := by
  simp only [start, names, List.map_map, Function.comp_def]

/-! ## Names that lead to languages -/

/-- A name leads to the language that has it, or else to the one that it has been let to lead to. -/
theorem find?_eq_some_iff :
    catalog.find? name = some (key, language) ↔
      catalog.languages.lookup key = some language ∧
        (Text.lower name = key ∨
          catalog.languages.lookup (Text.lower name) = none ∧
            catalog.aliases.lookup (Text.lower name) = some key) := by
  simp only [find?]
  cases hname : catalog.languages.lookup (Text.lower name) with
  | some found =>
    constructor
    · intro h
      cases h
      exact ⟨hname, .inl rfl⟩
    · rintro ⟨hkey, rfl | ⟨hnone, -⟩⟩
      · rw [hname] at hkey
        cases hkey
        rfl
      · cases hnone
  | none =>
    simp only [Option.bind_eq_bind, Option.bind_eq_some_iff]
    constructor
    · rintro ⟨target, htarget, found, hfound, hpure⟩
      cases hpure
      exact ⟨hfound, .inr ⟨trivial, htarget⟩⟩
    · rintro ⟨hkey, rfl | ⟨-, htarget⟩⟩
      · rw [hname] at hkey
        cases hkey
      · exact ⟨key, htarget, language, hkey, rfl⟩

theorem mem_addAliases {names : List String} {language : String} {entry : String × String}
    (h : entry ∈ (catalog.addAliases names language).aliases) :
    (Text.lower language = entry.2 ∧ ∃ name ∈ names, Text.lower name = entry.1) ∨
      entry ∈ catalog.aliases := by
  induction names generalizing catalog with
  | nil => exact .inr h
  | cons name names ih =>
    rcases ih h with ⟨hlanguage, other, hother, hentry⟩ | hmem
    · exact .inl ⟨hlanguage, other, List.mem_cons_of_mem _ hother, hentry⟩
    · rcases mem_put hmem with rfl | hmem
      · exact .inl ⟨rfl, name, List.mem_cons_self, rfl⟩
      · exact .inr hmem

end Catalog

namespace Registry

/-- A change of the languages of a registry. -/
inductive Change where
  | register (name : String) (grammar : Except Fault Grammar)
  | registerGrammar (grammar : Grammar)
  | loadGrammar (path : String) (file : Except FileError String)
  | unregister (name : String)
  | addAliases (names : List String) (language : String)

namespace Change

/-- Makes a change. -/
def apply (registry : Registry) : Change → Traced Registry
  | .register name grammar => do
    let (_, registry) ← registry.register name grammar
    return registry
  | .registerGrammar grammar => do
    let (_, registry) ← registry.registerGrammar grammar
    return registry
  | .loadGrammar path file => do
    let (_, registry) ← registry.loadGrammar path file
    return registry
  | .unregister name => return registry.unregister name
  | .addAliases names language => return registry.addAliases names language

/-- The name that a change registers a grammar under, whether the grammar can be had or not. A file
without a grammar in it registers nothing. -/
def registration? : Change → Option (String × Except Fault Grammar)
  | .register name grammar => some (name, grammar)
  | .registerGrammar grammar => some (grammar.name, .ok grammar)
  | .loadGrammar path file =>
    (Grammar.ofFile path file).toOption.map fun grammar => (grammar.name, .ok grammar)
  | .unregister _ => none
  | .addAliases _ _ => none

/-- The aliases that registering a grammar brings: none where it cannot be compiled. -/
def aliases (name : String) (grammar : Except Fault Grammar) : List String :=
  match grammar with
  | .ok grammar => if ({ grammar with name := name }).compile.isOk then grammar.aliases else []
  | .error _ => []

/-- Whether a change registers a grammar under a key. -/
def registers (change : Change) (key : String) : Bool :=
  change.registration?.any fun (name, _) => Text.lower name == key

/-- Whether a change removes the language under a key. -/
def unregisters (key : String) : Change → Bool
  | .unregister name => Text.lower name == key
  | _ => false

/-- Whether a change lets a name in lower case lead to a key. -/
def leads (name key : String) : Change → Bool
  | .addAliases names language => (names.map Text.lower).contains name && Text.lower language == key
  | change => change.registration?.any fun (language, grammar) =>
    ((aliases language grammar).map Text.lower).contains name && Text.lower language == key

end Change

/-- The number of the change that has introduced a key: the first one that registers it after it has
last been unregistered. -/
def introduced? (key : String) : List Change → Option Nat
  | [] => none
  | change :: earlier =>
    if change.unregisters key then none
    else (introduced? key earlier).or (if change.registers key then some earlier.length else none)

/-- A name has been let to lead to a key since this has last been unregistered. -/
def IsLed (name key : String) : List Change → Prop
  | [] => False
  | change :: earlier =>
    change.unregisters key = false ∧ (change.leads name key = true ∨ IsLed name key earlier)

/-- The registries after changes, which may be made with anything else in between. -/
inductive After : List Change → Registry → Prop where
  | empty : After [] empty
  | change {changes : List Change} {registry registry' : Registry} {change : Change}
      {before after : Trace} :
      After changes registry → Gives (change.apply registry) before registry' after →
      After (change :: changes) registry'
  | configure {changes : List Change} {registry : Registry} (settings : Settings) :
      After changes registry → After changes (registry.configure settings)
  | addPlugin {changes : List Change} {registry : Registry} (plugin : Plugin) :
      After changes registry → After changes (registry.addPlugin plugin)
  | run {α : Type} {changes : List Change} {registry : Registry} (computation : Traced α) :
      After changes registry → After changes (registry.run computation).2.1

/-- A catalogue tells the changes that it has seen. -/
structure Tells (changes : List Change) (catalog : Catalog) : Prop where
  introduced : ∀ key, key ∈ catalog.names ↔ (introduced? key changes).isSome = true
  ordered : catalog.names.Pairwise fun key key' => ∃ number number',
    introduced? key changes = some number ∧ introduced? key' changes = some number' ∧
      number < number'
  named : ∀ entry ∈ catalog.languages, Text.lower entry.2.grammar.name = entry.1
  compiled : catalog.IsCompiled
  led : ∀ entry ∈ catalog.aliases, IsLed entry.1 entry.2 changes

/-! ## One change -/

variable {registry registry' : Registry} {before after : Trace} {changes : List Change}
  {change : Change}

/-- Building a language succeeds where the grammar can be had and compiled, and there the language
brings the aliases of the grammar. -/
theorem buildLanguage_gives {name : String} {grammar : Except Fault Grammar}
    {built : Except Fault Language}
    (h : Gives (buildLanguage name grammar).run before built after) :
    (∃ language, built = .ok language ∧ language.grammar.name = name ∧
      language.grammar.compile = .ok language.lexer ∧
      language.grammar.aliases = Change.aliases name grammar) ∨
    ∃ fault, built = .error fault ∧ Change.aliases name grammar = [] := by
  rw [buildLanguage, ExceptT.run_bind] at h
  obtain ⟨outcome, _, hlift, hrest⟩ := gives_bind_iff.mp h
  cases grammar with
  | error fault =>
    obtain rfl : outcome = .error fault := (gives_pure_iff.mp hlift).1.symm
    exact .inr ⟨fault, (gives_pure_iff.mp hrest).1.symm, rfl⟩
  | ok grammar =>
    obtain rfl : outcome = .ok grammar := (gives_pure_iff.mp hlift).1.symm
    simp only [Change.aliases]
    dsimp only at hrest
    split at hrest
    · next misuse hcompile =>
      rw [hcompile]
      exact .inr ⟨_, (gives_pure_iff.mp hrest).1.symm, rfl⟩
    · next lexer hcompile =>
      rw [hcompile]
      rw [ExceptT.run_bind] at hrest
      obtain ⟨reported, _, hreport, hpure⟩ := gives_bind_iff.mp hrest
      obtain rfl : reported = .ok () := by
        cases reported with
        | ok _ => rfl
        | error _ => cases (Prod.mk.inj hreport).1
      exact .inl ⟨_, (gives_pure_iff.mp hpure).1.symm, rfl, hcompile, rfl⟩

/-- Registering puts a compiled language under the name, with the aliases that it brings. -/
theorem register_catalog {name : String} {grammar : Except Fault Grammar}
    {outcome : Except Fault Unit}
    (h : Gives (registry.register name grammar) before (outcome, registry') after) :
    ∃ language : Language, language.grammar.name = name ∧
      language.grammar.compile = .ok language.lexer ∧
      registry'.catalog =
        (registry.catalog.insert name language).addAliases (Change.aliases name grammar) name := by
  obtain ⟨built, _, hbuilt, hrest⟩ := gives_bind_iff.mp h
  obtain ⟨language, rfl, hname, hcompile, haliases⟩ | ⟨fault, rfl, haliases⟩ :=
    buildLanguage_gives hbuilt
  · cases (gives_pure_iff.mp hrest).1
    exact ⟨language, hname, hcompile, by rw [haliases]⟩
  · obtain ⟨_, _, _, hpure⟩ := gives_bind_iff.mp hrest
    cases (gives_pure_iff.mp hpure).1
    exact ⟨placeholder name, rfl, compile_placeholder name, by rw [haliases]; rfl⟩

/-! ## The parts of a change -/

theorem unregisters_of_registration {name : String} {grammar : Except Fault Grammar}
    (h : change.registration? = some (name, grammar)) (key : String) :
    change.unregisters key = false := by
  cases change with
  | unregister name => cases h
  | _ => rfl

theorem leads_of_registration {name : String} {grammar : Except Fault Grammar}
    (h : change.registration? = some (name, grammar)) (other key : String) :
    change.leads other key =
      (((Change.aliases name grammar).map Text.lower).contains other &&
        Text.lower name == key) := by
  cases change with
  | unregister name => cases h
  | addAliases names language => cases h
  | _ => simp only [Change.leads, h, Option.any_some]

theorem registers_of_registration {name : String} {grammar : Except Fault Grammar}
    (h : change.registration? = some (name, grammar)) (key : String) :
    change.registers key = (Text.lower name == key) := by
  rw [Change.registers, h, Option.any_some]

/-- What a change does to the languages: it registers one, it removes one, it lets names lead to
one, or it does nothing. -/
theorem apply_cases (h : Gives (change.apply registry) before registry' after) :
    (∃ name grammar, change.registration? = some (name, grammar) ∧
      ∃ language : Language, language.grammar.name = name ∧
        language.grammar.compile = .ok language.lexer ∧
        registry'.catalog =
          (registry.catalog.insert name language).addAliases (Change.aliases name grammar) name) ∨
    (∃ name, change = .unregister name ∧ registry'.catalog = registry.catalog.erase name) ∨
    (∃ names language, change = .addAliases names language ∧
      registry'.catalog = registry.catalog.addAliases names language) ∨
    (change.registration? = none ∧ (∀ key, change.unregisters key = false) ∧
      registry'.catalog = registry.catalog) := by
  cases change with
  | register name grammar =>
    obtain ⟨⟨outcome, registered⟩, _, hregister, hpure⟩ := gives_bind_iff.mp h
    cases (gives_pure_iff.mp hpure).1
    exact .inl ⟨name, grammar, rfl, register_catalog hregister⟩
  | registerGrammar grammar =>
    obtain ⟨⟨outcome, registered⟩, _, hregister, hpure⟩ := gives_bind_iff.mp h
    cases (gives_pure_iff.mp hpure).1
    exact .inl ⟨grammar.name, .ok grammar, rfl, register_catalog hregister⟩
  | loadGrammar path file =>
    obtain ⟨⟨outcome, loaded⟩, _, hload, hpure⟩ := gives_bind_iff.mp h
    cases (gives_pure_iff.mp hpure).1
    simp only [Registry.loadGrammar] at hload
    split at hload
    · next fault hfile =>
      cases (gives_pure_iff.mp hload).1
      refine .inr (.inr (.inr ⟨?_, fun _ => rfl, rfl⟩))
      rw [Change.registration?, hfile]
      rfl
    · next grammar hfile =>
      obtain ⟨⟨outcome, registered⟩, _, hregister, hpure⟩ := gives_bind_iff.mp hload
      cases (gives_pure_iff.mp hpure).1
      refine .inl ⟨grammar.name, .ok grammar, ?_, register_catalog hregister⟩
      rw [Change.registration?, hfile]
      rfl
  | unregister name =>
    cases (gives_pure_iff.mp h).1
    exact .inr (.inl ⟨name, rfl, rfl⟩)
  | addAliases names language =>
    cases (gives_pure_iff.mp h).1
    exact .inr (.inr (.inl ⟨names, language, rfl, rfl⟩))

/-! ## What the names tell -/

theorem introduced?_lt {key : String} {number : Nat} (h : introduced? key changes = some number) :
    number < changes.length := by
  induction changes with
  | nil => cases h
  | cons change earlier ih =>
    simp only [introduced?] at h
    split at h
    · cases h
    · cases hearlier : introduced? key earlier with
      | some found =>
        rw [hearlier] at h
        cases h
        exact (ih hearlier).trans (Nat.lt_succ_self _)
      | none =>
        rw [hearlier] at h
        split at h
        · cases h
          exact Nat.lt_succ_self _
        · cases h

variable {catalog : Catalog}

theorem tells_empty : Tells [] {} where
  introduced key := by simp [introduced?, Catalog.names]
  ordered := .nil
  named := List.forall_mem_nil _
  compiled := List.forall_mem_nil _
  led := List.forall_mem_nil _

namespace Tells

/-- A language that is registered is listed last, unless it is listed before. -/
theorem learn (h : Tells changes catalog) {name : String} {grammar : Except Fault Grammar}
    {language : Language} (hregistration : change.registration? = some (name, grammar))
    (hname : language.grammar.name = name)
    (hcompile : language.grammar.compile = .ok language.lexer) :
    Tells (change :: changes)
      ((catalog.insert name language).addAliases (Change.aliases name grammar) name) := by
  have hunregisters := unregisters_of_registration hregistration
  have hintroduced : ∀ key, introduced? key (change :: changes) =
      (introduced? key changes).or
        (if Text.lower name == key then some changes.length else none) := by
    intro key
    simp only [introduced?, hunregisters, registers_of_registration hregistration,
      Bool.false_eq_true, if_false]
  have hkept : ∀ {key number}, introduced? key changes = some number →
      introduced? key (change :: changes) = some number := by
    intro key number hnumber
    rw [hintroduced, hnumber]
    rfl
  have hkeep : catalog.names.Pairwise fun key key' => ∃ number number',
      introduced? key (change :: changes) = some number ∧
        introduced? key' (change :: changes) = some number' ∧ number < number' := by
    refine h.ordered.imp ?_
    rintro key key' ⟨number, number', hnumber, hnumber', hlt⟩
    exact ⟨number, number', hkept hnumber, hkept hnumber', hlt⟩
  constructor
  · intro key
    rw [Catalog.names_addAliases, Catalog.mem_names_insert, h.introduced, hintroduced]
    cases introduced? key changes with
    | some number => simp
    | none => simp [@eq_comm _ key]
  · rw [Catalog.names_addAliases, Catalog.names_insert]
    split
    · exact hkeep
    · next hnew =>
      refine List.pairwise_append.mpr ⟨hkeep, List.pairwise_singleton _ _, ?_⟩
      intro key hkey other hother
      obtain rfl := List.mem_singleton.mp hother
      obtain ⟨number, hnumber⟩ := Option.isSome_iff_exists.mp ((h.introduced key).mp hkey)
      have hnone : introduced? (Text.lower name) changes = none := by
        rwa [h.introduced, Option.not_isSome_iff_eq_none] at hnew
      refine ⟨number, changes.length, hkept hnumber, ?_, introduced?_lt hnumber⟩
      rw [hintroduced, hnone, beq_self_eq_true]
      rfl
  · intro entry hentry
    rw [Catalog.languages_addAliases] at hentry
    rcases Catalog.mem_put hentry with rfl | hentry
    · exact congrArg Text.lower hname
    · exact h.named entry hentry
  · exact (h.compiled.insert name hcompile).addAliases _ _
  · intro entry hentry
    refine ⟨hunregisters entry.2, ?_⟩
    rcases Catalog.mem_addAliases hentry with ⟨hkey, other, hother, hlower⟩ | hold
    · left
      rw [leads_of_registration hregistration, Bool.and_eq_true, List.contains_iff_mem, beq_iff_eq]
      exact ⟨List.mem_map.mpr ⟨other, hother, hlower⟩, hkey⟩
    · exact .inr (h.led entry hold)

/-- A language that is removed is listed no more, and nothing leads to it any more. -/
theorem forget (h : Tells changes catalog) (name : String) :
    Tells (.unregister name :: changes) (catalog.erase name) := by
  have hkept : ∀ {key}, key ≠ Text.lower name →
      introduced? key (.unregister name :: changes) = introduced? key changes := by
    intro key hne
    simp [introduced?, Change.unregisters, Change.registers, Change.registration?, hne.symm]
  have hgone : introduced? (Text.lower name) (.unregister name :: changes) = none := by
    simp [introduced?, Change.unregisters]
  constructor
  · intro key
    rw [Catalog.names_erase, List.mem_filter, bne_iff_ne, h.introduced]
    by_cases hkey : key = Text.lower name
    · rw [hkey, hgone]
      simp
    · rw [hkept hkey]
      exact and_iff_left hkey
  · rw [Catalog.names_erase, List.pairwise_filter]
    refine h.ordered.imp ?_
    rintro key key' ⟨number, number', hnumber, hnumber', hlt⟩ hkey hkey'
    rw [hkept (bne_iff_ne.mp hkey), hkept (bne_iff_ne.mp hkey')]
    exact ⟨number, number', hnumber, hnumber', hlt⟩
  · intro entry hentry
    exact h.named entry (List.mem_filter.mp hentry).1
  · exact h.compiled.erase name
  · intro entry hentry
    obtain ⟨hold, hne⟩ := List.mem_filter.mp hentry
    exact ⟨beq_eq_false_iff_ne.mpr (bne_iff_ne.mp hne).symm, .inr (h.led entry hold)⟩

/-- A change that neither registers nor removes a language leaves the list as it is. -/
theorem lead (h : Tells changes catalog) (hregistration : change.registration? = none)
    (hunregisters : ∀ key, change.unregisters key = false) {names : List String} {language : String}
    (hleads : ∀ name ∈ names, change.leads (Text.lower name) (Text.lower language) = true) :
    Tells (change :: changes) (catalog.addAliases names language) := by
  have hintroduced : ∀ key, introduced? key (change :: changes) = introduced? key changes := by
    intro key
    simp [introduced?, hunregisters, Change.registers, hregistration]
  constructor
  · intro key
    rw [Catalog.names_addAliases, h.introduced, hintroduced]
  · simp only [hintroduced, Catalog.names_addAliases]
    exact h.ordered
  · intro entry hentry
    rw [Catalog.languages_addAliases] at hentry
    exact h.named entry hentry
  · exact h.compiled.addAliases names language
  · intro entry hentry
    refine ⟨hunregisters entry.2, ?_⟩
    rcases Catalog.mem_addAliases hentry with ⟨hkey, name, hname, hlower⟩ | hold
    · left
      rw [← hkey, ← hlower]
      exact hleads name hname
    · exact .inr (h.led entry hold)

/-- What a registry learns from a computation does not change what it tells. -/
theorem start (h : Tells changes catalog) (keys : List String) :
    Tells changes (catalog.start keys) where
  introduced key := by rw [Catalog.names_start, h.introduced]
  ordered := by
    rw [Catalog.names_start]
    exact h.ordered
  named entry hentry := by
    obtain ⟨old, hold, rfl⟩ := List.mem_map.mp hentry
    dsimp only
    split <;> exact h.named old hold
  compiled := h.compiled.start keys
  led := h.led

end Tells

/-- Whatever changes a registry has seen, it tells them. -/
theorem After.tells (h : After changes registry) : Tells changes registry.catalog := by
  induction h with
  | empty => exact tells_empty
  | change _ happly ih =>
    rcases apply_cases happly with ⟨name, grammar, hregistration, language, hname, hcompile, heq⟩ |
      ⟨name, rfl, heq⟩ | ⟨names, language, rfl, heq⟩ | ⟨hregistration, hunregisters, heq⟩
    · rw [heq]
      exact ih.learn hregistration hname hcompile
    · rw [heq]
      exact ih.forget name
    · rw [heq]
      refine ih.lead rfl (fun _ => rfl) fun name hname => ?_
      rw [Change.leads, Bool.and_eq_true, List.contains_iff_mem, beq_iff_eq]
      exact ⟨List.mem_map_of_mem hname, rfl⟩
    · rw [heq]
      exact @Tells.lead _ _ _ ih hregistration hunregisters [] "" (List.forall_mem_nil _)
  | configure settings _ ih => exact ih
  | addPlugin plugin _ ih => exact ih
  | run computation _ ih => exact ih.start _

/-! ## What has been forgotten -/

/-- A key that is listed has been registered after it has been unregistered. -/
theorem exists_registers {name : String} {later earlier : List Change}
    (h : (introduced? (Text.lower name) (later ++ .unregister name :: earlier)).isSome = true) :
    ∃ change ∈ later, change.registers (Text.lower name) = true := by
  induction later with
  | nil =>
    simp [introduced?, Change.unregisters] at h
  | cons change later ih =>
    simp only [List.cons_append, introduced?] at h
    split at h
    · cases h
    · split at h
      · next hregisters => exact ⟨change, List.mem_cons_self, hregisters⟩
      · rw [Option.or_none] at h
        obtain ⟨other, hother, hregisters⟩ := ih h
        exact ⟨other, List.mem_cons_of_mem _ hother, hregisters⟩

/-- What leads to a key has been let to after the key has been unregistered. -/
theorem IsLed.exists_leads {name other : String} {later earlier : List Change}
    (h : IsLed other (Text.lower name) (later ++ .unregister name :: earlier)) :
    ∃ change ∈ later, change.leads other (Text.lower name) = true := by
  induction later with
  | nil =>
    have hnot := h.1
    simp [Change.unregisters] at hnot
  | cons change later ih =>
    rcases h.2 with hleads | hled
    · exact ⟨change, List.mem_cons_self, hleads⟩
    · obtain ⟨other, hother, hleads⟩ := ih hled
      exact ⟨other, List.mem_cons_of_mem _ hother, hleads⟩

/-- What a registry remembers of its changes. -/
structure Remembers (registry : Registry) (changes : List Change) : Prop where
  nodup : registry.names.Nodup
  /-- The names are those with an entry of their own. -/
  direct : ∀ key, key ∈ registry.names ↔
    (registry.catalog.languages.lookup key).isSome = true
  /-- They are the ones that have been registered and not been unregistered since. -/
  introduced : ∀ key, key ∈ registry.names ↔ (introduced? key changes).isSome = true
  /-- They stand in the order in which they have been introduced. -/
  ordered : registry.names.Pairwise fun key key' => ∃ number number',
    introduced? key changes = some number ∧ introduced? key' changes = some number' ∧
      number < number'
  /-- Every grammar is stored under its own name and can be compiled. -/
  stored : ∀ key language, registry.catalog.languages.lookup key = some language →
    Text.lower language.grammar.name = key ∧ language.grammar.compile = .ok language.lexer
  /-- Whatever the aliases are, a name that is registered leads to its own entry. -/
  unaliased : ∀ name aliases, Text.lower name ∈ registry.names →
    ({ registry.catalog with aliases := aliases }).find? name =
      (registry.catalog.languages.lookup (Text.lower name)).map (Text.lower name, ·)
  /-- No name leads to what has been unregistered and not been registered again. -/
  forgotten : ∀ (name : String) (later earlier : List Change),
      changes = later ++ .unregister name :: earlier →
    (∀ change ∈ later, change.registers (Text.lower name) = false) →
    ∀ other language, registry.catalog.find? other ≠ some (Text.lower name, language)
  /-- Beside its own name, only aliases lead to what is registered again that have been given since
  it has been unregistered. -/
  renewed : ∀ (name : String) (later earlier : List Change),
      changes = later ++ .unregister name :: earlier →
    ∀ other language, registry.catalog.find? other = some (Text.lower name, language) →
      Text.lower other = Text.lower name ∨
        ∃ change ∈ later, change.leads (Text.lower other) (Text.lower name) = true

/-- The registry after changes that are made one after the other. -/
def replay : List Change → Registry
  | [] => empty
  | change :: earlier => ((change.apply (replay earlier)).run {}).1

theorem after_replay (changes : List Change) : After changes (replay changes) := by
  induction changes with
  | nil => exact .empty
  | cons change earlier ih => exact .change ih rfl

end Registry

end Highlighter
