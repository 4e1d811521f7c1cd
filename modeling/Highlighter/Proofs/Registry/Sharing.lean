import Highlighter.Proofs.Lexer.Renumbering
import Highlighter.Proofs.Registry.Strict

/-!
# Shared modes

Two grammars that unfold to the same tree of modes differ only in which modes are shared. Their
lexers represent one outline, so whatever is highlighted with the one comes out the same with the
other, also where the language is embedded or detected.
-/

namespace Highlighter

namespace Catalog

variable {β : Type}

theorem lookup_put (key : String) (value : β) (entries : List (String × β)) (name : String) :
    (put key value entries).lookup name =
      if name == key then some value else entries.lookup name := by
  induction entries with
  | nil =>
    simp only [put, List.lookup_cons, List.lookup_nil]
    cases name == key <;> rfl
  | cons entry entries ih =>
    obtain ⟨other, old⟩ := entry
    simp only [put]
    split
    · next hother =>
      rw [beq_iff_eq.mp hother]
      simp only [List.lookup_cons]
      cases name == key <;> rfl
    · next hother =>
      simp only [List.lookup_cons, ih]
      cases hname : name == other with
      | false => rfl
      | true =>
        rw [beq_iff_eq.mp hname, eq_false_of_ne_true hother]
        rfl

/-- Where a key is put does not depend on its value. -/
theorem keys_put (key : String) (value value' : β) (entries : List (String × β)) :
    (put key value entries).map (·.1) = (put key value' entries).map (·.1) := by
  induction entries with
  | nil => rfl
  | cons entry entries ih =>
    simp only [put]
    split
    · rfl
    · rw [List.map_cons, List.map_cons, ih]

theorem languages_addAliases (catalog : Catalog) (names : List String) (language : String) :
    (catalog.addAliases names language).languages = catalog.languages := by
  induction names generalizing catalog with
  | nil => rfl
  | cons name names ih => exact ih _

theorem aliases_addAliases {catalog catalog' : Catalog} (h : catalog.aliases = catalog'.aliases)
    (names : List String) (language : String) :
    (catalog.addAliases names language).aliases =
      (catalog'.addAliases names language).aliases := by
  induction names generalizing catalog catalog' with
  | nil => exact h
  | cons name names ih =>
    refine ih ?_
    simp only [addAlias, h]

end Catalog

namespace Workshop

/-- A workshop with one more language under a name, and with its aliases. -/
def teach (workshop : Workshop) (name : String) (grammar : Grammar) (lexer : Lexer) : Workshop :=
  { workshop with
    catalog := (workshop.catalog.insert name { grammar := grammar, lexer := lexer }).addAliases
      grammar.aliases name }

/-- Where one language has been taught in two forms, the modes of these two are related by `R`. -/
def taughtRelation (name : String) (R : Nat → Nat → Prop) (key : String) : Nat → Nat → Prop :=
  if key == Text.lower name then R else Eq

/-- Teaching two forms of a language that do the same leads to alike workshops. -/
theorem teach_alike (workshop : Workshop) (name : String) {R : Nat → Nat → Prop}
    {grammar grammar' : Grammar} {lexer lexer' : Lexer}
    (hfields : grammar.rootless = grammar'.rootless) (hlexer : lexer.Bisimilar R lexer') :
    (workshop.teach name grammar lexer).Alike (taughtRelation name R)
      (workshop.teach name grammar' lexer') := by
  have haliases : grammar.aliases = grammar'.aliases := (congrArg Grammar.aliases hfields :)
  refine ⟨⟨?_, fun key => ?_, ?_⟩, rfl⟩
  · simp only [teach, Catalog.names, Catalog.languages_addAliases]
    exact Catalog.keys_put _ _ _ _
  · simp only [teach, Catalog.languages_addAliases, Catalog.insert, Catalog.lookup_put,
      taughtRelation]
    split
    · exact .some ⟨(congrArg Grammar.name hfields :),
        (congrArg Grammar.disableAutodetect hfields :), (congrArg Grammar.supersetOf hfields :), hlexer⟩
    · cases workshop.catalog.languages.lookup key with
      | none => exact .none
      | some language => exact .some language.alike_self
  · simp only [teach, haliases]
    refine Catalog.aliases_addAliases ?_ _ _
    rfl

variable {R : String → Nat → Nat → Prop} {workshop workshop' : Workshop}

theorem depth_alike (h : workshop.Alike R workshop') (code : String) :
    workshop.depth code = workshop'.depth code := by
  have hlength := congrArg List.length h.catalog.names
  simp only [Catalog.names, List.length_map] at hlength
  rw [depth, depth, hlength]

/-- Alike workshops highlight alike. -/
theorem highlight_agree (h : workshop.Alike R workshop') (name code : String)
    (options : Scan.Options) :
    AgreeExcept false (fun result result' => result.bare = result'.bare ∧
        result.secondBest = none ∧ result'.secondBest = none)
      (workshop.highlight name code options) (workshop'.highlight name code options) := by
  rw [highlight, highlight, depth_alike h]
  refine (highlightWithin_agree h _ false name code options options [] [] (.same rfl) ?_).mono ?_
  · intro _ _ _
    exact .nil
  · intro result result' hresult
    exact ⟨hresult.bare, hresult.single, hresult.single'⟩

/-- Alike workshops detect alike. -/
theorem detect_agree (h : workshop.Alike R workshop') (code : String)
    (asked : Option (List String)) :
    Agree (fun result result' => result.bare = result'.bare ∧
        result.secondBest.map Highlighted.bare = result'.secondBest.map Highlighted.bare)
      (workshop.detect code asked) (workshop'.detect code asked) := by
  rw [detect, detect, depth_alike h]
  exact detectWith_agree h (highlightWithin_agree h _ false) code asked

end Workshop

/-- Sharing of modes does not show. Two grammars that unfold to the same tree of modes are refused
for the same misuse, or both are compiled. Then, however many modes a lexer has, every number in it
represents the outline of a mode inside the mode in which that mode is met; and with either lexer
every text is highlighted and detected as with the other one, in whichever workshop, with whichever
options. Modes that are not tied have one form inside all modes. -/
theorem Grammar.sharing_unobservable {grammar grammar' : Grammar}
    {meaning meaning' : String → RawMode} (hfields : grammar.rootless = grammar'.rootless)
    (hunfold : grammar.root.unfold = grammar'.root.unfold)
    (hshares : grammar.root.Shares meaning) (hshares' : grammar'.root.Shares meaning') :
    ((∃ misuse, grammar.compile = .error misuse ∧ grammar'.compile = .error misuse) ∨
      ∃ lexer lexer', grammar.compile = .ok lexer ∧ grammar'.compile = .ok lexer' ∧
        lexer.Stands grammar.rootless none (Outline.ofRoot grammar.root).bare Lexer.root ∧
        lexer'.Stands grammar.rootless none (Outline.ofRoot grammar.root).bare Lexer.root ∧
        ∀ (workshop : Workshop) (key : String),
          (∀ name code options,
            AgreeExcept false (fun result result' => result.bare = result'.bare ∧
                result.secondBest = none ∧ result'.secondBest = none)
              ((workshop.teach key grammar lexer).highlight name code options)
              ((workshop.teach key grammar' lexer').highlight name code options)) ∧
          ∀ code asked,
            Agree (fun result result' => result.bare = result'.bare ∧
                result.secondBest.map Highlighted.bare = result'.secondBest.map Highlighted.bare)
              ((workshop.teach key grammar lexer).detect code asked)
              ((workshop.teach key grammar' lexer').detect code asked)) ∧
      (Outline.ofRoot grammar.root).Every fun outline => outline.isTied = false →
        ∀ terminator terminator' modes isDone number,
          Lexer.Represents grammar.rootless modes isDone (some terminator) outline.bare number ↔
            Lexer.Represents grammar.rootless modes isDone (some terminator') outline.bare number := by
  have hbare : (Outline.ofRoot grammar.root).bare = (Outline.ofRoot grammar'.root).bare := by
    rw [Outline.bare_ofRoot, Outline.bare_ofRoot, hunfold]
  constructor
  · have hbuilt := Grammar.compile_follows hshares
    have hbuilt' := Grammar.compile_follows hshares'
    rw [← hbare, ← hfields] at hbuilt'
    obtain ⟨misuse, hmisuse, hrefused⟩ | ⟨base, lexer, hbase, hlexer, -, hcase, haliases, hroot⟩ :=
      hbuilt
    · rw [hmisuse] at hbuilt'
      obtain ⟨misuse', hmisuse', hrefused'⟩ | ⟨_, _, hbase', -⟩ := hbuilt'
      · cases hmisuse'
        exact .inl ⟨misuse, hrefused, hrefused'⟩
      · cases hbase'
    · rw [hbase] at hbuilt'
      obtain ⟨_, hmisuse', -⟩ | ⟨_, lexer', -, hlexer', -, hcase', haliases', hroot'⟩ := hbuilt'
      · cases hmisuse'
      · have hcases : grammar.caseInsensitive = grammar'.caseInsensitive :=
          (congrArg Grammar.caseInsensitive hfields :)
        have hscopes : grammar.scopeAliases = grammar'.scopeAliases :=
          (congrArg Grammar.scopeAliases hfields :)
        have hbisimilar := Lexer.bisimilar_of_root ⟨none, _, hroot, hroot'⟩
          (by rw [hcase, hcases, hcase']) (by rw [haliases, hscopes, haliases'])
        refine .inr ⟨lexer, lexer', hlexer, hlexer', hroot, hroot', fun workshop key => ?_⟩
        have halike := workshop.teach_alike key hfields hbisimilar
        exact ⟨Workshop.highlight_agree halike, Workshop.detect_agree halike⟩
  · refine (Outline.ofRoot_settled hshares).imp fun outline hsettled huntied => ?_
    intro terminator terminator' modes isDone number
    exact ⟨fun h => h.untied terminator' hsettled huntied,
      fun h => h.untied terminator hsettled huntied⟩

namespace Grammar

/-- A mode for texts in quotes. -/
def quotedMode : RawMode := .of {
  scope := some "string"
  beginPattern := some (.regex "\"")
  endPattern := some (.regex "\"") }

/-- A grammar of quotes, also inside parentheses, with the quotes in both places as given. -/
def quotesWithin (quotes : RawChild) : Grammar where
  name := "t"
  root := .of {} [quotes, .own (.of {
    beginPattern := some (.regex "\\(")
    endPattern := some (.regex "\\)") } [quotes])]

/-- Quotes that are shared by two modes have one number, and two where they are written down twice.
No text tells the difference. -/
theorem sharing_unobservable_quotes : ∃ lexer lexer',
    (quotesWithin (.shared "quotes" quotedMode)).compile = .ok lexer ∧
    (quotesWithin (.own quotedMode)).compile = .ok lexer' ∧
    lexer.modeCount = 3 ∧ lexer'.modeCount = 4 ∧
    ∀ (workshop : Workshop) (key name code : String) (options : Scan.Options),
      AgreeExcept false (fun result result' => result.bare = result'.bare ∧
          result.secondBest = none ∧ result'.secondBest = none)
        ((workshop.teach key (quotesWithin (.shared "quotes" quotedMode)) lexer).highlight name code
          options)
        ((workshop.teach key (quotesWithin (.own quotedMode)) lexer').highlight name code
          options) := by
  have hshared : (quotesWithin (.shared "quotes" quotedMode)).compile.toOption.map Lexer.modeCount =
      some 3 := by decide +kernel
  have howned : (quotesWithin (.own quotedMode)).compile.toOption.map Lexer.modeCount = some 4 := by
    decide +kernel
  obtain ⟨⟨misuse, hrefused, -⟩ | ⟨lexer, lexer', hlexer, hlexer', -, -, hagree⟩, -⟩ :=
    @sharing_unobservable (quotesWithin (.shared "quotes" quotedMode))
      (quotesWithin (.own quotedMode)) (fun _ => quotedMode) (fun _ => quotedMode) rfl
      (by simp [quotesWithin, quotedMode, RawMode.of, RawChild.shared, RawChild.own, RawMode.unfold,
        RawMode.unfoldChildren])
      (by simp [quotesWithin, quotedMode, RawMode.of, RawChild.shared, RawChild.own, RawMode.Shares,
        RawMode.SharesChildren, RawMode.SharesVariants, RawMode.SharesNext])
      (by simp [quotesWithin, quotedMode, RawMode.of, RawChild.own, RawMode.Shares,
        RawMode.SharesChildren, RawMode.SharesVariants, RawMode.SharesNext])
  · rw [hrefused] at hshared
    cases hshared
  · rw [hlexer] at hshared
    rw [hlexer'] at howned
    exact ⟨lexer, lexer', hlexer, hlexer', Option.some.inj hshared, Option.some.inj howned,
      fun workshop key => (hagree workshop key).1⟩

end Grammar

end Highlighter
