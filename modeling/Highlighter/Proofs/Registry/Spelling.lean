import Highlighter.Proofs.Registry.Continuation
import Highlighter.Proofs.Scan.Names

/-!
# Names of embedded languages

Where a text of an embedded language goes on is kept by the name that its mode has for the language,
as it is written there. So a text goes on in the modes of the one before it under the same name. That
is the one before it in the same language where no two modes have different names for one language;
else a text may start from nothing although the language has been left inside a mode.
-/

namespace Highlighter.Workshop

open Scan (NamedSegment Segment previous?)

variable {workshop : Workshop} {depth : Nat} {options : Scan.Options} {env : Scan.Env}
  {frames : List Frame} {before : Trace}

/-- Two names lead to the same language. -/
def leadTogether (workshop : Workshop) (name other : String) : Bool :=
  (workshop.catalog.find? name).isSome &&
    (workshop.catalog.find? name).map (·.1) == (workshop.catalog.find? other).map (·.1)

/-- No two modes have different names for one language. -/
def SpelledAlike (workshop : Workshop) (lexer : Lexer) : Prop :=
  ∀ number other name name', (lexer.mode number).subLanguage = some (.named name) →
    (lexer.mode other).subLanguage = some (.named name') →
    workshop.leadTogether name name' = true → name = name'

/-- A text of an embedded language starts in the modes and with the data in which another one has
stopped, before its scan has closed them, or from nothing. -/
def ContinuesFrom (workshop : Workshop) (depth : Nat) (options : Scan.Options) (segment : Segment) :
    Option NamedSegment → Prop
  | none => segment.frames = []
  | some previous => ∃ key language last,
    workshop.catalog.find? previous.name = some (key, language) ∧
      Scan.StopsIn (workshop.segmentEnv language options previous.segment)
        (workshop.innerServices depth options) previous.segment.frames last ∧
      Scan.contents segment.frames = Scan.contents last.frames

/-- What a language hands on is where its scan has stopped. -/
theorem continuesFrom_of_handsOn {previous : NamedSegment} {segment : Segment}
    (hknown : (workshop.services (depth + 1) options).isKnown previous.name = true)
    (h : (workshop.services (depth + 1) options).handsOn previous.name previous.segment =
      some segment.frames) :
    workshop.ContinuesFrom depth options segment (some previous) := by
  obtain ⟨⟨key, language⟩, hfind⟩ := Option.isSome_iff_exists.mp hknown
  obtain ⟨result, started, ended, hframes, hscan⟩ := highlight_of_handsOn hfind h
  obtain ⟨last, hstops, hcontents⟩ := Scan.highlight_stopsIn (workshop.services_steady depth _)
    (workshop.innerServices_failsWith depth options previous.segment) rfl hscan
  exact ⟨key, language, last, hfind, hstops, hframes ▸ hcontents⟩

/-- Where names are spelled alike, the texts in a language are those under its name. -/
theorem previous?_leadTogether (hspelled : workshop.SpelledAlike env.lexer)
    {earlier : List NamedSegment} {name : String}
    (hname : Scan.Names env (workshop.services (depth + 1) options) name)
    (hnames : ∀ named ∈ earlier,
      Scan.Names env (workshop.services (depth + 1) options) named.name) :
    previous? (workshop.leadTogether name) earlier = previous? (· = name) earlier := by
  have hsame : ∀ named ∈ earlier,
      workshop.leadTogether name named.name = decide (named.name = name) := by
    intro named hmem
    obtain ⟨hknown, number, hnumber⟩ := hname
    obtain ⟨-, other, hother⟩ := hnames named hmem
    by_cases heq : named.name = name
    · have hfound : (workshop.catalog.find? name).isSome = true := hknown
      simp [leadTogether, heq, hfound]
    · rw [decide_eq_false heq, Bool.eq_false_iff]
      intro htogether
      exact heq (hspelled number other name named.name hnumber hother htogether).symm
  unfold previous?
  rw [List.filter_congr hsame]

/-- Embedded texts go on by name. The texts that a scan gives to embedded languages, in whatever
order and under whatever names, are all that it asks of them. Each starts in the modes in which the
text before it under the same name has stopped, the first under its name from nothing. Where no two
modes have different names for one language, by name, by alias or in different letter case, the text
before it under the same name is the one before it in the same language. -/
theorem embedded_texts_continue_by_name (workshop : Workshop) (depth : Nat)
    (options : Scan.Options) (env : Scan.Env) (frames : List Frame) (before : Trace) :
    let nested := workshop.services (depth + 1) options
    let named := ((Scan.namedSegments env nested frames).run before).1
    (∀ name, ∀ nested' : Scan.Nested,
        nested.AgreesOn name (named.filterMap (·.under name)) nested' →
        (Scan.run env nested' frames).run before = (Scan.run env nested frames).run before) ∧
      (∀ earlier current later, named = earlier ++ current :: later →
        workshop.ContinuesFrom depth options current.segment
          (previous? (· = current.name) earlier)) ∧
      (workshop.SpelledAlike env.lexer →
        ∀ earlier current later, named = earlier ++ current :: later →
          workshop.ContinuesFrom depth options current.segment
            (previous? (workshop.leadTogether current.name) earlier)) := by
  intro nested named
  have hnames : ∀ asked ∈ named, Scan.Names env nested asked.name := Scan.names_of_mem rfl
  have hbyName : ∀ earlier current later, named = earlier ++ current :: later →
      workshop.ContinuesFrom depth options current.segment
        (previous? (· = current.name) earlier) := by
    intro earlier current later hsplit
    have hcontinues := Scan.namedSegments_continue (workshop.services_steady _ _) hsplit
    cases hprevious : previous? (· = current.name) earlier with
    | none =>
      rw [hprevious] at hcontinues
      exact hcontinues
    | some previous =>
      rw [hprevious] at hcontinues
      obtain ⟨hname, hhandsOn⟩ := hcontinues
      have hcurrent := hnames current (hsplit ▸ List.mem_append_right _ List.mem_cons_self)
      exact continuesFrom_of_handsOn (hname ▸ hcurrent.1) hhandsOn
  refine ⟨fun name nested' hagrees => ?_, hbyName, fun hspelled earlier current later hsplit => ?_⟩
  · rw [← Scan.segments_eq] at hagrees
    exact Scan.run_congr hagrees
  · have hmem := fun asked hasked => hnames asked (hsplit ▸ List.mem_append_left _ hasked)
    have hcurrent := hnames current (hsplit ▸ List.mem_append_right _ List.mem_cons_self)
    rw [previous?_leadTogether hspelled hcurrent hmem]
    exact hbyName earlier current later hsplit

/-- A text of two pairs of brackets, with a quote that is open between them. -/
def openQuote : Scan.Env :=
  bracketedWorkshop.env bracketedLanguage "<\"a>b<c\">" ⟨false, true⟩

/-- Between brackets texts are embedded under one name, so that the second text starts inside the
quote that the first one has left open. -/
theorem embedded_texts_continue_by_name_brackets :
    let first : NamedSegment := ⟨"t", ⟨"\"a", []⟩⟩
    let second : NamedSegment := ⟨"t", ⟨"c\"", [⟨1, {}, true⟩]⟩⟩
    bracketedWorkshop.SpelledAlike openQuote.lexer ∧
      ((Scan.namedSegments openQuote (bracketedWorkshop.services 1 ⟨false, true⟩) []).run {}).1 =
        [first, second] ∧
      bracketedWorkshop.ContinuesFrom 0 ⟨false, true⟩ second.segment (some first) := by
  intro first second
  have hnames : ∀ number, (openQuote.lexer.mode number).subLanguage = none ∨
      (openQuote.lexer.mode number).subLanguage = some (.named "t") :=
    Lexer.mode_of_forall (motive := fun mode =>
      mode.subLanguage = none ∨ mode.subLanguage = some (.named "t")) (.inl rfl) (by decide +kernel)
  have hspelled : bracketedWorkshop.SpelledAlike openQuote.lexer := by
    intro number other name name' hname hname' _
    rcases hnames number with hnone | hsome
    · cases hnone.symm.trans hname
    · rcases hnames other with hnone | hsome'
      · cases hnone.symm.trans hname'
      · cases hsome.symm.trans hname
        cases hsome'.symm.trans hname'
        rfl
  have hlisted : ((Scan.namedSegments openQuote (bracketedWorkshop.services 1 ⟨false, true⟩)
      []).run {}).1 = [first, second] := by
    decide +kernel
  have htogether : bracketedWorkshop.leadTogether "t" "t" = true := by decide +kernel
  obtain ⟨-, -, hcontinues⟩ :=
    embedded_texts_continue_by_name bracketedWorkshop 0 ⟨false, true⟩ openQuote [] {}
  have hcontinues := hcontinues hspelled [first] second [] hlisted
  have hprevious : previous? (bracketedWorkshop.leadTogether second.name) [first] = some first := by
    simp [previous?, first, second, htogether]
  exact ⟨hspelled, hlisted, hprevious ▸ hcontinues⟩

/-- A grammar that embeds one language under two names, between brackets of two kinds. -/
def spelledTwice : Grammar where
  name := "h"
  root := .of {} [
    .own (.of {
      beginPattern := some (.regex "<")
      endPattern := some (.regex ">")
      excludeBegin := true
      excludeEnd := true
      subLanguage := some (.named "t") }),
    .own (.of {
      beginPattern := some (.regex "\\[")
      endPattern := some (.regex "\\]")
      excludeBegin := true
      excludeEnd := true
      subLanguage := some (.named "T") })]

/-- The language of this grammar. -/
def spelledTwiceLanguage : Language where
  grammar := spelledTwice
  lexer := spelledTwice.compile.toOption.getD default

/-- A workshop with this language and the one that it embeds. -/
def spelledTwiceWorkshop : Workshop where
  catalog := { languages := [("h", spelledTwiceLanguage), ("t", quotedLanguage)] }
  settings := {}

/-- A text in which a quote is open between brackets of the two kinds. -/
def spelledTwiceEnv : Scan.Env :=
  spelledTwiceWorkshop.env spelledTwiceLanguage "<\"a>[b\"]" ⟨false, true⟩

/-- The second text is in the language of the first, under another name for it. It starts from
nothing, although the first one has stopped inside a quote. -/
theorem second_name_starts_from_nothing :
    let first : NamedSegment := ⟨"t", ⟨"\"a", []⟩⟩
    let second : NamedSegment := ⟨"T", ⟨"b\"", []⟩⟩
    ((Scan.namedSegments spelledTwiceEnv (spelledTwiceWorkshop.services 1 ⟨false, true⟩)
        []).run {}).1 = [first, second] ∧
      spelledTwiceWorkshop.leadTogether second.name first.name = true ∧
      ¬ spelledTwiceWorkshop.ContinuesFrom 0 ⟨false, true⟩ second.segment
        (previous? (spelledTwiceWorkshop.leadTogether second.name) [first]) := by
  intro first second
  have hlower : Text.lower "t" = "t" := by decide +kernel
  have hfind : spelledTwiceWorkshop.catalog.find? "t" = some ("t", quotedLanguage) := by
    rw [Catalog.find?, hlower]
    rfl
  have htogether : spelledTwiceWorkshop.leadTogether "T" "t" = true := by decide +kernel
  have hprevious : previous? (spelledTwiceWorkshop.leadTogether second.name) [first] =
      some first := by
    simp [previous?, first, second, htogether]
  have hopen : ((Scan.run (spelledTwiceWorkshop.segmentEnv quotedLanguage ⟨false, true⟩
      first.segment) (spelledTwiceWorkshop.innerServices 0 ⟨false, true⟩) []).run
        default).1.toOption.map (marks ·.frames) = some [(1, true)] := by
    decide +kernel
  refine ⟨by decide +kernel, htogether, ?_⟩
  rw [hprevious]
  rintro ⟨key, language, last, hlanguage, ⟨-, hstops⟩, hcontents⟩
  cases hfind.symm.trans hlanguage
  have hnone : last.frames = [] := List.map_eq_nil_iff.mp hcontents.symm
  rcases hstops with hok | ⟨fault, herror⟩
  · rw [hok] at hopen
    simp [Scan.conclude, hnone, marks, Except.toOption] at hopen
  · rw [herror] at hopen
    cases hopen

end Highlighter.Workshop
