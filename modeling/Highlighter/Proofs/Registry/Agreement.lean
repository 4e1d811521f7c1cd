import Highlighter.Proofs.Registry
import Highlighter.Proofs.Scan.Lockstep

/-!
# Catalogues that agree

Two catalogues hold the same languages under the same names, but their lexers may number the modes
differently. By induction on the depth of embedding, whatever is highlighted or detected with the
one comes out the same with the other.
-/

namespace Highlighter

/-! ## Ranking by what does not refer to modes -/

namespace Rank

variable {α β : Type}

theorem map_splitBy {r : α → α → Bool} {s : β → β → Bool} {f : α → β}
    (h : ∀ a b, r a b = s (f a) (f b)) (elements : List α) :
    (elements.splitBy r).map (List.map f) = (elements.map f).splitBy s := by
  have hloop : ∀ (elements : List α) (last : α) (group : List α) (groups : List (List α)),
      (List.splitBy.loop r elements last group groups).map (List.map f) =
        List.splitBy.loop s (elements.map f) (f last) (group.map f) (groups.map (List.map f)) := by
    intro elements
    induction elements with
    | nil => simp [List.splitBy.loop]
    | cons a elements ih =>
      intro last group groups
      simp only [List.splitBy.loop, List.map_cons, ← h]
      cases r last a <;> simp [ih]
  cases elements with
  | nil => rfl
  | cons a elements => exact hloop elements a [] []

theorem map_place {isAhead : α → α → Bool} {isAhead' : β → β → Bool} {f : α → β}
    (h : ∀ a b, isAhead a b = isAhead' (f a) (f b)) (a : α) (elements : List α) :
    (place isAhead a elements).map f = place isAhead' (f a) (elements.map f) := by
  induction elements with
  | nil => rfl
  | cons b elements ih =>
    simp only [place, List.map_cons, ← h]
    split <;> simp [ih]

theorem map_arrange {isAhead : α → α → Bool} {isAhead' : β → β → Bool} {f : α → β}
    (h : ∀ a b, isAhead a b = isAhead' (f a) (f b)) (elements : List α) :
    (arrange isAhead elements).map f = arrange isAhead' (elements.map f) := by
  have hfold : ∀ placed : List α,
      (elements.foldl (fun placed a => place isAhead a placed) placed).map f =
        (elements.map f).foldl (fun placed b => place isAhead' b placed) (placed.map f) := by
    induction elements with
    | nil => exact fun _ => rfl
    | cons a elements ih =>
      intro placed
      rw [List.foldl_cons, ih, map_place h, List.map_cons, List.foldl_cons]
  exact hfold []

/-- Ranking looks at the relevance and at the language only. -/
theorem map_rank {catalog catalog' : Catalog}
    (h : ∀ language base, catalog.isExtension language base = catalog'.isExtension language base)
    (results : List Highlighted) :
    (rank catalog results).map Highlighted.bare =
      rank catalog' (results.map Highlighted.bare) := by
  have hahead : ∀ first second : Highlighted,
      isAhead catalog first second = isAhead catalog' first.bare second.bare := by
    intro first second
    simp only [isAhead, Highlighted.bare, h]
  simp only [rank]
  rw [← List.map_mergeSort (f := Highlighted.bare) fun _ _ _ _ => rfl,
    ← map_splitBy (f := Highlighted.bare) fun _ _ => rfl, List.map_flatMap, List.flatMap_map]
  simp only [map_arrange hahead]
  rfl

end Rank

/-- Two languages that differ only in how their lexers number the modes. -/
structure Language.Alike (R : Nat → Nat → Prop) (language language' : Language) : Prop where
  name : language.grammar.name = language'.grammar.name
  disableAutodetect : language.grammar.disableAutodetect = language'.grammar.disableAutodetect
  supersetOf : language.grammar.supersetOf = language'.grammar.supersetOf
  lexer : language.lexer.Bisimilar R language'.lexer

/-- Two catalogues with the same names, which lead to languages that are alike. The relation between
modes depends on the language. -/
structure Catalog.Alike (R : String → Nat → Nat → Prop) (catalog catalog' : Catalog) : Prop where
  names : catalog.names = catalog'.names
  lookup : ∀ key, Option.Rel (Language.Alike (R key)) (catalog.languages.lookup key)
    (catalog'.languages.lookup key)
  aliases : catalog.aliases = catalog'.aliases

namespace Catalog

variable {R : String → Nat → Nat → Prop} {catalog catalog' : Catalog}

/-- A name leads to alike languages. -/
theorem Alike.find? (h : catalog.Alike R catalog') (name : String) :
    Option.Rel (fun entry entry' => entry.1 = entry'.1 ∧ entry.2.Alike (R entry.1) entry'.2)
      (catalog.find? name) (catalog'.find? name) := by
  have hnamed := h.lookup (Text.lower name)
  simp only [Catalog.find?, ← h.aliases]
  generalize catalog.languages.lookup (Text.lower name) = named at hnamed ⊢
  generalize catalog'.languages.lookup (Text.lower name) = named' at hnamed ⊢
  cases hnamed with
  | some hlanguage => exact .some ⟨rfl, hlanguage⟩
  | none =>
    cases catalog.aliases.lookup (Text.lower name) with
    | none => exact .none
    | some target =>
      have htarget := h.lookup target
      simp only [Option.bind_eq_bind, Option.bind_some]
      generalize catalog.languages.lookup target = language at htarget ⊢
      generalize catalog'.languages.lookup target = language' at htarget ⊢
      cases htarget with
      | some hlanguage => exact .some ⟨rfl, hlanguage⟩
      | none => exact .none

theorem Alike.takesPart (h : catalog.Alike R catalog') (name : String) :
    catalog.takesPart name = catalog'.takesPart name := by
  have hfind := h.find? name
  simp only [Catalog.takesPart]
  generalize catalog.find? name = entry at hfind ⊢
  generalize catalog'.find? name = entry' at hfind ⊢
  cases hfind with
  | none => rfl
  | some hentry => simp only [hentry.2.disableAutodetect]

theorem Alike.isExtension (h : catalog.Alike R catalog') (language base : String) :
    catalog.isExtension language base = catalog'.isExtension language base := by
  have hfind := h.find? language
  simp only [Catalog.isExtension]
  generalize catalog.find? language = entry at hfind ⊢
  generalize catalog'.find? language = entry' at hfind ⊢
  cases hfind with
  | none => rfl
  | some hentry => simp only [hentry.2.supersetOf]

/-- The frames of a text in a language stand for related modes of it. -/
def FramesRelated (R : String → Nat → Nat → Prop) (catalog : Catalog) (name : String)
    (frames frames' : List Frame) : Prop :=
  ∀ key language, catalog.find? name = some (key, language) → FramesAlike (R key) frames frames'

end Catalog

namespace Workshop

variable {R : String → Nat → Nat → Prop} {workshop workshop' : Workshop} {lenient : Bool}

/-- Two workshops with the same settings and alike catalogues. -/
structure Alike (R : String → Nat → Nat → Prop) (workshop workshop' : Workshop) : Prop where
  catalog : workshop.catalog.Alike R workshop'.catalog
  settings : workshop.settings = workshop'.settings

/-- Highlighting with one of two workshops agrees with highlighting with the other one. -/
def HighlightsAlike (R : String → Nat → Nat → Prop) (catalog : Catalog) (lenient : Bool)
    (highlight highlight' : Highlight) : Prop :=
  ∀ name code options options' frames frames', Scan.Options.Alike lenient options options' →
    catalog.FramesRelated R name frames frames' →
    AgreeExcept lenient (Highlighted.Alike (catalog.FramesRelated R name))
      (highlight name code options frames) (highlight' name code options' frames')

theorem tryAll_agree {highlight highlight' : Highlight} (h : workshop.Alike R workshop')
    (hhighlight : HighlightsAlike R workshop.catalog false highlight highlight') (code : String)
    (names : List String) :
    Agree (fun results results' => results.map Highlighted.bare = results'.map Highlighted.bare)
      (workshop.tryAll highlight code names) (workshop'.tryAll highlight' code names) := by
  induction names with
  | nil => exact agree_pure rfl
  | cons name names ih =>
    rw [tryAll, tryAll, h.catalog.takesPart]
    split
    · refine .bind (hhighlight name code _ _ [] [] (.same rfl) fun _ _ _ => .nil) ?_
      intro outcome outcome' houtcome
      cases houtcome with
      | ok hresult =>
        refine .bind ih fun results results' hresults => agree_pure ?_
        rw [List.map_cons, List.map_cons, hresult.bare, hresults]
      | error _ => exact .bind (r := fun _ _ => True) (fun _ _ => trivial) fun _ _ _ => ih
      | excused hlenient => cases hlenient
    · exact ih

/-- What detection finds best, and what second best, is the same but for the numbers of modes. -/
theorem detectWith_agree {highlight highlight' : Highlight} (h : workshop.Alike R workshop')
    (hhighlight : HighlightsAlike R workshop.catalog false highlight highlight') (code : String)
    (asked : Option (List String)) :
    Agree (fun result result' => result.bare = result'.bare ∧
        result.secondBest.map Highlighted.bare = result'.secondBest.map Highlighted.bare)
      (workshop.detectWith highlight code asked) (workshop'.detectWith highlight' code asked) := by
  have hcandidates : workshop.candidates asked = workshop'.candidates asked := by
    rw [candidates, candidates, h.settings, h.catalog.names]
  simp only [detectWith, hcandidates, h.settings]
  refine .bind (tryAll_agree h hhighlight code _) fun results results' hresults => ?_
  have hranked : ∀ plain : Highlighted,
      (Rank.rank workshop.catalog (plain :: results)).map Highlighted.bare =
        (Rank.rank workshop'.catalog (plain :: results')).map Highlighted.bare := by
    intro plain
    rw [Rank.map_rank h.catalog.isExtension, Rank.map_rank (fun _ _ => rfl), List.map_cons,
      List.map_cons, hresults]
  refine .bind (r := fun _ _ => True) (fun _ _ => trivial) fun _ _ _ => ?_
  have hsame := hranked (Highlighted.plain none code workshop'.settings.classPrefix)
  generalize Rank.rank workshop.catalog _ = ranked at hsame ⊢
  generalize Rank.rank workshop'.catalog _ = ranked' at hsame ⊢
  cases ranked with
  | nil =>
    obtain rfl := List.map_eq_nil_iff.mp hsame.symm
    exact agree_pure ⟨rfl, rfl⟩
  | cons best rest =>
    obtain ⟨best', rest', rfl, hbest, hrest⟩ := List.map_eq_cons_iff.mp hsame.symm
    refine agree_pure ⟨?_, ?_⟩
    · exact hbest.symm
    · have hhead := congrArg List.head? hrest
      rw [List.head?_map, List.head?_map] at hhead
      exact hhead.symm

/-- The lexer of a language does not depend on whether it has been used before. -/
theorem start_agree {key key' : String} {language language' : Language} :
    Agree (fun lexer lexer' => lexer = language.lexer ∧ lexer' = language'.lexer)
      (start key language) (start key' language') :=
  fun _ _ => ⟨start_eq rfl, start_eq rfl⟩

theorem isKnown_alike (h : workshop.Alike R workshop') (name : String) :
    (workshop.catalog.find? name).isSome = (workshop'.catalog.find? name).isSome := by
  have hfind := h.catalog.find? name
  generalize workshop.catalog.find? name = entry at hfind ⊢
  generalize workshop'.catalog.find? name = entry' at hfind ⊢
  cases hfind <;> rfl

/-- Embedded languages never fail at illegal text, and at faults where the text around them does. -/
theorem inner_options_alike {options options' : Scan.Options} (h : options.Alike lenient options') :
    Scan.Options.Alike lenient ⟨true, options.safeMode⟩ ⟨true, options'.safeMode⟩ := by
  cases h with
  | same hexact => exact .same hexact
  | strict hlenient hsafe _ => exact .strict hlenient hsafe fun _ => rfl

theorem services_alike (h : workshop.Alike R workshop') {depth : Nat}
    (hhighlight : ∀ lenient, HighlightsAlike R workshop.catalog lenient
      (workshop.highlightWithin depth) (workshop'.highlightWithin depth))
    {options options' : Scan.Options} (hoptions : options.Alike lenient options') :
    (workshop.services depth options).Alike lenient (workshop.catalog.FramesRelated R)
      (workshop'.services depth options') where
  isKnown := isKnown_alike h
  fresh _ _ _ _ := .nil
  highlight name text frames frames' hframes :=
    hhighlight lenient name text _ _ frames frames' (inner_options_alike hoptions) hframes
  detect text names := (detectWith_agree h (hhighlight false) text names).mono fun _ _ hresult =>
    hresult.1

/-- Alike workshops highlight alike at every depth of embedding. -/
theorem highlightWithin_agree (h : workshop.Alike R workshop') (depth : Nat) (lenient : Bool) :
    HighlightsAlike R workshop.catalog lenient (workshop.highlightWithin depth)
      (workshop'.highlightWithin depth) := by
  induction depth generalizing lenient with
  | zero =>
    intro name code options options' frames frames' _ _
    exact .of_throw _
  | succ depth ih =>
    intro name code options options' frames frames' hoptions hframes
    have hfind := h.catalog.find? name
    simp only [highlightWithin]
    cases hentry : workshop.catalog.find? name with
    | none =>
      rw [hentry] at hfind
      generalize workshop'.catalog.find? name = entry' at hfind ⊢
      cases hfind
      exact .of_throw _
    | some entry =>
      obtain ⟨key, language⟩ := entry
      rw [hentry] at hfind
      generalize workshop'.catalog.find? name = entry' at hfind ⊢
      cases hfind with
      | @some _ entry' hsame =>
      obtain ⟨key', language'⟩ := entry'
      obtain ⟨hkey, hlanguage⟩ := hsame
      simp only at hkey hlanguage
      subst hkey
      refine .bind (.of_agree start_agree) ?_
      rintro _ _ ⟨rfl, rfl⟩
      have henv : (workshop.env language code options).Bisimilar lenient (R key)
          (workshop'.env language' code options') :=
        ⟨⟨hlanguage.lexer.alike, hlanguage.name, rfl, h.settings⟩, hlanguage.lexer.search, hoptions⟩
      refine (Scan.highlight_agree henv (services_alike h ih hoptions)
        (hframes key language hentry)).mono fun result result' hresult => ?_
      refine ⟨hresult.bare, fun other _ hother => ?_, hresult.single, hresult.single'⟩
      rw [hentry] at hother
      cases hother
      exact hresult.frames

end Workshop

end Highlighter
