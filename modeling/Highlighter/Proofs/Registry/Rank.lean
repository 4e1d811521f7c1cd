import Highlighter.Registry
import Mathlib.Data.List.Perm.Basic
import Mathlib.Data.List.SplitBy
import Mathlib.Logic.Relation

/-!
# Ties

Ranking sorts results by relevance and rearranges the results of each relevance, where a result
moves ahead of the first one that its language extends. Nothing is lost on the way, results that
extend nothing keep their order, and a result comes before one that extends it only if it has itself
moved ahead of a language that it extends.
-/

namespace Highlighter.Rank

section Arrange

variable {α : Type} {isAhead : α → α → Bool}

/-- An element is placed behind elements that it does not belong ahead of, right before one that it
belongs ahead of, or at the end. -/
theorem exists_place (isAhead : α → α → Bool) (a : α) (elements : List α) :
    ∃ front back, elements = front ++ back ∧ place isAhead a elements = front ++ a :: back ∧
      (∀ b ∈ front, isAhead a b = false) ∧ ∀ b, back.head? = some b → isAhead a b = true := by
  induction elements with
  | nil => exact ⟨[], [], rfl, rfl, by simp, by simp⟩
  | cons b elements ih =>
    by_cases h : isAhead a b = true
    · refine ⟨[], b :: elements, rfl, ?_, by simp, by simpa using h⟩
      rw [place, if_pos h, List.nil_append]
    · obtain ⟨front, back, rfl, hplace, hfront, hback⟩ := ih
      refine ⟨b :: front, back, rfl, ?_, ?_, hback⟩
      · rw [place, if_neg h, hplace, List.cons_append]
      · simpa [h] using hfront

theorem place_perm (a : α) (elements : List α) :
    (place isAhead a elements).Perm (a :: elements) := by
  obtain ⟨front, back, rfl, hplace, -⟩ := exists_place isAhead a elements
  rw [hplace]
  exact List.perm_middle

theorem arrange_concat (isAhead : α → α → Bool) (elements : List α) (a : α) :
    arrange isAhead (elements ++ [a]) = place isAhead a (arrange isAhead elements) := by
  simp [arrange]

theorem arrange_perm (isAhead : α → α → Bool) (elements : List α) :
    (arrange isAhead elements).Perm elements := by
  induction elements using List.reverseRecOn with
  | nil => exact .refl _
  | append_singleton elements a ih =>
    rw [arrange_concat]
    exact (place_perm a _).trans ((ih.cons a).trans (List.perm_append_singleton a elements).symm)

theorem filter_place {p : α → Bool} {a : α} (h : p a = true → ∀ b, isAhead a b = false)
    (elements : List α) :
    (place isAhead a elements).filter p = elements.filter p ++ [a].filter p := by
  obtain ⟨front, back, rfl, hplace, -, hback⟩ := exists_place isAhead a elements
  rw [hplace, List.filter_append, List.filter_append]
  by_cases hp : p a = true
  · have hend : back = [] := by
      by_contra hne
      obtain ⟨b, rest, rfl⟩ := List.exists_cons_of_ne_nil hne
      have hahead := hback b rfl
      rw [h hp b] at hahead
      cases hahead
    rw [hend, List.filter_nil, List.append_nil]
  · rw [List.filter_cons_of_neg hp, List.filter_cons_of_neg hp, List.filter_nil, List.append_nil]

/-- Elements that belong ahead of nothing stay in their order. -/
theorem filter_arrange {p : α → Bool} (h : ∀ a, p a = true → ∀ b, isAhead a b = false)
    (elements : List α) : (arrange isAhead elements).filter p = elements.filter p := by
  induction elements using List.reverseRecOn with
  | nil => rfl
  | append_singleton elements a ih =>
    rw [arrange_concat, filter_place (h a), ih, List.filter_append]

/-- An element that nothing belongs ahead of stays at the front. -/
theorem head?_arrange {a : α} (h : ∀ b, isAhead b a = false) (elements : List α) :
    (arrange isAhead (a :: elements)).head? = some a := by
  induction elements using List.reverseRecOn with
  | nil => rfl
  | append_singleton elements b ih =>
    obtain ⟨rest, hrest⟩ := List.head?_eq_some_iff.mp ih
    rw [← List.cons_append, arrange_concat, hrest, place]
    simp [h b]

/-- Wherever an element comes before one that belongs ahead of it, something stands between them
that the first one belongs ahead of. -/
def IsArranged (isAhead : α → α → Bool) (elements : List α) : Prop :=
  ∀ first second, [first, second].Sublist elements → isAhead second first = true →
    isAhead first second = false →
    ∃ between, isAhead first between = true ∧ [first, between, second].Sublist elements

theorem IsArranged.place {elements : List α} (h : IsArranged isAhead elements) (a : α) :
    IsArranged isAhead (place isAhead a elements) := by
  obtain ⟨front, back, rfl, hplace, hfront, hback⟩ := exists_place isAhead a elements
  rw [hplace]
  intro first second hpair hahead hnot
  have hwhole : (front ++ back).Sublist (front ++ a :: back) :=
    (List.sublist_cons_self a back).append_left front
  by_cases hold : [first, second].Sublist (front ++ back)
  · obtain ⟨between, hbetween, hsublist⟩ := h first second hold hahead hnot
    exact ⟨between, hbetween, hsublist.trans hwhole⟩
  -- the element that has been placed is one of the two
  obtain ⟨before, after, heq, hbefore, hafter⟩ := List.sublist_append_iff.mp hpair
  obtain hafter | ⟨rest, rfl, hrest⟩ := List.sublist_cons_iff.mp hafter
  · exact absurd (heq ▸ hbefore.append hafter) hold
  rcases before with _ | ⟨other, _ | ⟨_, _⟩⟩
  · obtain ⟨rfl, rfl⟩ : first = a ∧ [second] = rest := by simpa using heq
    -- it stands right before one that it belongs ahead of, which is not `second`
    have hmem : second ∈ back := List.singleton_sublist.mp hrest
    rcases back with _ | ⟨b, back⟩
    · cases hmem
    have hb := hback b rfl
    have hmem : second ∈ back := by
      rcases List.mem_cons.mp hmem with rfl | hmem
      · rw [hnot] at hb
        cases hb
      · exact hmem
    refine ⟨b, hb, ?_⟩
    have htail : [first, b, second].Sublist (first :: b :: back) :=
      ((List.singleton_sublist.mpr hmem).cons_cons b).cons_cons first
    exact htail.trans (List.sublist_append_right front _)
  · obtain ⟨rfl, rfl, rfl⟩ : first = other ∧ second = a ∧ rest = [] := by simpa using heq
    have hmem : first ∈ front := List.singleton_sublist.mp hbefore
    rw [hfront first hmem] at hahead
    cases hahead
  · simp at heq

theorem arrange_isArranged (isAhead : α → α → Bool) (elements : List α) :
    IsArranged isAhead (arrange isAhead elements) := by
  induction elements using List.reverseRecOn with
  | nil =>
    intro first second hpair
    cases hpair
  | append_singleton elements a ih =>
    rw [arrange_concat]
    exact ih.place a

end Arrange

/-! ## Ranking -/

section Sorted

variable {results : List Highlighted}

/-- In a sorted list, what is relevant enough comes first. -/
theorem sorted_eq {p : Highlighted → Bool}
    (hp : ∀ first second, second.relevance ≤ first.relevance → p second = true → p first = true)
    (h : results.Pairwise fun first second => second.relevance ≤ first.relevance) :
    results = results.filter p ++ results.filter (!p ·) := by
  induction results with
  | nil => rfl
  | cons result results ih =>
    obtain ⟨hle, hrest⟩ := List.pairwise_cons.mp h
    have ih := ih hrest
    by_cases hresult : p result = true
    · simpa [hresult] using ih
    · have hnone : results.filter p = [] := List.filter_eq_nil_iff.mpr fun other hother hpother =>
        hresult (hp result other (hle other hother) hpother)
      rw [hnone, List.nil_append] at ih
      simpa [hresult, hnone] using ih

/-- In a sorted list, the results of one relevance stand behind what is more relevant and before
what is less relevant. -/
theorem exists_eq_tie (h : results.Pairwise fun first second => second.relevance ≤ first.relevance)
    (relevance : Nat) :
    ∃ above below, results = above ++ (results.filter (·.relevance == relevance) ++ below) ∧
      (∀ result ∈ above, relevance < result.relevance) ∧
      ∀ result ∈ below, result.relevance < relevance := by
  have habove := sorted_eq (p := fun result => relevance < result.relevance)
    (by simp only [decide_eq_true_eq]; omega) h
  have hbelow := sorted_eq (p := fun result => relevance ≤ result.relevance)
    (by simp only [decide_eq_true_eq]; omega)
    (h.filter fun result => !decide (relevance < result.relevance))
  have htie : ∀ result : Highlighted,
      (decide (relevance ≤ result.relevance) && !decide (relevance < result.relevance)) =
        (result.relevance == relevance) := by
    intro result
    rw [Bool.eq_iff_iff]
    simp only [Bool.and_eq_true, Bool.not_eq_true', decide_eq_true_eq, decide_eq_false_iff_not,
      beq_iff_eq]
    omega
  rw [List.filter_filter] at hbelow
  simp only [htie] at hbelow
  rw [hbelow] at habove
  refine ⟨_, _, habove, fun result hmem => ?_, fun result hmem => ?_⟩
  · simpa using (List.mem_filter.mp hmem).2
  · simpa using (List.mem_filter.mp hmem).2

end Sorted

/-- Whether the first result comes first when results are sorted. -/
abbrev isFirst (first second : Highlighted) : Bool :=
  second.relevance ≤ first.relevance

theorem isFirst_trans (a b c : Highlighted) (hab : isFirst a b = true) (hbc : isFirst b c = true) :
    isFirst a c = true := by
  simp only [isFirst, decide_eq_true_eq] at hab hbc ⊢
  omega

theorem isFirst_total (a b : Highlighted) : (isFirst a b || isFirst b a) = true := by
  simp only [isFirst, Bool.or_eq_true, decide_eq_true_eq]
  omega

/-- Whether two results are in the same tie. -/
abbrev isTie (first second : Highlighted) : Bool :=
  first.relevance == second.relevance

variable (catalog : Catalog) (results : List Highlighted)

/-- A list of results in which each run of one relevance is rearranged. -/
def arrangeTies : List Highlighted :=
  (results.splitBy isTie).flatMap (arrange (isAhead catalog))

theorem rank_eq : rank catalog results = arrangeTies catalog (results.mergeSort isFirst) :=
  rfl

theorem arrangeTies_perm : (arrangeTies catalog results).Perm results := by
  have hflatten : (results.splitBy isTie).flatMap id = results := by
    rw [← List.flatten_eq_flatMap, List.flatten_splitBy]
  have hperm := List.Perm.flatMap (List.Perm.refl (results.splitBy isTie))
    fun tie _ => arrange_perm (isAhead catalog) tie
  exact hperm.trans (.of_eq hflatten)

/-- Ranking neither adds nor loses results. -/
theorem rank_perm : (rank catalog results).Perm results :=
  (arrangeTies_perm catalog _).trans (List.mergeSort_perm results isFirst)

/-- The results of a tie are of one relevance. -/
theorem map_relevance_tie {tie : List Highlighted} (h : tie ∈ results.splitBy isTie) :
    ∃ relevance, tie.map (·.relevance) = List.replicate tie.length relevance := by
  have hchain := List.isChain_of_mem_splitBy h
  obtain ⟨first, rest, rfl⟩ := List.exists_cons_of_ne_nil (List.ne_nil_of_mem_splitBy h)
  simp only [isTie, beq_iff_eq] at hchain
  have hpairwise : ((first :: rest).map (·.relevance)).Pairwise (· = ·) :=
    ((List.isChain_map _).mpr hchain).pairwise
  refine ⟨first.relevance, List.eq_replicate_iff.mpr ⟨List.length_map _, ?_⟩⟩
  intro relevance hmem
  rcases List.mem_cons.mp hmem with rfl | hmem
  · rfl
  · exact (List.rel_of_pairwise_cons hpairwise hmem).symm

theorem map_relevance_arrangeTies :
    (arrangeTies catalog results).map (·.relevance) = results.map (·.relevance) := by
  have htie : ∀ tie ∈ results.splitBy isTie,
      (arrange (isAhead catalog) tie).map (·.relevance) = tie.map (·.relevance) := by
    intro tie htie
    obtain ⟨relevance, hrelevance⟩ := map_relevance_tie _ htie
    have hperm := (arrange_perm (isAhead catalog) tie).map (·.relevance)
    rw [hrelevance] at hperm ⊢
    exact List.perm_replicate.mp hperm
  calc (arrangeTies catalog results).map (·.relevance)
      = (results.splitBy isTie).flatMap (·.map (·.relevance)) := by
        rw [arrangeTies, List.map_flatMap, List.flatMap_congr htie]
    _ = (results.splitBy isTie).flatten.map (·.relevance) := by
        rw [List.map_flatten, List.flatMap_def]
    _ = results.map (·.relevance) := by rw [List.flatten_splitBy]

/-- Ranking sorts the relevances. -/
theorem map_relevance_rank :
    (rank catalog results).map (·.relevance) =
      (results.map (·.relevance)).mergeSort fun first second => second ≤ first := by
  rw [rank_eq, map_relevance_arrangeTies, List.map_mergeSort]
  intro first _ second _
  rfl

theorem pairwise_rank :
    (rank catalog results).Pairwise fun first second => second.relevance ≤ first.relevance := by
  have hsorted := List.pairwise_mergeSort isFirst_trans isFirst_total results
  have hmap : ((results.mergeSort isFirst).map (·.relevance)).Pairwise (· ≥ ·) :=
    List.pairwise_map.mpr (hsorted.imp fun h => of_decide_eq_true h)
  rw [← map_relevance_arrangeTies catalog, ← rank_eq] at hmap
  exact List.pairwise_map.mp hmap

/-- Results that extend nothing keep the order in which sorting leaves them. -/
theorem filter_arrangeTies {p : Highlighted → Bool}
    (h : ∀ a, p a = true → ∀ b, isAhead catalog a b = false) :
    (arrangeTies catalog results).filter p = results.filter p := by
  calc (arrangeTies catalog results).filter p
      = (results.splitBy isTie).flatMap (·.filter p) := by
        rw [arrangeTies, List.filter_flatMap, List.flatMap_congr fun tie _ => filter_arrange h tie]
    _ = (results.splitBy isTie).flatten.filter p := by rw [List.filter_flatten, List.flatMap_def]
    _ = results.filter p := by rw [List.flatten_splitBy]

/-! ## A tie -/

variable {results}

theorem arrangeTies_append {above below : List Highlighted}
    (h : ∀ first ∈ above, ∀ second ∈ below, first.relevance ≠ second.relevance) :
    arrangeTies catalog (above ++ below) =
      arrangeTies catalog above ++ arrangeTies catalog below := by
  have hsplit : (above ++ below).splitBy isTie = above.splitBy isTie ++ below.splitBy isTie := by
    refine List.splitBy_append fun first hfirst second hsecond => ?_
    exact beq_eq_false_iff_ne.mpr
      (h first (List.mem_of_getLast? hfirst) second (List.mem_of_head? hsecond))
  rw [arrangeTies, hsplit, List.flatMap_append, arrangeTies, arrangeTies]

/-- Results of one relevance are one tie. -/
theorem arrangeTies_eq {relevance : Nat} (h : ∀ result ∈ results, result.relevance = relevance) :
    arrangeTies catalog results = arrange (isAhead catalog) results := by
  rcases results with _ | ⟨first, rest⟩
  · rfl
  have htie : (first :: rest).Pairwise fun first second => isTie first second = true := by
    refine List.pairwise_of_forall_mem_list fun first hfirst second hsecond => ?_
    rw [isTie, h first hfirst, h second hsecond, beq_self_eq_true]
  rw [arrangeTies, List.splitBy_of_isChain (List.cons_ne_nil _ _) htie.isChain]
  simp

theorem filter_arrangeTies_eq_nil {p : Highlighted → Bool}
    (h : ∀ result ∈ results, p result = false) : (arrangeTies catalog results).filter p = [] := by
  refine List.filter_eq_nil_iff.mpr fun result hmem => ?_
  rw [h result ((arrangeTies_perm catalog results).mem_iff.mp hmem)]
  exact Bool.false_ne_true

variable (results)

/-- Sorting keeps the order of each tie. -/
theorem filter_sorted (relevance : Nat) :
    (results.mergeSort isFirst).filter (·.relevance == relevance) =
      results.filter (·.relevance == relevance) := by
  have htie : (results.filter (·.relevance == relevance)).Pairwise
      fun first second => isFirst first second = true := by
    refine List.pairwise_of_forall_mem_list fun first hfirst second hsecond => ?_
    have hfirst := beq_iff_eq.mp (List.mem_filter.mp hfirst).2
    have hsecond := beq_iff_eq.mp (List.mem_filter.mp hsecond).2
    simp [isFirst, hfirst, hsecond]
  have hsublist := (List.sublist_mergeSort isFirst_trans isFirst_total htie
    List.filter_sublist).filter (·.relevance == relevance)
  rw [List.filter_filter] at hsublist
  simp only [Bool.and_self] at hsublist
  have hperm := (List.mergeSort_perm results isFirst).filter (·.relevance == relevance)
  exact (hsublist.eq_of_length hperm.length_eq.symm).symm

/-- The results of one relevance are ranked as if they were the only ones. -/
theorem filter_rank (relevance : Nat) :
    (rank catalog results).filter (·.relevance == relevance) =
      arrange (isAhead catalog) (results.filter (·.relevance == relevance)) := by
  have hsorted := (List.pairwise_mergeSort isFirst_trans isFirst_total results).imp
    fun h => of_decide_eq_true h
  obtain ⟨above, below, hsplit, habove, hbelow⟩ := exists_eq_tie hsorted relevance
  rw [filter_sorted] at hsplit
  generalize htie : results.filter (·.relevance == relevance) = tie at hsplit
  have hrelevance : ∀ result ∈ tie, result.relevance = relevance := by
    intro result hmem
    rw [← htie] at hmem
    exact beq_iff_eq.mp (List.mem_filter.mp hmem).2
  have habove_ne : ∀ first ∈ above, ∀ second ∈ tie ++ below,
      first.relevance ≠ second.relevance := by
    intro first hfirst second hsecond
    have := habove first hfirst
    rcases List.mem_append.mp hsecond with hsecond | hsecond
    · have := hrelevance second hsecond
      omega
    · have := hbelow second hsecond
      omega
  have hbelow_ne : ∀ first ∈ tie, ∀ second ∈ below, first.relevance ≠ second.relevance := by
    intro first hfirst second hsecond
    have := hrelevance first hfirst
    have := hbelow second hsecond
    omega
  rw [rank_eq, hsplit, arrangeTies_append catalog habove_ne, arrangeTies_append catalog hbelow_ne,
    arrangeTies_eq catalog hrelevance, List.filter_append, List.filter_append]
  have habove_nil : (arrangeTies catalog above).filter (·.relevance == relevance) = [] :=
    filter_arrangeTies_eq_nil catalog fun result hmem =>
      beq_eq_false_iff_ne.mpr (habove result hmem).ne'
  have hbelow_nil : (arrangeTies catalog below).filter (·.relevance == relevance) = [] :=
    filter_arrangeTies_eq_nil catalog fun result hmem =>
      beq_eq_false_iff_ne.mpr (hbelow result hmem).ne
  have htie_self : (arrange (isAhead catalog) tie).filter (·.relevance == relevance) =
      arrange (isAhead catalog) tie := by
    refine List.filter_eq_self.mpr fun result hmem => beq_iff_eq.mpr ?_
    exact hrelevance result ((arrange_perm _ tie).mem_iff.mp hmem)
  rw [habove_nil, hbelow_nil, htie_self, List.nil_append, List.append_nil]

/-- Results that are all of one relevance are only rearranged. -/
theorem rank_of_relevance {relevance : Nat}
    (h : ∀ result ∈ results, result.relevance = relevance) :
    rank catalog results = arrange (isAhead catalog) results := by
  have hfilter : results.filter (·.relevance == relevance) = results :=
    List.filter_eq_self.mpr fun result hmem => beq_iff_eq.mpr (h result hmem)
  have hrank := filter_rank catalog results relevance
  rw [hfilter, List.filter_eq_self.mpr] at hrank
  · exact hrank
  · intro result hmem
    exact beq_iff_eq.mpr (h result ((rank_perm catalog results).mem_iff.mp hmem))

/-! ## The order of a tie -/

end Rank

namespace Catalog

/-- What the language that a name leads to declares to extend. -/
def base? (catalog : Catalog) (name : String) : Option String := do
  let (_, language) ← catalog.find? name
  language.grammar.supersetOf

/-- A language extends what it declares to extend, and what this extends in turn. -/
def Extends (catalog : Catalog) : String → String → Prop :=
  Relation.TransGen fun language base => catalog.isExtension language base = true

theorem isExtension_iff {catalog : Catalog} {language base : String} :
    catalog.isExtension language base = true ↔
      ∃ declared, catalog.base? language = some declared ∧
        declared.map Char.toLower = base.map Char.toLower := by
  unfold isExtension base?
  cases catalog.find? language with
  | none => simp
  | some found =>
    obtain ⟨key, entry⟩ := found
    cases h : entry.grammar.supersetOf with
    | none => simp [h]
    | some declared => simp [h]

end Catalog

namespace Rank

/-- Only a result whose language declares to extend another one moves ahead. -/
theorem isAhead_eq_false {catalog : Catalog} {result : Highlighted}
    (h : result.language.bind catalog.base? = none) (other : Highlighted) :
    isAhead catalog result other = false := by
  rw [← Bool.not_eq_true]
  intro hahead
  unfold isAhead at hahead
  split at hahead
  · next language base hlanguage hbase =>
    rw [hlanguage, Option.bind_some] at h
    obtain ⟨declared, hdeclared, -⟩ := Catalog.isExtension_iff.mp hahead
    rw [h] at hdeclared
    cases hdeclared
  · cases hahead

/-- Ranking gives back the results, the most relevant first. Results whose languages declare to
extend nothing keep their order where it is one by relevance. In a tie, a result comes before one
that its language is extended by only where it has itself been moved ahead of a result between the
two; so an extension comes before what it extends wherever this extends nothing in the tie. -/
theorem rank_breaks_ties (catalog : Catalog) (results : List Highlighted) :
    (rank catalog results).Perm results ∧
      ((rank catalog results).Pairwise fun first second => second.relevance ≤ first.relevance) ∧
      (∀ kept : List Highlighted, kept.Sublist results →
        (kept.Pairwise fun first second => second.relevance ≤ first.relevance) →
        (∀ result ∈ kept, result.language.bind catalog.base? = none) →
        kept.Sublist (rank catalog results)) ∧
      ∀ base extension, [base, extension].Sublist (rank catalog results) →
        base.relevance = extension.relevance → isAhead catalog extension base = true →
        isAhead catalog base extension = false →
        ∃ between, isAhead catalog base between = true ∧
          [base, between, extension].Sublist (rank catalog results) := by
  refine ⟨rank_perm catalog results, pairwise_rank catalog results, ?_, ?_⟩
  · intro kept hkept hsorted hnone
    have hrank := filter_arrangeTies catalog (results.mergeSort isFirst) fun result hresult =>
      isAhead_eq_false (Option.isNone_iff_eq_none.mp hresult)
    have hsublist := (List.sublist_mergeSort isFirst_trans isFirst_total
      (hsorted.imp fun h => decide_eq_true h) hkept).filter
        fun result => (result.language.bind catalog.base?).isNone
    rw [← hrank, ← rank_eq] at hsublist
    have hself : kept.filter (fun result => (result.language.bind catalog.base?).isNone) = kept :=
      List.filter_eq_self.mpr fun result hmem => Option.isNone_iff_eq_none.mpr (hnone result hmem)
    rw [hself] at hsublist
    exact hsublist.trans List.filter_sublist
  · intro base extension hpair htie hahead hnot
    have htied := hpair.filter fun result => result.relevance == base.relevance
    have hself : [base, extension].filter (fun result => result.relevance == base.relevance) =
        [base, extension] := by
      simp [htie]
    rw [hself, filter_rank] at htied
    obtain ⟨between, hbetween, hplaced⟩ :=
      arrange_isArranged _ _ base extension htied hahead hnot
    rw [← filter_rank] at hplaced
    exact ⟨between, hbetween, hplaced.trans List.filter_sublist⟩

/-- A grammar without rules. -/
def bareGrammar (name : String) (base : Option String) : Grammar where
  name := name
  supersetOf := base
  root := .of {} []

/-- A registry of three languages, where `c` extends `b` and `b` extends `a`. -/
def tower : Registry :=
  ((Registry.empty.registerAll
    [bareGrammar "a" none, bareGrammar "c" (some "b"), bareGrammar "b" (some "a")]).run {}).1

/-- Results of one relevance, one for each language of the tower. -/
def towerResults : List Highlighted :=
  ["a", "c", "b"].map fun name => { Highlighted.plain (some name) "int" "" with relevance := 1 }

theorem relevance_towerResults : ∀ result ∈ towerResults, result.relevance = 1 := by
  decide +kernel

theorem languages_rank_tower :
    (rank tower.catalog towerResults).map (·.language) = [some "b", some "a", some "c"] := by
  rw [rank_of_relevance _ _ relevance_towerResults]
  decide +kernel

/-- In the tower, `b` stands before its extension `c`, since it has been moved ahead of `a`. -/
theorem rank_breaks_ties_tower :
    ∃ base between extension : Highlighted,
      base.language = some "b" ∧ extension.language = some "c" ∧
      isAhead tower.catalog base between = true ∧
      [base, between, extension].Sublist (rank tower.catalog towerResults) := by
  obtain ⟨hperm, -, -, hties⟩ := rank_breaks_ties tower.catalog towerResults
  obtain ⟨base, rest, hrank, hbase, hrest⟩ := List.map_eq_cons_iff.mp languages_rank_tower
  obtain ⟨other, rest, rfl, -, hrest⟩ := List.map_eq_cons_iff.mp hrest
  obtain ⟨extension, rfl, hextension⟩ := List.map_eq_singleton_iff.mp hrest
  have hrelevance : ∀ result ∈ rank tower.catalog towerResults, result.relevance = 1 :=
    fun result hmem => relevance_towerResults result (hperm.mem_iff.mp hmem)
  have hpair : [base, extension].Sublist (rank tower.catalog towerResults) := by
    rw [hrank]
    exact (List.sublist_cons_self other [extension]).cons_cons base
  have htie : base.relevance = extension.relevance := by
    rw [hrelevance base (hpair.subset (by simp)), hrelevance extension (hpair.subset (by simp))]
  have hahead : isAhead tower.catalog extension base = true := by
    simp only [isAhead, hbase, hextension]
    decide +kernel
  have hnot : isAhead tower.catalog base extension = false := by
    simp only [isAhead, hbase, hextension]
    decide +kernel
  obtain ⟨between, hbetween, hplaced⟩ := hties base extension hpair htie hahead hnot
  exact ⟨base, between, extension, hbase, hextension, hbetween, hplaced⟩

theorem eq_of_map_toLower {name : String} (h : "a".map Char.toLower = name.map Char.toLower) :
    name = "a" ∨ name = "A" := by
  have hchars := congrArg String.toList h
  rw [String.toList_map, String.toList_map] at hchars
  obtain ⟨c, hname, hc⟩ := List.map_eq_singleton_iff.mp hchars.symm
  have hcases : c = 'a' ∨ c = 'A' := by
    unfold Char.toLower at hc
    split at hc
    · have hval : c.val + ('a'.val - 'A'.val) = 'A'.val + ('a'.val - 'A'.val) :=
        congrArg Char.val hc
      exact .inr (Char.ext ((UInt32.add_left_inj _).mp hval))
    · exact .inl hc
  rcases hcases with rfl | rfl
  · exact .inl (String.toList_injective hname)
  · exact .inr (String.toList_injective hname)

/-- In the tower, `b` extends `a` and nothing else. -/
theorem not_extends_tower : ¬ tower.catalog.Extends "b" "c" := by
  intro hextends
  obtain ⟨next, hnext, hrest⟩ := Relation.TransGen.head'_iff.mp hextends
  obtain ⟨declared, hdeclared, hsame⟩ := Catalog.isExtension_iff.mp hnext
  have hbase : tower.catalog.base? "b" = some "a" := by decide +kernel
  rw [hbase] at hdeclared
  cases hdeclared
  have hname := eq_of_map_toLower hsame
  obtain rfl | ⟨further, hfurther, -⟩ := Relation.ReflTransGen.cases_head hrest
  · have hne : ¬ ("c" = "a" ∨ "c" = "A") := by decide +kernel
    exact hne hname
  · obtain ⟨declared, hdeclared, -⟩ := Catalog.isExtension_iff.mp hfurther
    have hnone : tower.catalog.base? next = none := by
      rcases hname with rfl | rfl
      · decide +kernel
      · decide +kernel
    rw [hnone] at hdeclared
    cases hdeclared

/-- The language `c`, which extends `b`, is ranked behind it: `b` comes last and moves ahead of `a`,
and so ahead of `c`. -/
theorem rank_overtaken :
    towerResults.map (·.language) = [some "a", some "c", some "b"] ∧
      (∀ result ∈ towerResults, result.relevance = 1) ∧
      tower.catalog.isExtension "c" "b" = true ∧ ¬ tower.catalog.Extends "b" "c" ∧
      (rank tower.catalog towerResults).map (·.language) = [some "b", some "a", some "c"] :=
  ⟨by decide +kernel, relevance_towerResults, by decide +kernel, not_extends_tower,
    languages_rank_tower⟩

end Highlighter.Rank
