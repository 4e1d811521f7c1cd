import Highlighter.Proofs.Registry.Safety
import Highlighter.Proofs.Registry.Sharing

/-!
# Detection

Detection gives the best of what the candidates score, each of which scans the text for itself.
Plain text, which scores nothing, stands first among the results without a score, so that the best
result has a language just where some candidate scores.
-/

namespace Highlighter

namespace Scan

variable {env : Env} {nested : Nested} {frames : List Frame} {before after : Trace}
  {result : Highlighted}

theorem run_language (h : Gives (run env nested frames) before (.ok result) after) :
    result.language = some env.language := by
  obtain ⟨stopped, _, _, hrest⟩ := gives_bind_iff.mp h
  split at hrest
  · cases (gives_pure_iff.mp hrest).1
  · obtain ⟨flushed, _, _, hrest⟩ := gives_bind_iff.mp hrest
    split at hrest
    · cases (gives_pure_iff.mp hrest).1
    · cases (gives_pure_iff.mp hrest).1
      rfl

/-- The result of a scan names the language, also where the scan has been given up. -/
theorem highlight_language (h : Returns (highlight env nested frames) before result after) :
    result.language = some env.language := by
  rw [highlight_eq] at h
  obtain ⟨outcome, between, hrun, hsettle⟩ := returns_bind_iff.mp h
  cases outcome with
  | ok stopped =>
    obtain ⟨rfl, -⟩ := returns_pure_iff.mp hsettle
    exact run_language (returns_lift_iff.mp hrun)
  | error failure =>
    obtain ⟨fault, active⟩ := failure
    simp only [settle, throw_bind] at hsettle
    split at hsettle
    · exact absurd hsettle not_returns_throw
    cases fault with
    | illegalToken context =>
      obtain ⟨rfl, -⟩ := returns_pure_iff.mp hsettle
      rfl
    | engine language cause rule =>
      obtain ⟨_, _, _, hpure⟩ := returns_bind_iff.mp hsettle
      obtain ⟨rfl, -⟩ := returns_pure_iff.mp hpure
      rfl
    | _ => exact absurd hsettle not_returns_throw

end Scan

/-! ## Plain text among the results -/

namespace Rank

variable {catalog : Catalog} {plain best result : Highlighted} {results rest : List Highlighted}

/-- What is ranked first is one of the results. -/
theorem mem_of_rank (hrank : rank catalog results = best :: rest) : best ∈ results := by
  rw [← (rank_perm catalog results).mem_iff, hrank]
  exact List.mem_cons_self

/-- What is ranked first has the greatest relevance. -/
theorem relevance_le_of_rank (hrank : rank catalog results = best :: rest)
    (hresult : result ∈ results) : result.relevance ≤ best.relevance := by
  have hsorted := pairwise_rank catalog results
  rw [← (rank_perm catalog results).mem_iff, hrank] at hresult
  rw [hrank] at hsorted
  rcases List.mem_cons.mp hresult with rfl | hresult
  · exact Nat.le_refl _
  · exact List.rel_of_pairwise_cons hsorted hresult

theorem max?_relevance (hrank : rank catalog results = best :: rest) :
    (results.map (·.relevance)).max? = some best.relevance := by
  refine List.max?_eq_some_iff.mpr ⟨List.mem_map_of_mem (mem_of_rank hrank), ?_⟩
  intro relevance hrelevance
  obtain ⟨result, hresult, rfl⟩ := List.mem_map.mp hrelevance
  exact relevance_le_of_rank hrank hresult

/-- Where plain text is ranked with results that have languages, it comes first only among results
without a score, and there always. -/
theorem language_best_eq_none_iff (hplain : plain.language = none) (hzero : plain.relevance = 0)
    (hlanguage : ∀ result ∈ results, result.language.isSome = true)
    (hrank : rank catalog (plain :: results) = best :: rest) :
    best.language = none ↔ ∀ result ∈ results, result.relevance = 0 := by
  constructor
  · intro hnone
    have hbest : best = plain := by
      rcases List.mem_cons.mp (mem_of_rank hrank) with heq | hmem
      · exact heq
      · have hsome := hlanguage best hmem
        rw [hnone] at hsome
        cases hsome
    intro result hresult
    have hle := relevance_le_of_rank hrank (List.mem_cons_of_mem plain hresult)
    rw [hbest, hzero] at hle
    exact Nat.le_zero.mp hle
  · intro hnone
    -- nothing is ahead of plain text in the only tie
    have hahead : ∀ result, isAhead catalog result plain = false := by
      intro result
      unfold isAhead
      rw [hplain]
      cases result.language with
      | none => rfl
      | some language => rfl
    have hall : ∀ result ∈ plain :: results, result.relevance = 0 :=
      List.forall_mem_cons.mpr ⟨hzero, hnone⟩
    have hhead := head?_arrange hahead results
    rw [← rank_of_relevance catalog _ hall, hrank] at hhead
    cases hhead
    exact hplain

end Rank

namespace Workshop

variable {workshop : Workshop} {name code : String} {options : Scan.Options} {before after : Trace}
  {result : Highlighted}

theorem highlight_language
    (h : Returns (workshop.highlight name code options) before result after) :
    result.language.isSome = true := by
  unfold highlight at h
  generalize workshop.depth code = depth at h
  cases depth with
  | zero => exact absurd h not_returns_throw
  | succ depth =>
    obtain ⟨key, language, _, _, hscan⟩ := highlightWithin_succ h
    rw [Scan.highlight_language hscan]
    rfl

/-- What a candidate scores that scans a text for itself: the relevance of its result. -/
def score (workshop : Workshop) (code name : String) : Nat :=
  match ((workshop.highlight name code ⟨false, true⟩).run.run {}).1 with
  | .ok result => result.relevance
  | .error _ => 0

/-- The scores of the candidates that take part, one for each time that they are listed. -/
def scores (workshop : Workshop) (code : String) (asked : Option (List String)) : List Nat :=
  ((workshop.candidates asked).filter workshop.catalog.takesPart).map (workshop.score code)

/-- A candidate scores the same whatever has happened before. -/
theorem score_eq (h : Returns (workshop.highlight name code ⟨false, true⟩) before result after) :
    workshop.score code name = result.relevance := by
  have hagree := highlight_agree workshop.alike_self name code ⟨false, true⟩ {} before
  rw [show _ = _ from h] at hagree
  unfold score
  generalize ((workshop.highlight name code ⟨false, true⟩).run.run {}).1 = outcome at hagree ⊢
  cases hagree with
  | ok hsame => exact (congrArg Highlighted.relevance hsame.1 :)
  | excused hlenient => cases hlenient

/-- A candidate that takes part has a result, with the score of the candidate. -/
theorem exists_scored (hpart : workshop.catalog.takesPart name = true) (started : Trace) :
    ∃ result ended, Returns (workshop.highlight name code ⟨false, true⟩) started result ended ∧
      result.relevance = workshop.score code name ∧ result.Recovers code := by
  obtain ⟨result, ended, hresult, hrecovers⟩ :=
    @highlight_safe workshop name code ⟨false, true⟩ (Catalog.find?_of_takesPart hpart) rfl started
  exact ⟨result, ended, hresult, (score_eq hresult).symm, hrecovers⟩

/-- The candidates that take part give one result each, in their order, with their scores. -/
theorem tryAll_scores {names : List String} {results : List Highlighted}
    (h : Gives (workshop.tryAll (workshop.highlightWithin (workshop.depth code)) code names) before
      results after) :
    results.map (·.relevance) =
        (names.filter workshop.catalog.takesPart).map (workshop.score code) ∧
      ∀ result ∈ results, result.language.isSome = true := by
  obtain ⟨complete, _, hcomplete, hall⟩ := tryAll_complete
    (fun name _ hpart started => by
      obtain ⟨result, ended, hresult, -⟩ := @exists_scored workshop name code hpart started
      exact ⟨result, ended, hresult⟩) before
  obtain ⟨rfl, -⟩ := Prod.mk.inj (hcomplete.symm.trans h)
  clear h hcomplete
  generalize names.filter workshop.catalog.takesPart = listed at hall ⊢
  induction hall with
  | nil => exact ⟨rfl, List.forall_mem_nil _⟩
  | cons hresult _ ih =>
    obtain ⟨started, ended, hresult⟩ := hresult
    rw [List.map_cons, List.map_cons, ih.1, score_eq hresult]
    exact ⟨rfl, List.forall_mem_cons.mpr ⟨highlight_language hresult, ih.2⟩⟩

end Workshop

namespace Registry

variable (registry : Registry) (code : String) (asked : Option (List String)) (before : Trace)

end Registry

end Highlighter
