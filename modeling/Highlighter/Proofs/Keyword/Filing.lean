import Highlighter.Proofs.Keyword.Table

/-!
# Words that are filed under categories

Filing words under a category puts them in the place of what stood under it: the words of another
category stay, and those of the same category are gone. So of a set of keywords and the texts that
are filed one after the other, the table knows the words of the last text of every category, and the
words of the set in the categories under which nothing has been filed.
-/

namespace Highlighter

namespace KeywordSet

/-- The outermost category around an occurrence, which is the default one where there is none. -/
def Occurrence.outermost (occurrence : Occurrence) : String :=
  occurrence.path.head?.getD defaultCategory

/-- A word, as it is written, stands somewhere under an outermost category of a set. -/
def Holds (set : KeywordSet) (category raw : String) : Prop :=
  ∃ occurrence, set.Lists occurrence ∧ occurrence.outermost = category ∧ occurrence.raw = raw

theorem mem_insert_iff {key name : String} {value set : KeywordSet}
    {entries : List (String × KeywordSet)} (h : (entries.map (·.1)).Pairwise (· < ·)) :
    (name, set) ∈ SortedEntries.insert key value entries ↔
      (name = key ∧ set = value) ∨ (name ≠ key ∧ (name, set) ∈ entries) := by
  induction entries with
  | nil => simp [SortedEntries.insert]
  | cons entry entries ih =>
    obtain ⟨other, old⟩ := entry
    obtain ⟨hfirst, hrest⟩ := List.pairwise_cons.mp h
    have hlater : ∀ {name set}, (name, set) ∈ entries → other < name := fun hmem =>
      hfirst _ (List.mem_map_of_mem hmem)
    rw [SortedEntries.insert]
    split
    · next hlt =>
      have hne : ∀ {name set}, (name, set) ∈ (other, old) :: entries → name ≠ key := by
        intro name set hmem heq
        rcases List.mem_cons.mp hmem with hmem | hmem
        · cases hmem
          exact lt_irrefl _ (heq ▸ hlt)
        · exact lt_irrefl _ (heq ▸ lt_trans hlt (hlater hmem))
      rw [List.mem_cons, Prod.mk.injEq]
      exact or_congr_right ⟨fun hmem => ⟨hne hmem, hmem⟩, And.right⟩
    · next hle =>
      split
      · next hlt =>
        rw [List.mem_cons, List.mem_cons, ih hrest, Prod.mk.injEq]
        constructor
        · rintro (⟨rfl, rfl⟩ | hmem | ⟨hne, hmem⟩)
          · exact .inr ⟨hlt.ne, .inl ⟨rfl, rfl⟩⟩
          · exact .inl hmem
          · exact .inr ⟨hne, .inr hmem⟩
        · rintro (hmem | ⟨hne, hmem | hmem⟩)
          · exact .inr (.inl hmem)
          · exact .inl hmem
          · exact .inr (.inr ⟨hne, hmem⟩)
      · next hge =>
        obtain rfl := le_antisymm (not_lt.mp hge) (not_lt.mp hle)
        have hne : ∀ {name set}, (name, set) ∈ entries → name ≠ key := fun hmem heq =>
          lt_irrefl _ (heq ▸ hlater hmem)
        rw [List.mem_cons, List.mem_cons, Prod.mk.injEq, Prod.mk.injEq]
        constructor
        · rintro (hmem | hmem)
          · exact .inl hmem
          · exact .inr ⟨hne hmem, .inr hmem⟩
        · rintro (hmem | ⟨hne, hmem | hmem⟩)
          · exact .inl hmem
          · exact absurd hmem.1 hne
          · exact .inr hmem

theorem holds_words {text category raw : String} :
    (KeywordSet.words text).Holds category raw ↔
      category = defaultCategory ∧ raw ∈ Text.words text := by
  constructor
  · rintro ⟨_, ⟨hraw⟩, rfl, rfl⟩
    exact ⟨rfl, List.mem_of_getElem? hraw⟩
  · rintro ⟨rfl, hmem⟩
    obtain ⟨place, hplace⟩ := List.getElem?_of_mem hmem
    exact ⟨_, .words hplace, rfl, rfl⟩

/-- Under a category of a set stands what the set of that category lists. -/
theorem holds_categories {entries : List (String × KeywordSet)} {category raw : String} :
    (KeywordSet.categories entries).Holds category raw ↔
      ∃ set, (category, set) ∈ entries ∧ ∃ inner, set.Holds inner raw := by
  constructor
  · rintro ⟨_, hlists, rfl, rfl⟩
    cases hlists with
    | category hentry hlists => exact ⟨_, hentry, _, _, hlists, rfl, rfl⟩
  · rintro ⟨set, hentry, _, occurrence, hlists, rfl, rfl⟩
    exact ⟨_, .category hentry hlists, rfl, rfl⟩

/-- A set without categories is a default category. -/
theorem holds_of_no_categories {set : KeywordSet} {category raw : String}
    (hset : ∀ entries, set ≠ .categories entries) :
    (KeywordSet.categories [(defaultCategory, set)]).Holds category raw ↔
      set.Holds category raw := by
  have hdefault : ∀ {occurrence}, set.Lists occurrence →
      occurrence.outermost = defaultCategory := by
    rintro _ (_ | _ | _)
    · rfl
    · rfl
    · exact absurd rfl (hset _)
  rw [holds_categories]
  constructor
  · rintro ⟨_, hentry, _, occurrence, hlists, rfl, rfl⟩
    cases List.mem_singleton.mp hentry
    exact ⟨occurrence, hlists, hdefault hlists, rfl⟩
  · rintro ⟨occurrence, hlists, rfl, rfl⟩
    exact ⟨set, by rw [hdefault hlists]; exact List.mem_singleton_self _, _, occurrence, hlists,
      rfl, rfl⟩

theorem holds_insert {entries : List (String × KeywordSet)}
    (hordered : (entries.map (·.1)).Pairwise (· < ·)) {name text category raw : String} :
    (categories (SortedEntries.insert name (.words text) entries)).Holds category raw ↔
      if category = name then raw ∈ Text.words text
      else (categories entries).Holds category raw := by
  rw [holds_categories, holds_categories]
  simp only [mem_insert_iff hordered]
  split
  · next heq =>
    constructor
    · rintro ⟨_, ⟨-, rfl⟩ | ⟨hne, -⟩, _, hholds⟩
      · exact (holds_words.mp hholds).2
      · exact absurd heq hne
    · exact fun hmem => ⟨_, .inl ⟨heq, rfl⟩, _, holds_words.mpr ⟨rfl, hmem⟩⟩
  · next hne =>
    constructor
    · rintro ⟨set, ⟨heq, -⟩ | ⟨-, hentry⟩, hholds⟩
      · exact absurd heq hne
      · exact ⟨set, hentry, hholds⟩
    · rintro ⟨set, hentry, hholds⟩
      exact ⟨set, .inr ⟨hne, hentry⟩, hholds⟩

/-- What is filed under a category takes the place of what stood there, and leaves what stands under
the other ones. -/
theorem holds_withCategory {set : KeywordSet} (hset : set.InOrder)
    {name text category raw : String} :
    (set.withCategory name text).Holds category raw ↔
      if category = name then raw ∈ Text.words text else set.Holds category raw := by
  cases set with
  | categories entries =>
    simp only [InOrder] at hset
    exact holds_insert hset.1
  | words other =>
    rw [← @holds_of_no_categories (.words other) category raw (fun _ => KeywordSet.noConfusion)]
    exact holds_insert (List.pairwise_singleton _ _)
  | list items =>
    rw [← @holds_of_no_categories (.list items) category raw (fun _ => KeywordSet.noConfusion)]
    exact holds_insert (List.pairwise_singleton _ _)

end KeywordSet

namespace Keywords

/-- Files texts under categories, one after the other. -/
def fileAll (keywords : Keywords) (filings : List (String × String)) : Keywords :=
  filings.foldl (fun keywords (name, text) => keywords.category name text) keywords

/-- What stands in a set after texts have been filed: what stood there in a category under which
nothing has been filed, and the last text of every category. -/
inductive Keeps (keywords : Keywords) (filings : List (String × String)) :
    KeywordSet.Occurrence → Prop where
  | old {occurrence : KeywordSet.Occurrence} (h : keywords.set.Lists occurrence)
      (hapart : occurrence.outermost ∉ filings.map (·.1)) : Keeps keywords filings occurrence
  | filed {before after : List (String × String)} {name text : String}
      {occurrence : KeywordSet.Occurrence} (hfilings : filings = before ++ (name, text) :: after)
      (hlast : name ∉ after.map (·.1)) (h : (KeywordSet.words text).Lists occurrence) :
      Keeps keywords filings occurrence

theorem fileAll_concat (keywords : Keywords) (filings : List (String × String))
    (name text : String) :
    (keywords.fileAll (filings ++ [(name, text)])).set =
      (keywords.fileAll filings).set.withCategory name text := by
  rw [fileAll, List.foldl_append]
  rfl

theorem inOrder_fileAll {keywords : Keywords} (h : keywords.set.InOrder)
    (filings : List (String × String)) : (keywords.fileAll filings).set.InOrder := by
  induction filings using List.reverseRecOn with
  | nil => exact h
  | append_singleton filings filing ih =>
    rw [fileAll_concat]
    exact ih.withCategory _ _

/-- Under a category stands the text that has been filed under it last, or what has stood there from
the start. -/
theorem holds_fileAll {keywords : Keywords} (h : keywords.set.InOrder)
    (filings : List (String × String)) {category raw : String} :
    (keywords.fileAll filings).set.Holds category raw ↔
      match filings.reverse.lookup category with
      | some text => raw ∈ Text.words text
      | none => keywords.set.Holds category raw := by
  induction filings using List.reverseRecOn with
  | nil => rfl
  | append_singleton filings filing ih =>
    obtain ⟨name, text⟩ := filing
    rw [fileAll_concat, KeywordSet.holds_withCategory (inOrder_fileAll h filings),
      List.reverse_append, List.reverse_singleton, List.singleton_append, List.lookup_cons]
    by_cases heq : category = name
    · simp [heq]
    · rw [if_neg heq, ih, beq_false_of_ne heq]

theorem lookup_reverse_eq_some_iff {filings : List (String × String)} {name text : String} :
    filings.reverse.lookup name = some text ↔
      ∃ before after, filings = before ++ (name, text) :: after ∧ name ∉ after.map (·.1) := by
  rw [List.lookup_eq_some_iff]
  constructor
  · rintro ⟨after, before, hfilings, hafter⟩
    refine ⟨before.reverse, after.reverse, ?_, fun hmem => ?_⟩
    · rw [← List.reverse_reverse filings, hfilings]
      simp
    · obtain ⟨filing, hfiling, rfl⟩ := List.mem_map.mp hmem
      simpa using hafter filing (List.mem_reverse.mp hfiling)
  · rintro ⟨before, after, rfl, hafter⟩
    refine ⟨after.reverse, before.reverse, by simp, fun filing hfiling => ?_⟩
    refine bne_iff_ne.mpr fun heq => hafter ?_
    exact List.mem_map.mpr ⟨filing, List.mem_reverse.mp hfiling, heq.symm⟩

theorem lookup_reverse_eq_none_iff {filings : List (String × String)} {name : String} :
    filings.reverse.lookup name = none ↔ name ∉ filings.map (·.1) := by
  rw [List.lookup_eq_none_iff]
  simp only [List.mem_reverse, bne_iff_ne, List.mem_map, not_exists, not_and]
  exact forall₂_congr fun filing _ => ne_comm

end Keywords

namespace KeywordTable

open KeywordSet (Occurrence)

/-- A table knows the words in its set that are not empty. -/
theorem isSome_get?_ofSet_iff {set : KeywordSet} {ignoreCase : Bool} {word : String} :
    ((ofSet set ignoreCase).get? word).isSome = true ↔
      word ≠ "" ∧ ∃ occurrence, set.Lists occurrence ∧ occurrence.word ignoreCase = word := by
  rw [ofSet, addSet_eq]
  by_cases hword : word = ""
  · subst hword
    rw [get?_empty_foldl]
    simp
  · rw [get?_foldl ignoreCase _ hword]
    simp [hword, KeywordSet.mem_occurrences]

/-- The word of an occurrence is read off what is written there, wherever it stands. -/
theorem word_eq (ignoreCase : Bool) (occurrence : Occurrence) :
    occurrence.word ignoreCase = (readWord ignoreCase occurrence.raw).1 := by
  rw [readWord_raw]

theorem isSome_get?_ofSet_iff_holds {set : KeywordSet} {ignoreCase : Bool} {word : String} :
    ((ofSet set ignoreCase).get? word).isSome = true ↔
      word ≠ "" ∧ ∃ category raw, set.Holds category raw ∧ (readWord ignoreCase raw).1 = word := by
  rw [isSome_get?_ofSet_iff]
  refine and_congr_right fun _ => ⟨?_, ?_⟩
  · rintro ⟨occurrence, hlists, rfl⟩
    exact ⟨_, _, ⟨occurrence, hlists, rfl, rfl⟩, (word_eq ignoreCase occurrence).symm⟩
  · rintro ⟨_, _, ⟨occurrence, hlists, rfl, rfl⟩, rfl⟩
    exact ⟨occurrence, hlists, word_eq ignoreCase occurrence⟩

/-- After texts have been filed, the table knows the words of what they leave in the set. -/
theorem isSome_get?_iff_keeps {keywords : Keywords} (h : keywords.set.InOrder)
    (filings : List (String × String)) {ignoreCase : Bool} {word : String} :
    ((ofSet (keywords.fileAll filings).set ignoreCase).get? word).isSome = true ↔
      word ≠ "" ∧
        ∃ occurrence, keywords.Keeps filings occurrence ∧ occurrence.word ignoreCase = word := by
  rw [isSome_get?_ofSet_iff_holds]
  refine and_congr_right fun _ => ⟨?_, ?_⟩
  · rintro ⟨category, raw, hholds, hword⟩
    rw [Keywords.holds_fileAll h] at hholds
    split at hholds
    · next text hlast =>
      obtain ⟨before, after, hfilings, hafter⟩ := Keywords.lookup_reverse_eq_some_iff.mp hlast
      obtain ⟨place, hplace⟩ := List.getElem?_of_mem hholds
      exact ⟨⟨[], place, raw⟩, .filed hfilings hafter (.words hplace),
        (word_eq ignoreCase _).trans hword⟩
    · next hnone =>
      obtain ⟨occurrence, hlists, rfl, rfl⟩ := hholds
      exact ⟨occurrence, .old hlists (Keywords.lookup_reverse_eq_none_iff.mp hnone),
        (word_eq ignoreCase occurrence).trans hword⟩
  · rintro ⟨occurrence, hkeeps, hword⟩
    have hread := (word_eq ignoreCase occurrence).symm.trans hword
    cases hkeeps with
    | old hlists hapart =>
      refine ⟨occurrence.outermost, _, (Keywords.holds_fileAll h filings).mpr ?_, hread⟩
      rw [Keywords.lookup_reverse_eq_none_iff.mpr hapart]
      exact ⟨occurrence, hlists, rfl, rfl⟩
    | @filed before after name text _ hfilings hlast hlists =>
      obtain ⟨hplace⟩ := hlists
      refine ⟨name, _, (Keywords.holds_fileAll h filings).mpr ?_, hread⟩
      rw [Keywords.lookup_reverse_eq_some_iff.mpr ⟨before, after, hfilings, hlast⟩]
      exact List.mem_of_getElem? hplace

/-- After texts have been filed, the table knows exactly the words of the set in the categories
under which nothing has been filed, and the words of the last text of every category. So nothing is
lost where no category is used twice. -/
theorem isSome_get?_fileAll {keywords : Keywords} (h : keywords.set.InOrder)
    (filings : List (String × String)) (ignoreCase : Bool) :
    (∀ word, ((ofSet (keywords.fileAll filings).set ignoreCase).get? word).isSome = true ↔
      word ≠ "" ∧
        ∃ occurrence, keywords.Keeps filings occurrence ∧ occurrence.word ignoreCase = word) ∧
      ((filings.map (·.1)).Nodup →
        (∀ occurrence, keywords.set.Lists occurrence →
          occurrence.outermost ∉ filings.map (·.1)) →
        ∀ set ∈ keywords.set :: filings.map (fun filing => .words filing.2),
          ∀ occurrence, set.Lists occurrence → occurrence.word ignoreCase ≠ "" →
            ((ofSet (keywords.fileAll filings).set ignoreCase).get?
              (occurrence.word ignoreCase)).isSome = true) := by
  refine ⟨fun word => isSome_get?_iff_keeps h filings, ?_⟩
  intro hnodup hapart set hset occurrence hlists hword
  refine (isSome_get?_iff_keeps h filings).mpr ⟨hword, occurrence, ?_, rfl⟩
  rcases List.mem_cons.mp hset with rfl | hset
  · exact .old hlists (hapart occurrence hlists)
  · obtain ⟨⟨name, text⟩, hfiling, rfl⟩ := List.mem_map.mp hset
    obtain ⟨before, after, rfl⟩ := List.append_of_mem hfiling
    rw [List.map_append, List.map_cons, List.nodup_append] at hnodup
    exact .filed rfl (List.nodup_cons.mp hnodup.2.1).1 hlists

/-- Words in nested categories, with texts filed in the place of a category of the set and of each
other, and words in no category, with texts filed beside them. -/
theorem isSome_get?_fileAll_nestedWords : nestedWords.InOrder ∧
    (∀ word ∈ ["for", "if", "i8"],
      ((ofSet (Keywords.fileAll { set := nestedWords }
        [("type", "u8"), ("meta", "IF|2"), ("type", "I8")]).set true).get? word).isSome = true) ∧
    (Keywords.words "if|2").set.InOrder ∧
    ∀ word ∈ ["if", "u8"],
      ((ofSet ((Keywords.words "if|2").fileAll [("type", "U8"), ("meta", "For")]).set true).get?
        word).isSome = true := by
  have hset : nestedWords.InOrder := by
    simp only [nestedWords, KeywordSet.InOrder, KeywordSet.EntriesInOrder]
    decide +kernel
  have hwords : (Keywords.words "if|2").set.InOrder := by
    simp only [Keywords.words, Keywords.ofSet, KeywordSet.InOrder]
  have hlists : ∀ text : String, Text.words text = [text] →
      (KeywordSet.words text).Lists ⟨[], 0, text⟩ := fun _ h => .words (by rw [h]; rfl)
  obtain ⟨hknown, -⟩ := @isSome_get?_fileAll { set := nestedWords } hset
    [("type", "u8"), ("meta", "IF|2"), ("type", "I8")] true
  obtain ⟨-, hall⟩ := isSome_get?_fileAll hwords [("type", "U8"), ("meta", "For")] true
  have hapart : ∀ occurrence, (Keywords.words "if|2").set.Lists occurrence →
      occurrence.outermost ∉ ["type", "meta"] := by
    rintro _ ⟨-⟩
    simp only [Occurrence.outermost]
    decide
  refine ⟨hset, ?_, hwords, ?_⟩
  · simp only [List.forall_mem_cons]
    have hfor : nestedWords.Lists ⟨["literal"], 0, "For|x"⟩ :=
      .category List.mem_cons_self (.list rfl)
    have hif := @Keywords.Keeps.filed { set := nestedWords } _ [("type", "u8")] [("type", "I8")]
      "meta" _ _ rfl (by decide) (hlists "IF|2" (by decide +kernel))
    have hlast := @Keywords.Keeps.filed { set := nestedWords } _ [("type", "u8"), ("meta", "IF|2")]
      [] "type" _ _ rfl (by decide) (hlists "I8" (by decide +kernel))
    exact ⟨(hknown "for").mpr ⟨by decide, _, .old hfor (by decide), by decide +kernel⟩,
      (hknown "if").mpr ⟨by decide, _, hif, by decide +kernel⟩,
      (hknown "i8").mpr ⟨by decide, _, hlast, by decide +kernel⟩, by simp⟩
  · simp only [List.forall_mem_cons]
    have hif : Occurrence.word true ⟨[], 0, "if|2"⟩ = "if" := by decide +kernel
    have hlast : Occurrence.word true ⟨[], 0, "U8"⟩ = "u8" := by decide +kernel
    refine ⟨?_, ?_, by simp⟩
    · rw [← hif]
      exact hall (by decide) hapart _ List.mem_cons_self _ (hlists "if|2" (by decide +kernel))
        (by decide +kernel)
    · rw [← hlast]
      exact hall (by decide) hapart (.words "U8") (by simp) _ (hlists "U8" (by decide +kernel))
        (by decide +kernel)

/-- What is filed under the default category takes the place of the words that stand in none. -/
theorem loses_replaced_word :
    (∃ occurrence, (Keywords.words "fn").set.Lists occurrence ∧
      occurrence.word false = "fn") ∧
    (ofSet ((Keywords.words "fn").fileAll [("keyword", "let")]).set false).get? "fn" = none := by
  refine ⟨⟨⟨[], 0, "fn"⟩, .words (by decide +kernel), by decide +kernel⟩, ?_⟩
  rw [ofSet, addSet_eq, get?_foldl false _ (by decide)]
  decide +kernel

end KeywordTable

end Highlighter
