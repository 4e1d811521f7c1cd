import Highlighter.Keyword.Table
import Mathlib.Data.List.Induction
import Mathlib.Data.String.Basic

/-!
# What a keyword table knows

A set of keywords lists words at various depths, each behind the categories that stand around it. Its
table knows the words in front of the bars, and nothing else. Of several occurrences of one word it
keeps the last one, where the categories are gone through in order of their names, each with all that
stands in it, before the next one.
-/

namespace Highlighter

namespace KeywordSet

/-- A place in a set where a word stands: the categories around it from the outside in, the number of
words in front of it among them, and the word as it is written. -/
structure Occurrence where
  path : List String
  place : Nat
  raw : String
  deriving DecidableEq, Repr

namespace Occurrence

/-- An occurrence in a set that stands in a category. -/
def under (name : String) (occurrence : Occurrence) : Occurrence :=
  { occurrence with path := name :: occurrence.path }

/-- An occurrence comes before another one, in the order of the categories around them, and within
one category in the order of its words. -/
def Before (first second : Occurrence) : Prop :=
  first.path < second.path ∨ (first.path = second.path ∧ first.place < second.place)

/-- The characters of an occurrence, in lower case when case is ignored. -/
def chars (ignoreCase : Bool) (occurrence : Occurrence) : List Char :=
  (if ignoreCase then Text.lower occurrence.raw else occurrence.raw).toList

/-- The word of an occurrence: what stands in front of its first bar. -/
def word (ignoreCase : Bool) (occurrence : Occurrence) : String :=
  String.ofList ((occurrence.chars ignoreCase).takeWhile (· != '|'))

/-- The number behind the first bar of an occurrence, if it is one of at most 32 bits. -/
def score? (ignoreCase : Bool) (occurrence : Occurrence) : Option Nat :=
  match (occurrence.chars ignoreCase).dropWhile (· != '|') with
  | [] => none
  | _ :: digits => Text.unsigned? 32 digits

/-- What an occurrence says about its word: it belongs to the innermost category around it, or to the
default category, and scores what is written behind it, or else nothing for a filler word in any
letter case, and one for any other word. -/
def entry (ignoreCase : Bool) (occurrence : Occurrence) : KeywordEntry where
  category := occurrence.path.getLast?.getD defaultCategory
  relevance := (occurrence.score? ignoreCase).getD
    (if Text.lower (occurrence.word ignoreCase) ∈ KeywordTable.fillerWords then 0 else 1)

end Occurrence

/-- What stands in a set. -/
inductive Lists : KeywordSet → Occurrence → Prop where
  | words {text raw : String} {place : Nat} (h : (Text.words text)[place]? = some raw) :
      Lists (.words text) ⟨[], place, raw⟩
  | list {items : List String} {raw : String} {place : Nat} (h : items[place]? = some raw) :
      Lists (.list items) ⟨[], place, raw⟩
  | category {entries : List (String × KeywordSet)} {name : String} {set : KeywordSet}
      {occurrence : Occurrence} (hentry : (name, set) ∈ entries) (h : Lists set occurrence) :
      Lists (.categories entries) (occurrence.under name)

mutual
/-- The categories of a set, and of the sets in them, stand in order of their names, each name
once. -/
def InOrder : KeywordSet → Prop
  | .words _ => True
  | .list _ => True
  | .categories entries => (entries.map (·.1)).Pairwise (· < ·) ∧ EntriesInOrder entries

/-- The sets of several categories have their own categories in order. -/
def EntriesInOrder : List (String × KeywordSet) → Prop
  | [] => True
  | (_, set) :: entries => set.InOrder ∧ EntriesInOrder entries
end

/-! ## Sets that are put together -/

theorem mem_keys_insert {key name : String} {set : KeywordSet}
    {entries : List (String × KeywordSet)}
    (h : name ∈ (SortedEntries.insert key set entries).map (·.1)) :
    name = key ∨ name ∈ entries.map (·.1) := by
  fun_induction SortedEntries.insert key set entries <;> grind

/-- An entry goes to its place among entries that are in order. -/
theorem pairwise_insert (key : String) (set : KeywordSet) {entries : List (String × KeywordSet)}
    (h : (entries.map (·.1)).Pairwise (· < ·)) :
    ((SortedEntries.insert key set entries).map (·.1)).Pairwise (· < ·) := by
  induction entries with
  | nil => exact List.pairwise_singleton _ _
  | cons entry entries ih =>
    obtain ⟨other, old⟩ := entry
    obtain ⟨hfirst, hrest⟩ := List.pairwise_cons.mp h
    rw [SortedEntries.insert]
    split
    · next hlt =>
      refine List.pairwise_cons.mpr ⟨fun name hname => ?_, h⟩
      rcases List.mem_cons.mp hname with rfl | hname
      · exact hlt
      · exact lt_trans hlt (hfirst name hname)
    · next hle =>
      split
      · next hlt =>
        refine List.pairwise_cons.mpr ⟨fun name hname => ?_, ih hrest⟩
        rcases mem_keys_insert hname with rfl | hname
        · exact hlt
        · exact hfirst name hname
      · next hge =>
        obtain rfl := le_antisymm (not_lt.mp hge) (not_lt.mp hle)
        exact List.pairwise_cons.mpr ⟨hfirst, hrest⟩

theorem entriesInOrder_insert (key : String) {set : KeywordSet} (hset : set.InOrder)
    {entries : List (String × KeywordSet)} (h : EntriesInOrder entries) :
    EntriesInOrder (SortedEntries.insert key set entries) := by
  induction entries with
  | nil =>
    simp only [SortedEntries.insert, EntriesInOrder]
    exact ⟨hset, trivial⟩
  | cons entry entries ih =>
    obtain ⟨other, old⟩ := entry
    simp only [EntriesInOrder] at h
    rw [SortedEntries.insert]
    split
    · simp only [EntriesInOrder]
      exact ⟨hset, h⟩
    · split
      · simp only [EntriesInOrder]
        exact ⟨h.1, ih h.2⟩
      · simp only [EntriesInOrder]
        exact ⟨hset, h.2⟩

/-- Filing words under a category keeps a set in order. -/
theorem InOrder.withCategory {set : KeywordSet} (h : set.InOrder) (category text : String) :
    (set.withCategory category text).InOrder := by
  have htext : (KeywordSet.words text).InOrder := by simp only [InOrder]
  have hsingle : ∀ other : KeywordSet, other.InOrder →
      (([(defaultCategory, other)] : List (String × KeywordSet)).map (·.1)).Pairwise (· < ·) ∧
        EntriesInOrder [(defaultCategory, other)] := by
    intro other hother
    simp only [EntriesInOrder]
    exact ⟨List.pairwise_singleton _ _, hother, trivial⟩
  unfold KeywordSet.withCategory
  simp only [InOrder]
  cases set with
  | categories entries =>
    simp only [InOrder] at h
    exact ⟨pairwise_insert category _ h.1, entriesInOrder_insert category htext h.2⟩
  | words other =>
    obtain ⟨hnames, hentries⟩ := hsingle _ h
    exact ⟨pairwise_insert category _ hnames, entriesInOrder_insert category htext hentries⟩
  | list items =>
    obtain ⟨hnames, hentries⟩ := hsingle _ h
    exact ⟨pairwise_insert category _ hnames, entriesInOrder_insert category htext hentries⟩

/-! ## Going through a set -/

/-- The occurrences of words that stand next to each other. -/
def inTurn (items : List String) : List Occurrence :=
  items.zipIdx.map fun (raw, place) => ⟨[], place, raw⟩

mutual
/-- The occurrences in a set, category by category. -/
def occurrences : KeywordSet → List Occurrence
  | .words text => inTurn (Text.words text)
  | .list items => inTurn items
  | .categories entries => occurrencesIn entries

/-- The occurrences in several categories. -/
def occurrencesIn : List (String × KeywordSet) → List Occurrence
  | [] => []
  | (name, set) :: entries => set.occurrences.map (.under name) ++ occurrencesIn entries
end

theorem mem_inTurn {items : List String} {occurrence : Occurrence} :
    occurrence ∈ inTurn items ↔
      occurrence.path = [] ∧ items[occurrence.place]? = some occurrence.raw := by
  obtain ⟨path, place, raw⟩ := occurrence
  simp only [inTurn, List.mem_map, Prod.exists, List.mem_zipIdx_iff_getElem?, Occurrence.mk.injEq]
  constructor
  · rintro ⟨_, _, h, rfl, rfl, rfl⟩
    exact ⟨rfl, h⟩
  · rintro ⟨rfl, h⟩
    exact ⟨raw, place, h, rfl, rfl, rfl⟩

mutual
theorem lists_of_mem (set : KeywordSet) {occurrence : Occurrence}
    (h : occurrence ∈ set.occurrences) : Lists set occurrence := by
  cases set with
  | words text =>
    simp only [occurrences] at h
    obtain ⟨hpath, hraw⟩ := mem_inTurn.mp h
    obtain ⟨path, place, raw⟩ := occurrence
    cases hpath
    exact .words hraw
  | list items =>
    simp only [occurrences] at h
    obtain ⟨hpath, hraw⟩ := mem_inTurn.mp h
    obtain ⟨path, place, raw⟩ := occurrence
    cases hpath
    exact .list hraw
  | categories entries =>
    simp only [occurrences] at h
    obtain ⟨name, set, hentry, inner, hinner, rfl⟩ := lists_of_mem_entries entries h
    exact .category hentry hinner

theorem lists_of_mem_entries (entries : List (String × KeywordSet)) {occurrence : Occurrence}
    (h : occurrence ∈ occurrencesIn entries) :
    ∃ name set, (name, set) ∈ entries ∧ ∃ inner, Lists set inner ∧ occurrence = inner.under name := by
  cases entries with
  | nil =>
    simp only [occurrencesIn] at h
    cases h
  | cons entry entries =>
    obtain ⟨name, set⟩ := entry
    simp only [occurrencesIn] at h
    rcases List.mem_append.mp h with h | h
    · obtain ⟨inner, hinner, rfl⟩ := List.mem_map.mp h
      exact ⟨name, set, List.mem_cons_self, inner, lists_of_mem set hinner, rfl⟩
    · obtain ⟨other, set', hentry, hinner⟩ := lists_of_mem_entries entries h
      exact ⟨other, set', List.mem_cons_of_mem _ hentry, hinner⟩
end

theorem mem_occurrencesIn {entries : List (String × KeywordSet)} {name : String} {set : KeywordSet}
    {occurrence : Occurrence} (hentry : (name, set) ∈ entries) (h : occurrence ∈ set.occurrences) :
    occurrence.under name ∈ occurrencesIn entries := by
  induction entries with
  | nil => cases hentry
  | cons entry entries ih =>
    obtain ⟨other, set'⟩ := entry
    simp only [occurrencesIn]
    rcases List.mem_cons.mp hentry with heq | hentry
    · cases heq
      exact List.mem_append_left _ (List.mem_map_of_mem h)
    · exact List.mem_append_right _ (ih hentry)

/-- Going through a set meets what stands in it. -/
theorem mem_occurrences {set : KeywordSet} {occurrence : Occurrence} :
    occurrence ∈ set.occurrences ↔ Lists set occurrence := by
  constructor
  · exact lists_of_mem set
  · intro h
    induction h with
    | words h =>
      simp only [occurrences]
      exact mem_inTurn.mpr ⟨rfl, h⟩
    | list h =>
      simp only [occurrences]
      exact mem_inTurn.mpr ⟨rfl, h⟩
    | category hentry _ ih =>
      simp only [occurrences]
      exact mem_occurrencesIn hentry ih

/-! ## The order of occurrences -/

namespace Occurrence

theorem Before.asymm {first second : Occurrence} (h : first.Before second) :
    ¬ second.Before first := by
  rintro (hpath | ⟨hpath, hplace⟩)
  · rcases h with hpath' | ⟨hpath', -⟩
    · exact lt_asymm hpath hpath'
    · exact absurd (hpath' ▸ hpath) (lt_irrefl _)
  · rcases h with hpath' | ⟨-, hplace'⟩
    · exact absurd (hpath ▸ hpath') (lt_irrefl _)
    · omega

theorem Before.under {first second : Occurrence} (h : first.Before second) (name : String) :
    (first.under name).Before (second.under name) := by
  rcases h with hpath | ⟨hpath, hplace⟩
  · exact .inl (List.cons_lt_cons_iff.mpr (.inr ⟨rfl, hpath⟩))
  · exact .inr ⟨congrArg (name :: ·) hpath, hplace⟩

theorem before_of_lt {name name' : String} (h : name < name') (first second : Occurrence) :
    (first.under name).Before (second.under name') :=
  .inl (List.cons_lt_cons_iff.mpr (.inl h))

end Occurrence

theorem pairwise_inTurn (items : List String) :
    (inTurn items).Pairwise Occurrence.Before := by
  rw [inTurn, List.pairwise_map]
  refine List.pairwise_iff_getElem.mpr fun i j hi hj hlt => ?_
  rw [List.getElem_zipIdx, List.getElem_zipIdx]
  exact .inr ⟨rfl, Nat.add_lt_add_left hlt 0⟩

theorem exists_name_of_mem {entries : List (String × KeywordSet)} {occurrence : Occurrence}
    (h : occurrence ∈ occurrencesIn entries) :
    ∃ name ∈ entries.map (·.1), ∃ inner : Occurrence, occurrence = inner.under name := by
  obtain ⟨name, set, hentry, inner, -, heq⟩ := lists_of_mem_entries entries h
  exact ⟨name, List.mem_map_of_mem hentry, inner, heq⟩

mutual
/-- Going through a set whose categories are in order meets its occurrences in their order. -/
theorem pairwise_occurrences (set : KeywordSet) (h : set.InOrder) :
    set.occurrences.Pairwise Occurrence.Before := by
  cases set with
  | words text =>
    simp only [occurrences]
    exact pairwise_inTurn _
  | list items =>
    simp only [occurrences]
    exact pairwise_inTurn _
  | categories entries =>
    simp only [InOrder] at h
    simp only [occurrences]
    exact pairwise_occurrencesIn entries h.1 h.2

theorem pairwise_occurrencesIn (entries : List (String × KeywordSet))
    (hnames : (entries.map (·.1)).Pairwise (· < ·)) (h : EntriesInOrder entries) :
    (occurrencesIn entries).Pairwise Occurrence.Before := by
  cases entries with
  | nil =>
    simp only [occurrencesIn]
    exact .nil
  | cons entry entries =>
    obtain ⟨name, set⟩ := entry
    simp only [EntriesInOrder] at h
    obtain ⟨hfirst, hnames⟩ := List.pairwise_cons.mp hnames
    simp only [occurrencesIn]
    refine List.pairwise_append.mpr
      ⟨?_, pairwise_occurrencesIn entries hnames h.2, fun occurrence hmem later hlater => ?_⟩
    · exact (pairwise_occurrences set h.1).map _ fun _ _ hbefore => hbefore.under name
    · obtain ⟨inner, -, rfl⟩ := List.mem_map.mp hmem
      obtain ⟨name', hname', inner', rfl⟩ := exists_name_of_mem hlater
      exact Occurrence.before_of_lt (hfirst name' hname') inner inner'
end

end KeywordSet

namespace KeywordTable

open KeywordSet (Occurrence)

/-! ## Adding occurrences one by one -/

/-- A table after one more occurrence. `category` is where words go that stand in no category. -/
def addOccurrence (ignoreCase : Bool) (category : String) (table : KeywordTable)
    (occurrence : Occurrence) : KeywordTable :=
  addWord ignoreCase (occurrence.path.getLast?.getD category) table occurrence.raw

theorem foldl_inTurn (ignoreCase : Bool) (category : String) (table : KeywordTable)
    (items : List String) :
    (KeywordSet.inTurn items).foldl (addOccurrence ignoreCase category) table =
      items.foldl (addWord ignoreCase category) table := by
  have hraw : (KeywordSet.inTurn items).map (·.raw) = items := by
    rw [KeywordSet.inTurn, List.map_map]
    exact List.zipIdx_map_fst 0 items
  have hpath : ∀ occurrence ∈ KeywordSet.inTurn items, occurrence.path = [] :=
    fun occurrence hmem => (KeywordSet.mem_inTurn.mp hmem).1
  conv_rhs => rw [← hraw, List.foldl_map]
  refine List.foldl_ext _ _ _ fun table occurrence hmem => ?_
  rw [addOccurrence, hpath occurrence hmem]
  rfl

theorem addOccurrence_under (ignoreCase : Bool) (category name : String) (table : KeywordTable)
    (occurrence : Occurrence) :
    addOccurrence ignoreCase category table (occurrence.under name) =
      addOccurrence ignoreCase name table occurrence := by
  have hlast : (name :: occurrence.path).getLast?.getD category =
      occurrence.path.getLast?.getD name := by
    cases hpath : occurrence.path with
    | nil => rfl
    | cons other path => rw [List.getLast?_cons_cons]; rfl
  rw [addOccurrence, Occurrence.under, hlast, addOccurrence]

mutual
/-- A set is added occurrence by occurrence. -/
theorem addSet_eq (ignoreCase : Bool) (category : String) (table : KeywordTable)
    (set : KeywordSet) :
    addSet ignoreCase category table set =
      set.occurrences.foldl (addOccurrence ignoreCase category) table := by
  cases set with
  | words text =>
    simp only [addSet, KeywordSet.occurrences]
    exact (foldl_inTurn ignoreCase category table _).symm
  | list items =>
    simp only [addSet, KeywordSet.occurrences]
    exact (foldl_inTurn ignoreCase category table _).symm
  | categories entries =>
    simp only [addSet, KeywordSet.occurrences]
    exact addCategories_eq ignoreCase category table entries

theorem addCategories_eq (ignoreCase : Bool) (category : String) (table : KeywordTable)
    (entries : List (String × KeywordSet)) :
    addCategories ignoreCase table entries =
      (KeywordSet.occurrencesIn entries).foldl (addOccurrence ignoreCase category) table := by
  cases entries with
  | nil =>
    simp only [addCategories, KeywordSet.occurrencesIn]
    rfl
  | cons entry entries =>
    obtain ⟨name, set⟩ := entry
    have hfirst : (set.occurrences.map (.under name)).foldl (addOccurrence ignoreCase category)
        table = addSet ignoreCase name table set := by
      rw [addSet_eq ignoreCase name table set, List.foldl_map]
      simp only [addOccurrence_under]
    simp only [addCategories, KeywordSet.occurrencesIn, List.foldl_append, hfirst]
    exact addCategories_eq ignoreCase category _ entries
end

theorem splitOnce_eq (separator : Char) (text : List Char) :
    Text.splitOnce separator text =
      match text.dropWhile (· != separator) with
      | [] => none
      | _ :: rest => some (text.takeWhile (· != separator), rest) := by
  induction text with
  | nil => rfl
  | cons c text ih =>
    by_cases hc : c = separator
    · subst hc
      simp [Text.splitOnce]
    · rw [Text.splitOnce, if_neg hc, ih]
      simp only [List.dropWhile_cons, List.takeWhile_cons, bne_iff_ne.mpr hc, if_true]
      split <;> rfl

/-- A word is read as its occurrence says. -/
theorem readWord_raw (ignoreCase : Bool) (occurrence : Occurrence) :
    readWord ignoreCase occurrence.raw =
      (occurrence.word ignoreCase, occurrence.score? ignoreCase) := by
  simp only [readWord, splitOnce_eq, Occurrence.word, Occurrence.score?, Occurrence.chars]
  generalize (if ignoreCase then Text.lower occurrence.raw else occurrence.raw) = raw
  cases hdrop : raw.toList.dropWhile (· != '|') with
  | nil =>
    have hall := @List.takeWhile_append_dropWhile _ (· != '|') raw.toList
    rw [hdrop, List.append_nil] at hall
    simp only [hall, String.ofList_toList]
  | cons c rest => rfl

/-- One more occurrence decides about its own word, unless that is empty, and about no other. -/
theorem get?_addOccurrence (ignoreCase : Bool) (table : KeywordTable) (occurrence : Occurrence)
    {word : String} (hword : word ≠ "") :
    (addOccurrence ignoreCase KeywordSet.defaultCategory table occurrence).get? word =
      if occurrence.word ignoreCase = word then some (occurrence.entry ignoreCase)
      else table.get? word := by
  have hrelevance : (occurrence.score? ignoreCase).getD
      (defaultRelevance (occurrence.word ignoreCase)) = (occurrence.entry ignoreCase).relevance := by
    rw [Occurrence.entry, defaultRelevance]
    simp only [List.contains_iff_mem]
  rw [addOccurrence, addWord, readWord_raw]
  simp only [hrelevance]
  split
  · next hempty =>
    rw [if_neg]
    rw [String.isEmpty_iff.mp hempty]
    exact hword.symm
  · rw [get?, Std.HashMap.getElem?_insert]
    simp only [beq_iff_eq]
    rfl

theorem get?_empty_addOccurrence (ignoreCase : Bool) (category : String) (table : KeywordTable)
    (occurrence : Occurrence) :
    (addOccurrence ignoreCase category table occurrence).get? "" = table.get? "" := by
  rw [addOccurrence, addWord, readWord_raw]
  simp only
  split
  · rfl
  · next hword =>
    rw [get?, Std.HashMap.getElem?_insert, if_neg, get?]
    rw [beq_iff_eq]
    exact fun hempty => hword (String.isEmpty_iff.mpr hempty)

/-- Of several occurrences of a word, the last one decides. -/
theorem get?_foldl (ignoreCase : Bool) (occurrences : List Occurrence) {word : String}
    (hword : word ≠ "") :
    (occurrences.foldl (addOccurrence ignoreCase KeywordSet.defaultCategory) {}).get? word =
      (occurrences.reverse.find? (·.word ignoreCase = word)).map (·.entry ignoreCase) := by
  induction occurrences using List.reverseRecOn with
  | nil => exact Std.HashMap.getElem?_empty
  | append_singleton occurrences occurrence ih =>
    rw [List.foldl_append, List.foldl_cons, List.foldl_nil, get?_addOccurrence _ _ _ hword, ih,
      List.reverse_append, List.reverse_singleton, List.singleton_append, List.find?_cons]
    by_cases heq : occurrence.word ignoreCase = word <;> simp [heq]

theorem get?_empty_foldl (ignoreCase : Bool) (category : String) (occurrences : List Occurrence) :
    (occurrences.foldl (addOccurrence ignoreCase category) {}).get? "" = none := by
  induction occurrences using List.reverseRecOn with
  | nil => exact Std.HashMap.getElem?_empty
  | append_singleton occurrences occurrence ih =>
    rw [List.foldl_append, List.foldl_cons, List.foldl_nil, get?_empty_addOccurrence, ih]

/-- The last element with a property, in a list that is in order. -/
theorem find?_reverse_eq_some_iff {occurrences : List Occurrence} {p : Occurrence → Bool}
    (h : occurrences.Pairwise Occurrence.Before) {occurrence : Occurrence} :
    occurrences.reverse.find? p = some occurrence ↔
      occurrence ∈ occurrences ∧ p occurrence = true ∧
        ∀ other ∈ occurrences, p other = true → other = occurrence ∨ other.Before occurrence := by
  have hlast : ∀ {last : Occurrence}, occurrences.reverse.find? p = some last →
      last ∈ occurrences ∧ p last = true ∧
        ∀ other ∈ occurrences, p other = true → other = last ∨ other.Before last := by
    intro last hfind
    obtain ⟨hp, later, earlier, hsplit, hlater⟩ := List.find?_eq_some_iff_append.mp hfind
    have hsplit' : occurrences = earlier.reverse ++ last :: later.reverse := by
      have hreverse := congrArg List.reverse hsplit
      simpa using hreverse
    rw [hsplit'] at h
    obtain ⟨-, -, hbefore⟩ := List.pairwise_append.mp h
    refine ⟨by simp [hsplit'], hp, fun other hmem hother => ?_⟩
    rw [hsplit'] at hmem
    rcases List.mem_append.mp hmem with hmem | hmem
    · exact .inr (hbefore other hmem last List.mem_cons_self)
    · rcases List.mem_cons.mp hmem with rfl | hmem
      · exact .inl rfl
      · have hnot := hlater other (List.mem_reverse.mp hmem)
        simp [hother] at hnot
  constructor
  · exact hlast
  · rintro ⟨hmem, hp, hmax⟩
    cases hfind : occurrences.reverse.find? p with
    | none =>
      have hnot := List.find?_eq_none.mp hfind occurrence (List.mem_reverse.mpr hmem)
      exact absurd hp hnot
    | some last =>
      obtain ⟨hmem', hp', hmax'⟩ := hlast hfind
      rcases hmax last hmem' hp' with rfl | hbefore
      · rfl
      · rcases hmax' occurrence hmem hp with rfl | hafter
        · rfl
        · exact absurd hafter hbefore.asymm

/-- The table of a set whose categories are in order knows exactly the words in it that are not
empty, and about each what its last occurrence says. -/
theorem get?_ofSet {set : KeywordSet} (hset : set.InOrder) (ignoreCase : Bool) (word : String) :
    (((ofSet set ignoreCase).get? word).isSome = true ↔
        word ≠ "" ∧ ∃ occurrence, set.Lists occurrence ∧ occurrence.word ignoreCase = word) ∧
      ∀ entry, (ofSet set ignoreCase).get? word = some entry ↔
        word ≠ "" ∧ ∃ occurrence, set.Lists occurrence ∧ occurrence.word ignoreCase = word ∧
          (∀ other, set.Lists other → other.word ignoreCase = word →
            other = occurrence ∨ other.Before occurrence) ∧
          entry = occurrence.entry ignoreCase := by
  rw [ofSet, addSet_eq]
  by_cases hword : word = ""
  · subst hword
    rw [get?_empty_foldl]
    simp
  · rw [get?_foldl ignoreCase _ hword]
    have hordered := KeywordSet.pairwise_occurrences set hset
    constructor
    · simp [hword, KeywordSet.mem_occurrences]
    · intro entry
      simp only [Option.map_eq_some_iff, find?_reverse_eq_some_iff hordered,
        KeywordSet.mem_occurrences, decide_eq_true_eq]
      constructor
      · rintro ⟨occurrence, ⟨hmem, hp, hmax⟩, rfl⟩
        exact ⟨hword, occurrence, hmem, hp, hmax, rfl⟩
      · rintro ⟨-, occurrence, hmem, hp, hmax, rfl⟩
        exact ⟨occurrence, ⟨hmem, hp, hmax⟩, rfl⟩

/-- Words with scores, bars and blanks in nested categories. -/
def nestedWords : KeywordSet :=
  .categories [("literal", .list ["For|x", "|3", "a b"]),
    ("type", .categories [("_basic", .words "int|2  FOR|1|2"), ("wide", .words "if INT")])]

theorem get?_ofSet_nestedWords : nestedWords.InOrder ∧
    (ofSet nestedWords true).get? "for" = some ⟨"_basic", 0⟩ ∧
    (∃ occurrence, nestedWords.Lists occurrence ∧ occurrence.word true = "for" ∧
      (∀ other, nestedWords.Lists other → other.word true = "for" →
        other = occurrence ∨ other.Before occurrence) ∧
      ⟨"_basic", 0⟩ = occurrence.entry true) ∧
    ((ofSet nestedWords true).get? "FOR").isSome = false := by
  have hset : nestedWords.InOrder := by
    simp only [nestedWords, KeywordSet.InOrder, KeywordSet.EntriesInOrder]
    decide +kernel
  have hfind : ∀ word, word ≠ "" → (ofSet nestedWords true).get? word =
      (nestedWords.occurrences.reverse.find? (·.word true = word)).map (·.entry true) := by
    intro word hword
    rw [ofSet, addSet_eq, get?_foldl true _ hword]
  have hfor : (ofSet nestedWords true).get? "for" = some ⟨"_basic", 0⟩ := by
    rw [hfind "for" (by decide)]
    decide +kernel
  obtain ⟨-, hlast⟩ := ((get?_ofSet hset true "for").2 _).mp hfor
  refine ⟨hset, hfor, hlast, ?_⟩
  rw [hfind "FOR" (by decide)]
  decide +kernel

end KeywordTable

end Highlighter
