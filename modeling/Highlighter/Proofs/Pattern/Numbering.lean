import Highlighter.Pattern
import Highlighter.Proofs.Pattern.Pieces

/-!
# The groups of joined sources

The pieces of joined sources are those of the sources, each between the parentheses of its own
group. So the number of that group is known from the groups of the sources before it, a count kept
while the sources are rewritten is the same, and joined sources can be joined again.
-/

namespace Highlighter

namespace Pattern

/-- A source that can be joined with others: it is read completely, and its start does not change
what the parenthesis in front of it means. -/
structure Joins (source : String) : Prop where
  whole : Piece.IsWhole source.toList
  head : source.toList.head? ≠ some '?'

instance (source : String) : Decidable (Joins source) :=
  decidable_of_iff (Piece.IsWhole source.toList ∧ source.toList.head? ≠ some '?')
    ⟨fun h => ⟨h.1, h.2⟩, fun h => ⟨h.whole, h.head⟩⟩

/-- What may stand between joined sources. -/
inductive Separates : String → Prop where
  | empty : Separates ""
  | bar : Separates "|"

/-- The number of the group of a source among joined sources. -/
def wrapperNumber (sources : List String) (place : Nat) : Nat :=
  place + 1 + ((sources.take place).map countGroups).sum

/-- The pieces of a source in a group of its own. -/
def wrapped (offset : Nat) (source : String) : List Piece :=
  .capture [] :: ((Piece.ofSource source.toList).map (Piece.shift offset) ++ [.plain ')'])

/-- The pieces of sources in groups of their own, when `groups` groups precede them. -/
def wrapPieces (groups : Nat) : List String → List (List Piece)
  | [] => []
  | source :: sources =>
    wrapped (groups + 1) source :: wrapPieces (groups + 1 + countGroups source) sources

section

variable {separator source : String} {sources : List String} {groups place : Nat}

@[simp]
theorem countP_wrapped (offset : Nat) (source : String) :
    (wrapped offset source).countP Piece.isCapture = countGroups source + 1 := by
  have hshift : Piece.isCapture ∘ Piece.shift offset = Piece.isCapture :=
    funext fun piece => Piece.isCapture_shift offset piece
  rw [wrapped, List.countP_cons, List.countP_append, List.countP_map, hshift, countGroups]
  rfl

theorem ofSource_wrapped (h : Joins source) (offset : Nat) (tail : List Char) :
    Piece.ofSource ('(' :: (shiftReferences offset source ++ ')' :: tail)) =
      wrapped offset source ++ Piece.ofSource tail := by
  have halike := Piece.forall₂_shift offset source.toList
  have hrenders : Piece.Renders ')' tail source.toList
      (shiftReferences offset source ++ ')' :: tail) :=
    ⟨_, halike, by rw [List.flatMap_map]; rfl⟩
  have hopen := hrenders.first_capture .close fun rest heq => h.head (by rw [heq]; rfl)
  have hpieces : Piece.ofSource (shiftReferences offset source ++ ')' :: tail) =
      (Piece.ofSource source.toList).map (Piece.shift offset) ++
        .plain ')' :: Piece.ofSource tail := by
    rw [← Piece.ofSource_append_barrier .close h.whole halike, List.flatMap_map]
    rfl
  rw [Piece.ofSource_of_first hopen, hpieces, wrapped, List.cons_append,
    List.append_assoc, List.singleton_append]

theorem Separates.ofSource (h : Separates separator) (tail : List Char) :
    Piece.ofSource (separator.toList ++ tail) =
      separator.toList.map .plain ++ Piece.ofSource tail := by
  cases h with
  | empty => rfl
  | bar => exact Piece.IsBarrier.bar.ofSource

/-- The pieces of joined sources are those of the sources, each in its own group. -/
theorem ofSource_intercalate (hseparator : Separates separator)
    (hsources : ∀ source ∈ sources, Joins source) :
    Piece.ofSource (List.intercalate separator.toList (wrapFrom groups sources)) =
      List.intercalate (separator.toList.map .plain) (wrapPieces groups sources) := by
  induction sources generalizing groups with
  | nil => exact Piece.ofSource_eq_nil_iff.mpr rfl
  | cons source sources ih =>
    have hsource := ofSource_wrapped (hsources source List.mem_cons_self) (groups + 1)
    have hrest := @ih (groups + 1 + countGroups source)
      fun other hmem => hsources other (List.mem_cons_of_mem _ hmem)
    cases sources with
    | nil =>
      have hnil : Piece.ofSource [] = [] := Piece.ofSource_eq_nil_iff.mpr rfl
      simpa only [wrapFrom, wrapPieces, List.intercalate_singleton, hnil, List.append_nil,
        List.cons_append] using hsource []
    | cons other sources =>
      simp only [wrapFrom, wrapPieces, List.intercalate_cons_cons, List.append_assoc,
        List.cons_append, List.nil_append] at hrest ⊢
      rw [hsource, hseparator.ofSource, ← hrest]

theorem Separates.countP_eq_zero (h : Separates separator) :
    (separator.toList.map Piece.plain).countP Piece.isCapture = 0 := by
  cases h <;> rfl

/-- A list among joined lists, with what is in front of it and what is behind it. -/
theorem intercalate_of_getElem? {α : Type} {separator list : List α} {lists : List (List α)}
    (h : lists[place]? = some list) :
    separator.intercalate lists =
      (lists.take place).flatMap (· ++ separator) ++
        (list ++ (lists.drop (place + 1)).flatMap (separator ++ ·)) := by
  induction lists generalizing place list with
  | nil => cases h
  | cons first lists ih =>
    cases lists with
    | nil =>
      cases place with
      | zero =>
        cases h
        simp
      | succ place => cases h
    | cons second lists =>
      rw [List.intercalate_cons_cons]
      cases place with
      | zero =>
        cases h
        have hfirst : (second :: lists)[0]? = some second := rfl
        rw [ih hfirst]
        simp
      | succ place =>
        rw [ih h, List.take_succ_cons, List.flatMap_cons, ← List.append_assoc,
          List.append_assoc first]
        rfl

theorem mem_of_mem_intercalate {α : Type} {a : α} {separator : List α} {lists : List (List α)}
    (h : a ∈ separator.intercalate lists) : a ∈ separator ∨ ∃ list ∈ lists, a ∈ list := by
  induction lists with
  | nil => cases h
  | cons first lists ih =>
    cases lists with
    | nil => exact .inr ⟨first, List.mem_cons_self, by simpa using h⟩
    | cons second lists =>
      rw [List.intercalate_cons_cons, List.mem_append, List.mem_append] at h
      obtain (hfirst | hseparator) | hrest := h
      · exact .inr ⟨first, List.mem_cons_self, hfirst⟩
      · exact .inl hseparator
      · exact (ih hrest).imp_right fun ⟨list, hlist, hmem⟩ =>
          ⟨list, List.mem_cons_of_mem _ hlist, hmem⟩

theorem countP_intercalate {α : Type} {p : α → Bool} {separator : List α} {lists : List (List α)}
    (hseparator : separator.countP p = 0) :
    (separator.intercalate lists).countP p = (lists.map (List.countP p)).sum := by
  induction lists with
  | nil => rfl
  | cons first lists ih =>
    cases lists with
    | nil => simp
    | cons second lists =>
      rw [List.intercalate_cons_cons, List.countP_append, List.countP_append, hseparator, ih]
      rfl

theorem map_countP_wrapPieces :
    (wrapPieces groups sources).map (List.countP Piece.isCapture) =
      sources.map (countGroups · + 1) := by
  induction sources generalizing groups with
  | nil => rfl
  | cons source sources ih => rw [wrapPieces, List.map_cons, List.map_cons, ih, countP_wrapped]

/-- Joining adds one group for each source. -/
theorem countGroups_joinGroups (hseparator : Separates separator)
    (hsources : ∀ source ∈ sources, Joins source) :
    countGroups (joinGroups separator sources) =
      sources.length + (sources.map countGroups).sum := by
  rw [countGroups, joinGroups, String.toList_ofList, ofSource_intercalate hseparator hsources,
    countP_intercalate hseparator.countP_eq_zero, map_countP_wrapPieces, List.sum_map_add,
    Nat.add_comm]
  simp

theorem wrapperNumber_succ :
    wrapperNumber (source :: sources) (place + 1) =
      countGroups source + 1 + wrapperNumber sources place := by
  simp only [wrapperNumber, List.take_succ_cons, List.map_cons, List.sum_cons]
  omega

theorem wrapPieces_getElem? :
    (wrapPieces groups sources)[place]? =
      sources[place]?.map (wrapped (groups + wrapperNumber sources place)) := by
  induction sources generalizing groups place with
  | nil => rfl
  | cons source sources ih =>
    rw [wrapPieces]
    cases place with
    | zero => rfl
    | succ place =>
      rw [List.getElem?_cons_succ, List.getElem?_cons_succ, ih, wrapperNumber_succ]
      congr 2
      omega

theorem countP_before (hseparator : Separates separator) (hplace : place ≤ sources.length) :
    (((wrapPieces groups sources).take place).flatMap
        (· ++ separator.toList.map .plain)).countP Piece.isCapture + 1 =
      wrapperNumber sources place := by
  have hcount : List.countP Piece.isCapture ∘ (· ++ separator.toList.map Piece.plain) =
      List.countP Piece.isCapture := by
    funext pieces
    simp [hseparator.countP_eq_zero]
  rw [List.countP_flatMap, hcount, List.map_take, map_countP_wrapPieces, ← List.map_take,
    List.sum_map_add, wrapperNumber]
  simp [Nat.min_eq_left hplace]
  omega

/-- The group of a source among joined sources has its number, and the references of the source
move by that. -/
theorem exists_wrapped (hseparator : Separates separator)
    (hsources : ∀ source ∈ sources, Joins source) (hplace : sources[place]? = some source) :
    ∃ before after,
      Piece.ofSource (joinGroups separator sources).toList =
        before ++ (wrapped (wrapperNumber sources place) source ++ after) ∧
      before.countP Piece.isCapture + 1 = wrapperNumber sources place := by
  have hlt : place < sources.length := (List.getElem?_eq_some_iff.mp hplace).1
  have hwrapped : (wrapPieces 0 sources)[place]? =
      some (wrapped (wrapperNumber sources place) source) := by
    rw [wrapPieces_getElem?, hplace, Nat.zero_add]
    rfl
  rw [joinGroups, String.toList_ofList, ofSource_intercalate hseparator hsources,
    intercalate_of_getElem? hwrapped]
  exact ⟨_, _, rfl, countP_before hseparator (Nat.le_of_lt hlt)⟩

theorem plain_notMem_wrapped (h : Joins source) (offset : Nat) :
    .plain '[' ∉ wrapped offset source := by
  intro hmem
  rw [wrapped, List.mem_cons, List.mem_append, List.mem_map, List.mem_singleton] at hmem
  obtain heq | ⟨piece, hpiece, heq⟩ | heq := hmem
  · cases heq
  · obtain rfl : piece = .plain '[' := by
      cases piece with
      | reference digits =>
        rw [Piece.shift] at heq
        split at heq <;> cases heq
      | _ => exact heq
    exact h.whole.closed hpiece
  · cases heq

theorem wrapPieces_length : (wrapPieces groups sources).length = sources.length := by
  induction sources generalizing groups with
  | nil => rfl
  | cons source sources ih => rw [wrapPieces, List.length_cons, List.length_cons, ih]

theorem getLast?_wrapped (offset : Nat) (source : String) :
    (wrapped offset source).getLast? = some (.plain ')') := by
  rw [wrapped, ← List.cons_append, List.getLast?_append]
  rfl

theorem getLast?_joinGroups (hseparator : Separates separator)
    (hsources : ∀ source ∈ sources, Joins source) (hne : sources ≠ []) :
    (Piece.ofSource (joinGroups separator sources).toList).getLast? = some (.plain ')') := by
  have hplace : sources[sources.length - 1]? = some (sources.getLast hne) := by
    rw [List.getLast_eq_getElem, List.getElem?_eq_getElem]
  have hwrapped : (wrapPieces 0 sources)[sources.length - 1]? =
      some (wrapped (0 + wrapperNumber sources (sources.length - 1)) (sources.getLast hne)) := by
    rw [wrapPieces_getElem?, hplace]
    rfl
  have hdrop : (wrapPieces 0 sources).drop (sources.length - 1 + 1) = [] := by
    refine List.drop_eq_nil_of_le ?_
    rw [wrapPieces_length]
    omega
  rw [joinGroups, String.toList_ofList, ofSource_intercalate hseparator hsources,
    intercalate_of_getElem? hwrapped, hdrop, List.flatMap_nil, List.append_nil,
    List.getLast?_append, getLast?_wrapped]
  rfl

/-- Joined sources can be joined with others in their turn. -/
theorem joins_joinGroups (hseparator : Separates separator)
    (hsources : ∀ source ∈ sources, Joins source) : Joins (joinGroups separator sources) := by
  refine ⟨⟨fun hmem => ?_, ?_⟩, ?_⟩
  · rw [joinGroups, String.toList_ofList, ofSource_intercalate hseparator hsources] at hmem
    obtain hmem | ⟨pieces, hpieces, hmem⟩ := mem_of_mem_intercalate hmem
    · cases hseparator <;> simp at hmem
    · obtain ⟨place, hplace⟩ := List.mem_iff_getElem?.mp hpieces
      rw [wrapPieces_getElem?, Option.map_eq_some_iff] at hplace
      obtain ⟨source, hsource, rfl⟩ := hplace
      exact plain_notMem_wrapped (hsources source (List.mem_of_getElem? hsource)) _ hmem
  · by_cases hne : sources = []
    · subst hne
      exact fun hlast => by simp [joinGroups, wrapFrom, Piece.ofSource] at hlast
    · rw [getLast?_joinGroups hseparator hsources hne]
      decide
  · rw [joinGroups, String.toList_ofList]
    cases sources with
    | nil => simp [wrapFrom]
    | cons source sources =>
      rw [wrapFrom, intercalate_of_getElem? List.getElem?_cons_zero]
      simp

end

/-! ### Counting while rewriting -/

/-- The pieces of a source rewritten one after the other, with the references moved up by `offset`,
and how many groups there are then, when there are `groups` before. -/
def rewriteFrom (offset groups : Nat) : List Piece → List Char × Nat
  | [] => ([], groups)
  | piece :: pieces =>
    let (text, groups) :=
      rewriteFrom offset (if piece.isCapture then groups + 1 else groups) pieces
    ((piece.shift offset).text ++ text, groups)

/-- Sources in groups of their own, with one count of the groups that goes on from source to
source. -/
def wrapCounting (groups : Nat) : List String → List (List Char)
  | [] => []
  | source :: sources =>
    let (text, counted) := rewriteFrom (groups + 1) (groups + 1) (Piece.ofSource source.toList)
    ('(' :: text ++ [')']) :: wrapCounting counted sources

theorem rewriteFrom_eq (offset groups : Nat) (pieces : List Piece) :
    rewriteFrom offset groups pieces =
      (pieces.flatMap fun piece => (piece.shift offset).text,
        groups + pieces.countP Piece.isCapture) := by
  induction pieces generalizing groups with
  | nil => rfl
  | cons piece pieces ih =>
    rw [rewriteFrom, ih, List.flatMap_cons, List.countP_cons]
    refine Prod.ext rfl ?_
    dsimp only
    split <;> omega

/-- The count made while rewriting is the count of the groups in the sources. -/
theorem wrapCounting_eq (groups : Nat) (sources : List String) :
    wrapCounting groups sources = wrapFrom groups sources := by
  induction sources generalizing groups with
  | nil => rfl
  | cons source sources ih =>
    rw [wrapCounting, rewriteFrom_eq, wrapFrom]
    dsimp only
    rw [ih]
    rfl

/-! ### Patterns inside patterns -/

mutual
/-- The number of groups in a pattern: its segments have groups of their own. -/
def groupCount : Pattern → Nat
  | .regex source => countGroups source
  | .literal _ => 0
  | .segments parts => parts.length + groupCounts parts
  | .either choices => groupCounts choices

/-- The number of groups in a list of patterns. -/
def groupCounts : List Pattern → Nat
  | [] => 0
  | pattern :: patterns => pattern.groupCount + groupCounts patterns
end

/-- A pattern made of sources that can be joined. -/
inductive Joinable : Pattern → Prop where
  | regex {source : String} (hsource : Joins source) : Joinable (.regex source)
  | literal (text : String) : Joinable (.literal text)
  | segments {parts : List Pattern} (hparts : ∀ part ∈ parts, Joinable part) :
      Joinable (.segments parts)
  | either {choices : List Pattern} (hchoices : ∀ choice ∈ choices, Joinable choice) :
      Joinable (.either choices)

theorem sources_eq_map (patterns : List Pattern) : sources patterns = patterns.map source := by
  induction patterns with
  | nil => rw [sources, List.map_nil]
  | cons pattern patterns ih => rw [sources, List.map_cons, ih]

theorem groupCounts_eq_sum (patterns : List Pattern) :
    groupCounts patterns = (patterns.map groupCount).sum := by
  induction patterns with
  | nil => rw [groupCounts, List.map_nil, List.sum_nil]
  | cons pattern patterns ih => rw [groupCounts, List.map_cons, List.sum_cons, ih]

theorem isDigit_of_mem_metacharacters {c : Char} (h : c ∈ metacharacters) :
    c.isDigit = false ∧ (c == '\n') = false := by
  simp only [metacharacters, List.mem_cons, List.not_mem_nil, or_false] at h
  rcases h with rfl | rfl | rfl | rfl | rfl | rfl | rfl | rfl | rfl | rfl | rfl | rfl | rfl | rfl <;>
    exact ⟨rfl, rfl⟩

/-- The pieces of an escaped text. -/
theorem ofSource_flatMap_escapeChar (text : List Char) :
    Piece.ofSource (text.flatMap escapeChar) =
      text.map fun c => if metacharacters.contains c then .escape c else .plain c := by
  induction text with
  | nil => exact Piece.ofSource_eq_nil_iff.mpr rfl
  | cons c text ih =>
    rw [List.flatMap_cons, List.map_cons, ← ih, escapeChar]
    split
    · next hmeta =>
      obtain ⟨hdigit, hline⟩ := isDigit_of_mem_metacharacters (List.contains_iff_mem.mp hmeta)
      have hfirst : Piece.first '\\' (c :: text.flatMap escapeChar) =
          (.escape c, text.flatMap escapeChar) := by
        rw [Piece.first, hdigit, hline]
        rfl
      exact Piece.ofSource_of_first hfirst
    · next hmeta =>
      have hne : ∀ d ∈ metacharacters, c ≠ d := by
        rintro d hd rfl
        exact hmeta (List.contains_iff_mem.mpr hd)
      exact Piece.ofSource_plain (hne _ (by decide)) (hne _ (by decide)) (hne _ (by decide))

/-- The source of a text starts with no character that means something, save the backslash of an
escape. -/
theorem head?_flatMap_escapeChar {c : Char} (hmeta : c ∈ metacharacters) (hescape : c ≠ '\\')
    (text : List Char) : (text.flatMap escapeChar).head? ≠ some c := by
  cases text with
  | nil => simp
  | cons d text =>
    rw [List.flatMap_cons, escapeChar]
    split
    · rintro ⟨⟩
      exact hescape rfl
    · next hplain =>
      rintro ⟨⟩
      exact hplain (List.contains_iff_mem.mpr hmeta)

theorem toList_escape (text : String) :
    (escape text).toList = text.toList.flatMap escapeChar := by
  rw [escape, String.toList_ofList]

/-- A text as it stands can be joined and has no groups. -/
theorem joins_escape (text : String) : Joins (escape text) ∧ countGroups (escape text) = 0 := by
  have hpieces := ofSource_flatMap_escapeChar text.toList
  have hplain : ∀ {c : Char}, c ∈ metacharacters →
      .plain c ∉ Piece.ofSource (text.toList.flatMap escapeChar) := by
    intro c hc hmem
    rw [hpieces, List.mem_map] at hmem
    obtain ⟨d, -, heq⟩ := hmem
    split at heq
    · cases heq
    · next hmeta =>
      cases heq
      exact hmeta (List.contains_iff_mem.mpr hc)
  refine ⟨⟨⟨?_, fun hlast => ?_⟩, ?_⟩, ?_⟩
  · rw [toList_escape]
    exact hplain (by decide)
  · rw [toList_escape] at hlast
    exact hplain (by decide) (List.mem_of_getLast? hlast)
  · rw [toList_escape]
    exact head?_flatMap_escapeChar (by decide) (by decide) text.toList
  · rw [countGroups, toList_escape, hpieces, List.countP_map, List.countP_eq_zero]
    intro c _
    dsimp only [Function.comp]
    split <;> simp [Piece.isCapture]

/-- The pieces of alternatives, up to the parenthesis that closes them. -/
theorem ofSource_alternatives {choices : List String}
    (hchoices : ∀ choice ∈ choices, Piece.IsWhole choice.toList) :
    Piece.ofSource (List.intercalate ['|'] (choices.map String.toList) ++ [')']) =
      List.intercalate [.plain '|'] (choices.map fun choice => Piece.ofSource choice.toList) ++
        [.plain ')'] := by
  induction choices with
  | nil =>
    rw [List.map_nil, List.intercalate_nil, List.nil_append, Piece.IsBarrier.close.ofSource,
      Piece.ofSource]
    rfl
  | cons choice choices ih =>
    have hchoice := hchoices choice List.mem_cons_self
    have hrest := ih fun other hmem => hchoices other (List.mem_cons_of_mem _ hmem)
    cases choices with
    | nil =>
      simp only [List.map_cons, List.map_nil, List.intercalate_singleton]
      rw [Piece.ofSource_append .close hchoice, Piece.ofSource]
    | cons other choices =>
      simp only [List.map_cons, List.intercalate_cons_cons, List.append_assoc, List.cons_append,
        List.nil_append] at hrest ⊢
      rw [Piece.ofSource_append .bar hchoice, hrest]

/-- Alternatives can be joined with other sources and have the groups of all of them. -/
theorem joins_oneOf {choices : List String}
    (hchoices : ∀ choice ∈ choices, Piece.IsWhole choice.toList) :
    Joins (oneOf choices) ∧ countGroups (oneOf choices) = (choices.map countGroups).sum := by
  have hsource : (oneOf choices).toList =
      '(' :: '?' :: ':' :: (List.intercalate ['|'] (choices.map String.toList) ++ [')']) := by
    rw [oneOf, String.toList_append, String.toList_append, String.toList_intercalate]
    rfl
  have hopen : ∀ rest, Piece.first '(' ('?' :: ':' :: rest) = (.construct, ':' :: rest) :=
    fun _ => rfl
  have hpieces : Piece.ofSource (oneOf choices).toList = .construct :: .plain ':' ::
      (List.intercalate [.plain '|'] (choices.map fun choice => Piece.ofSource choice.toList) ++
        [.plain ')']) := by
    rw [hsource, Piece.ofSource_of_first (hopen _),
      Piece.ofSource_plain (by decide) (by decide) (by decide), ofSource_alternatives hchoices]
  refine ⟨⟨⟨?_, ?_⟩, ?_⟩, ?_⟩
  · intro hmem
    rw [hpieces] at hmem
    simp only [List.mem_cons, List.mem_append, reduceCtorEq, Piece.plain.injEq, Char.reduceEq,
      List.not_mem_nil, or_false, false_or] at hmem
    obtain hmem | ⟨pieces, hlist, hmem⟩ := mem_of_mem_intercalate hmem
    · simp at hmem
    · obtain ⟨choice, hchoice, rfl⟩ := List.mem_map.mp hlist
      exact (hchoices choice hchoice).closed hmem
  · rw [hpieces, ← List.cons_append, ← List.cons_append, List.getLast?_append]
    exact fun hlast => by cases hlast
  · rw [hsource]
    simp
  · rw [countGroups, hpieces, List.countP_cons_of_neg (by decide),
      List.countP_cons_of_neg (by decide), List.countP_append, countP_intercalate rfl,
      List.map_map]
    rfl

/-- A pattern made of sources that can be joined gives such a source, with as many groups as the
pattern has, however deep its segments are nested. -/
theorem Joinable.joins {pattern : Pattern} (h : pattern.Joinable) :
    Joins pattern.source ∧ countGroups pattern.source = pattern.groupCount := by
  induction h with
  | regex hsource =>
    rw [source, groupCount]
    exact ⟨hsource, rfl⟩
  | literal text =>
    rw [source, groupCount]
    exact joins_escape text
  | @segments parts _ ih =>
    have hjoins : ∀ other ∈ sources parts, Joins other := by
      intro other hmem
      rw [sources_eq_map] at hmem
      obtain ⟨part, hpart, rfl⟩ := List.mem_map.mp hmem
      exact (ih part hpart).1
    have hcount : (sources parts).map countGroups = parts.map groupCount := by
      rw [sources_eq_map, List.map_map]
      exact List.map_congr_left fun part hpart => (ih part hpart).2
    rw [source, groupCount, groupCounts_eq_sum, ← hcount,
      countGroups_joinGroups .empty hjoins, sources_eq_map, List.length_map]
    exact ⟨sources_eq_map parts ▸ joins_joinGroups .empty hjoins, rfl⟩
  | @either choices _ ih =>
    have hwhole : ∀ other ∈ sources choices, Piece.IsWhole other.toList := by
      intro other hmem
      rw [sources_eq_map] at hmem
      obtain ⟨choice, hchoice, rfl⟩ := List.mem_map.mp hmem
      exact (ih choice hchoice).1.whole
    have hcount : (sources choices).map countGroups = choices.map groupCount := by
      rw [sources_eq_map, List.map_map]
      exact List.map_congr_left fun choice hchoice => (ih choice hchoice).2
    rw [source, groupCount, groupCounts_eq_sum, ← hcount]
    exact joins_oneOf hwhole

end Pattern

end Highlighter
