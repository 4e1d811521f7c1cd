import Highlighter.Text.Html
import Mathlib.Data.List.Infix

/-!
# Reading entities back

Text is read back by one replacement for each entity, one after the other. Every entity starts with
an ampersand and has no other one, none is the beginning of another, and the ampersand itself comes
last. So in each replacement the entity is found just where its character has been written with it,
and the ampersands that the last replacement leaves are those of the text.
-/

namespace Highlighter.Text

/-! ## Replacing a word -/

section Replace

variable {needle replacement : List Char}

theorem replaceFrom_skip (word rest : List Char) :
    replaceFrom needle replacement word.length (word ++ rest) =
      replaceFrom needle replacement 0 rest := by
  induction word with
  | nil => rfl
  | cons c word ih => exact ih

/-- The word is replaced where it stands. -/
theorem replaceFrom_needle (hneedle : needle ≠ []) (rest : List Char) :
    replaceFrom needle replacement 0 (needle ++ rest) =
      replacement ++ replaceFrom needle replacement 0 rest := by
  obtain ⟨c, body, rfl⟩ := List.exists_cons_of_ne_nil hneedle
  have hfound : (c :: body).isPrefixOf (c :: (body ++ rest)) = true :=
    List.isPrefixOf_iff_prefix.mpr (List.prefix_append (c :: body) rest)
  rw [List.cons_append, replaceFrom, if_pos hfound, List.length_cons, Nat.add_sub_cancel,
    replaceFrom_skip]

/-- The word does not start inside of another one, whatever follows this. -/
def IsFree (needle word : List Char) : Prop :=
  ∀ first second, word = first ++ second → second ≠ [] → ∀ rest, ¬ needle <+: second ++ rest

/-- Where the word does not start, nothing is replaced. -/
theorem replaceFrom_of_isFree {word : List Char} (h : IsFree needle word) (rest : List Char) :
    replaceFrom needle replacement 0 (word ++ rest) =
      word ++ replaceFrom needle replacement 0 rest := by
  induction word with
  | nil => rfl
  | cons c word ih =>
    have hnot : ¬ needle.isPrefixOf (c :: (word ++ rest)) = true := fun hfound =>
      h [] (c :: word) rfl (List.cons_ne_nil c word) rest (List.isPrefixOf_iff_prefix.mp hfound)
    have hword : IsFree needle word := fun first second heq =>
      h (c :: first) second (congrArg (c :: ·) heq)
    rw [List.cons_append, replaceFrom, if_neg hnot, ih hword, List.cons_append]

/-- Where each character of a text is written as the word or as something free of it, just the
characters written as the word are replaced. -/
theorem replaceAll_flatMap (hneedle : needle ≠ []) {write rewrite : Char → List Char}
    (h : ∀ c, (write c = needle ∧ rewrite c = replacement) ∨
      (rewrite c = write c ∧ IsFree needle (write c))) (text : List Char) :
    replaceAll needle replacement (text.flatMap write) = text.flatMap rewrite := by
  have hempty : ¬ needle.isEmpty = true := fun hempty => hneedle (List.isEmpty_iff.mp hempty)
  rw [replaceAll, if_neg hempty]
  induction text with
  | nil => rfl
  | cons c text ih =>
    rw [List.flatMap_cons, List.flatMap_cons]
    rcases h c with ⟨hwrite, hrewrite⟩ | ⟨hrewrite, hfree⟩
    · rw [hwrite, hrewrite, replaceFrom_needle hneedle, ih]
    · rw [hrewrite, replaceFrom_of_isFree hfree, ih]

end Replace

namespace Html

/-! ## Tables of entities -/

/-- A character as it is written with a table of entities. -/
def write (table : List (String × Char)) (c : Char) : List Char :=
  match table with
  | [] => [c]
  | (entity, special) :: table => if c = special then entity.toList else write table c

/-- A table can be read back from the front: its entities start with an ampersand and have no other
one, they stand for different characters, none is the beginning of another, and the last one stands
for the ampersand. -/
structure IsReadable (table : List (String × Char)) : Prop where
  starts : ∀ entry ∈ table, ∃ body, entry.1.toList = '&' :: body ∧ '&' ∉ body
  apart : table.Pairwise fun entry other => entry.2 ≠ other.2 ∧
    ¬ entry.1.toList <+: other.1.toList ∧ ¬ other.1.toList <+: entry.1.toList
  last : ∀ entry, table.getLast? = some entry → entry.2 = '&'

theorem IsReadable.tail {entry : String × Char} {table : List (String × Char)}
    (h : IsReadable (entry :: table)) : IsReadable table where
  starts other hother := h.starts other (List.mem_cons_of_mem _ hother)
  apart := (List.pairwise_cons.mp h.apart).2
  last other hother := by
    refine h.last other ?_
    rw [List.getLast?_cons, hother]
    rfl

/-- A character is written with the entity of a table, or as it stands where the table has none. -/
theorem write_cases (table : List (String × Char)) (c : Char) :
    (∃ entry ∈ table, entry.2 = c ∧ write table c = entry.1.toList) ∨
      write table c = [c] ∧ ∀ entry ∈ table, entry.2 ≠ c := by
  induction table with
  | nil => exact .inr ⟨rfl, List.forall_mem_nil _⟩
  | cons entry table ih =>
    obtain ⟨entity, special⟩ := entry
    rw [write]
    split
    · next heq => exact .inl ⟨(entity, special), List.mem_cons_self, heq.symm, rfl⟩
    · next hne =>
      rcases ih with ⟨other, hother, heq, hwrite⟩ | ⟨hwrite, hnone⟩
      · exact .inl ⟨other, List.mem_cons_of_mem _ hother, heq, hwrite⟩
      · exact .inr ⟨hwrite, List.forall_mem_cons.mpr ⟨Ne.symm hne, hnone⟩⟩

/-- An entity is free of another one, since an ampersand starts either and they are apart. -/
theorem isFree_entity {body body' : List Char} (hbody' : '&' ∉ body')
    (hapart : ¬ ('&' :: body) <+: ('&' :: body'))
    (hapart' : ¬ ('&' :: body') <+: ('&' :: body)) : IsFree ('&' :: body) ('&' :: body') := by
  intro first second heq hsecond rest hfound
  rcases first with _ | ⟨c, first⟩
  · rw [List.nil_append] at heq
    rw [← heq] at hfound
    rcases List.prefix_or_prefix_of_prefix hfound (List.prefix_append _ rest) with h | h
    · exact hapart h
    · exact hapart' h
  · obtain ⟨-, rfl⟩ := List.cons.inj heq
    obtain ⟨d, second, rfl⟩ := List.exists_cons_of_ne_nil hsecond
    obtain ⟨rfl, -⟩ := List.cons_prefix_cons.mp hfound
    exact hbody' (List.mem_append_right first List.mem_cons_self)

theorem isFree_singleton {body : List Char} {c : Char} (hc : c ≠ '&') :
    IsFree ('&' :: body) [c] := by
  intro first second heq hsecond rest hfound
  rcases List.append_eq_singleton_iff.mp heq.symm with ⟨rfl, rfl⟩ | ⟨rfl, rfl⟩
  · exact hc (List.cons_prefix_cons.mp hfound).1.symm
  · exact hsecond rfl

/-- What is written with the rest of a table is free of its first entity. -/
theorem IsReadable.isFree_write {entity : String} {special : Char} {table : List (String × Char)}
    (h : IsReadable ((entity, special) :: table)) {c : Char} (hc : c ≠ special) :
    IsFree entity.toList (write table c) := by
  obtain ⟨body, hbody, -⟩ := h.starts (entity, special) List.mem_cons_self
  rw [hbody]
  rcases write_cases table c with ⟨other, hother, -, hwrite⟩ | ⟨hwrite, hnone⟩
  · obtain ⟨body', hbody', hno⟩ := h.starts other (List.mem_cons_of_mem _ hother)
    obtain ⟨-, hapart, hapart'⟩ := (List.pairwise_cons.mp h.apart).1 other hother
    rw [hbody, hbody'] at hapart hapart'
    rw [hwrite, hbody']
    exact isFree_entity hno hapart hapart'
  · have hamp : c ≠ '&' := by
      rintro rfl
      have hlast := h.last _ List.getLast?_cons
      cases htail : table.getLast? with
      | none =>
        rw [htail] at hlast
        exact hc hlast.symm
      | some other =>
        rw [htail] at hlast
        exact hnone other (List.mem_of_getLast? htail) hlast
    rw [hwrite]
    exact isFree_singleton hamp

/-- What is written with a readable table is read back by replacing its entities in turn. -/
theorem IsReadable.foldl_replaceAll {table : List (String × Char)} (h : IsReadable table)
    (text : List Char) :
    table.foldl (fun text entry => replaceAll entry.1.toList [entry.2] text)
      (text.flatMap (write table)) = text := by
  induction table with
  | nil => exact List.flatMap_singleton' text
  | cons entry table ih =>
    obtain ⟨entity, special⟩ := entry
    obtain ⟨body, hbody, -⟩ := h.starts (entity, special) List.mem_cons_self
    have hne : entity.toList ≠ [] := by
      rw [hbody]
      exact List.cons_ne_nil _ _
    have hreplace : replaceAll entity.toList [special]
        (text.flatMap (write ((entity, special) :: table))) = text.flatMap (write table) := by
      refine replaceAll_flatMap hne (fun c => ?_) text
      by_cases hc : c = special
      · left
        rcases write_cases table c with ⟨other, hother, heq, -⟩ | ⟨hwrite, -⟩
        · exact absurd (heq.trans hc).symm ((List.pairwise_cons.mp h.apart).1 other hother).1
        · rw [write, if_pos hc, hwrite, hc]
          exact ⟨rfl, rfl⟩
      · right
        rw [write, if_neg hc]
        exact ⟨rfl, h.isFree_write hc⟩
    rw [List.foldl_cons, hreplace]
    exact ih h.tail

theorem entities_isReadable : IsReadable entities where
  starts := by
    intro entry hentry
    obtain ⟨hstart, hbody⟩ : entry.1.toList.head? = some '&' ∧ '&' ∉ entry.1.toList.tail := by
      revert entry
      decide +kernel
    exact ⟨_, List.eq_cons_of_mem_head? hstart, hbody⟩
  apart := by
    simp only [entities]
    decide +kernel
  last := by
    intro entry hentry
    cases hentry
    rfl

theorem write_entities (c : Char) : write entities c = escapeChar c := by
  unfold escapeChar
  split
  · rfl
  · rfl
  · rfl
  · rfl
  · rfl
  · next hamp hlt hgt hquot hapos =>
    rw [entities, write, if_neg hlt, write, if_neg hgt, write, if_neg hquot, write, if_neg hapos,
      write, if_neg hamp, write]

/-- Text that is written in HTML is read back. -/
theorem unescape_escape (text : String) : unescape (escape text) = text := by
  have hread := entities_isReadable.foldl_replaceAll text.toList
  rw [funext write_entities] at hread
  rw [unescape, escape, String.toList_ofList]
  exact (congrArg String.ofList hread).trans (String.ofList_toList)

/-! ## What escaping writes -/

theorem escapeChars_append (first second : List Char) :
    escapeChars (first ++ second) = escapeChars first ++ escapeChars second :=
  List.flatMap_append

/-- Text that is written in HTML opens no tag. -/
theorem not_mem_escapeChars (text : List Char) : '<' ∉ escapeChars text := by
  intro hmem
  obtain ⟨c, -, hc⟩ := List.mem_flatMap.mp hmem
  unfold escapeChar at hc
  split at hc
  case h_6 hlt _ _ _ => exact hlt (List.mem_singleton.mp hc).symm
  all_goals exact absurd hc (by decide +kernel)

end Html

end Highlighter.Text
