import Highlighter.Proofs.Pattern.Source
import Highlighter.Proofs.Regex.Escape

/-!
# Readers side by side

A source is read twice: on its own, and with its references moved up in front of a closing
parenthesis, as it stands in a group of its own. The two readers are aligned while they have got
equally far. They lose each other only where a comment runs to the end of the source, since there
the second reader takes the parenthesis for a part of the comment.
-/

namespace Highlighter.Regex.Tree

open Pattern (Renumbers)

/-- Where a reader has got to. -/
structure Place where
  progress : Progress
  source : List Char

/-- A comment to the end of a line has taken the rest of the source. -/
def Place.Lost (place : Place) : Prop :=
  place.progress.flags.ignoreBlank = true ∧ place.source = []

/-- The second reader has got as far as the first. It has opened `offset` more groups, so that all
numbers are higher, and it has met the references `base` before. -/
structure Aligned (offset : Nat) (base : List Nat) (tail : List Char) (place place' : Place) :
    Prop where
  source : ∃ moved, place'.source = moved ++ ')' :: tail ∧ Renumbers offset place.source moved
  flags : place'.progress.flags = place.progress.flags
  groups : place'.progress.groups = place.progress.groups + offset
  referenced : place'.progress.referenced = place.progress.referenced.map (· + offset) ++ base
  known : ∀ number ∈ place.progress.referenced, 0 < number ∧ number ≤ place.progress.groups

/-- Either both sources are as they were, or both have become shorter. -/
def Passes (source source' rest rest' : List Char) : Prop :=
  rest = source ∧ rest' = source' ∨ rest.length < source.length ∧ rest'.length < source'.length

namespace Passes

variable {source source' middle middle' rest rest' : List Char}

theorem refl (source source' : List Char) : Passes source source' source source' :=
  .inl ⟨rfl, rfl⟩

theorem trans (h : Passes source source' middle middle') (h' : Passes middle middle' rest rest') :
    Passes source source' rest rest' := by
  rcases h with ⟨rfl, rfl⟩ | ⟨hlt, hlt'⟩
  · exact h'
  · rcases h' with ⟨rfl, rfl⟩ | ⟨hless, hless'⟩
    · exact .inr ⟨hlt, hlt'⟩
    · exact .inr ⟨by omega, by omega⟩

theorem append (h : Passes source source' rest rest') (tail : List Char) :
    Passes source (source' ++ tail) rest (rest' ++ tail) := by
  rcases h with ⟨rfl, rfl⟩ | ⟨hlt, hlt'⟩
  · exact .refl _ _
  · refine .inr ⟨hlt, ?_⟩
    simp only [List.length_append]
    omega

/-- The same word stands in front of both sources. -/
theorem of_word (word rest rest' : List Char) :
    Passes (word ++ rest) (word ++ rest') rest rest' := by
  cases word with
  | nil => exact .refl _ _
  | cons c word =>
    refine .inr ⟨?_, ?_⟩ <;> simp only [List.cons_append, List.length_cons, List.length_append] <;>
      omega

theorem le (h : Passes source source' rest rest') :
    rest.length ≤ source.length ∧ rest'.length ≤ source'.length := by
  rcases h with ⟨rfl, rfl⟩ | ⟨hlt, hlt'⟩
  · exact ⟨Nat.le_refl _, Nat.le_refl _⟩
  · exact ⟨Nat.le_of_lt hlt, Nat.le_of_lt hlt'⟩

theorem length_eq_iff (h : Passes source source' rest rest') :
    rest.length = source.length ↔ rest'.length = source'.length := by
  rcases h with ⟨rfl, rfl⟩ | ⟨hlt, hlt'⟩
  · exact iff_of_true rfl rfl
  · exact iff_of_false (by omega) (by omega)

end Passes

/-! ## Comments -/

variable {offset : Nat} {source moved rest : List Char}

theorem skipComment_cons {c : Char} (hclose : c ≠ ')') (hbackslash : c ≠ '\\')
    (rest : List Char) : skipComment (c :: rest) = skipComment rest := by
  rw [skipComment]
  · exact hclose
  · exact fun _ _ heq => absurd heq hbackslash
  · exact fun heq => absurd heq hbackslash

theorem skipComment_digits {digits : List Char} (hdigits : ∀ c ∈ digits, c.isDigit = true)
    (rest : List Char) : skipComment (digits ++ rest) = skipComment rest := by
  induction digits with
  | nil => rfl
  | cons c digits ih =>
    have hc := hdigits c List.mem_cons_self
    have hclose : c ≠ ')' := by
      rintro rfl
      cases hc
    have hbackslash : c ≠ '\\' := by
      rintro rfl
      cases hc
    rw [List.cons_append, skipComment_cons hclose hbackslash,
      ih fun d hd => hdigits d (List.mem_cons_of_mem _ hd)]

/-- After a backslash, a comment skips the digits of a reference. -/
theorem skipComment_reference {digits : List Char} (hdigits : ∀ c ∈ digits, c.isDigit = true)
    (hne : digits ≠ []) (rest : List Char) :
    skipComment ('\\' :: (digits ++ rest)) = skipComment rest := by
  cases digits with
  | nil => exact absurd rfl hne
  | cons c digits =>
    exact skipComment_digits (fun d hd => hdigits d (List.mem_cons_of_mem _ hd)) rest

/-- A comment ends at the same place, whatever follows the source. -/
theorem skipComment_renumbers (h : Renumbers offset source moved)
    (hskip : skipComment source = .ok rest) :
    ∃ moved', Renumbers offset rest moved' ∧ rest.length < source.length ∧
      moved'.length < moved.length ∧
      ∀ tail, skipComment (moved ++ tail) = .ok (moved' ++ tail) := by
  induction h with
  | nil => cases hskip
  | stray => cases hskip
  | @plain c source moved hplain hunnamed hrest ih =>
    by_cases hclose : c = ')'
    · subst hclose
      cases hskip
      exact ⟨moved, hrest, Nat.lt_succ_self _, Nat.lt_succ_self _, fun tail => rfl⟩
    · rw [skipComment_cons hclose hplain] at hskip
      obtain ⟨moved', hmoved, hlt, hlt', hread⟩ := ih hskip
      refine ⟨moved', hmoved, Nat.lt_succ_of_lt hlt, Nat.lt_succ_of_lt hlt', fun tail => ?_⟩
      rw [List.cons_append, skipComment_cons hclose hplain, hread]
  | @escape c source moved hdigit hname hrest ih =>
    obtain ⟨moved', hmoved, hlt, hlt', hread⟩ := ih hskip
    refine ⟨moved', hmoved, ?_, ?_, fun tail => hread tail⟩ <;> simp only [List.length_cons] <;>
      omega
  | @reference c digits source moved hzero hdigits hend hrest ih =>
    rw [skipComment_reference hdigits (List.cons_ne_nil _ _)] at hskip
    obtain ⟨moved', hmoved, hlt, hlt', hread⟩ := ih hskip
    refine ⟨moved', hmoved, ?_, ?_, fun tail => ?_⟩
    · simp only [List.length_cons, List.length_append]
      omega
    · simp only [List.length_cons, List.length_append]
      omega
    · rw [List.cons_append, List.append_assoc, skipComment_reference
        (Pattern.isDigit_of_mem_movedDigits hdigits) Pattern.movedDigits_ne_nil, hread]

/-- What follows the first line of a source. -/
def afterLine (source : List Char) : List Char :=
  (source.dropWhile (· != '\n')).drop 1

theorem afterLine_cons {c : Char} (hline : c ≠ '\n') (rest : List Char) :
    afterLine (c :: rest) = afterLine rest := by
  unfold afterLine
  rw [List.dropWhile_cons_of_pos (by simpa using hline)]

theorem afterLine_digits {digits : List Char} (hdigits : ∀ c ∈ digits, c.isDigit = true)
    (rest : List Char) : afterLine (digits ++ rest) = afterLine rest := by
  unfold afterLine
  rw [List.dropWhile_append_of_pos]
  intro c hc
  have hdigit := hdigits c hc
  simp only [bne_iff_ne, ne_eq]
  rintro rfl
  cases hdigit

/-- A line ends at the same place, whatever follows the source; the last line takes all of it. -/
theorem afterLine_renumbers (h : Renumbers offset source moved) :
    afterLine source = [] ∨
      ∃ moved', Renumbers offset (afterLine source) moved' ∧
        (afterLine source).length < source.length ∧ moved'.length < moved.length ∧
        ∀ tail, afterLine (moved ++ tail) = moved' ++ tail := by
  induction h with
  | nil => exact .inl rfl
  | stray => exact .inl rfl
  | @plain c source moved hplain hunnamed hrest ih =>
    by_cases hline : c = '\n'
    · subst hline
      exact .inr ⟨moved, hrest, Nat.lt_succ_self _, Nat.lt_succ_self _, fun tail => rfl⟩
    · simp only [List.cons_append, afterLine_cons hline, List.length_cons]
      refine ih.imp_right ?_
      rintro ⟨moved', hmoved, hlt, hlt', hread⟩
      exact ⟨moved', hmoved, by omega, by omega, hread⟩
  | @escape c source moved hdigit hname hrest ih =>
    have hbackslash : ('\\' : Char) ≠ '\n' := by decide
    by_cases hline : c = '\n'
    · subst hline
      exact .inr ⟨moved, hrest, Nat.lt_add_of_pos_right Nat.two_pos,
        Nat.lt_add_of_pos_right Nat.two_pos, fun tail => rfl⟩
    · simp only [List.cons_append, afterLine_cons hbackslash, afterLine_cons hline,
        List.length_cons]
      refine ih.imp_right ?_
      rintro ⟨moved', hmoved, hlt, hlt', hread⟩
      exact ⟨moved', hmoved, by omega, by omega, hread⟩
  | @reference c digits source moved hzero hdigits hend hrest ih =>
    have hbackslash : ('\\' : Char) ≠ '\n' := by decide
    simp only [List.cons_append, List.append_assoc, afterLine_cons hbackslash,
      afterLine_digits (Pattern.isDigit_of_mem_movedDigits hdigits), List.length_cons,
      List.length_append]
    have hsame : afterLine (c :: (digits ++ source)) = afterLine source :=
      afterLine_digits hdigits source
    rw [hsame]
    refine ih.imp_right ?_
    rintro ⟨moved', hmoved, hlt, hlt', hread⟩
    exact ⟨moved', hmoved, by omega, by omega, hread⟩

/-! ## What the flags ignore -/

variable {ignoreBlank : Bool}

theorem skipIgnored_nil (ignoreBlank : Bool) (fuel : Nat) :
    skipIgnored ignoreBlank fuel [] = .ok [] := by
  cases fuel <;> rfl

theorem skipIgnored_comment (ignoreBlank : Bool) (fuel : Nat) (rest : List Char) :
    skipIgnored ignoreBlank (fuel + 1) ('(' :: '?' :: '#' :: rest) =
      (skipComment rest >>= skipIgnored ignoreBlank fuel) := rfl

theorem skipIgnored_line (ignoreBlank : Bool) (fuel : Nat) (rest : List Char) :
    skipIgnored ignoreBlank (fuel + 1) ('#' :: rest) =
      if ignoreBlank then skipIgnored ignoreBlank fuel (afterLine rest) else .ok ('#' :: rest) :=
  rfl

theorem skipIgnored_other {c : Char} {rest : List Char} (hline : c ≠ '#')
    (hcomment : c = '(' → ¬ ['?', '#'] <+: rest) (ignoreBlank : Bool) (fuel : Nat) :
    skipIgnored ignoreBlank (fuel + 1) (c :: rest) =
      if ignoreBlank && (c == ' ' || c == '\r' || c == '\n' || c == '\t') then
        skipIgnored ignoreBlank fuel rest
      else .ok (c :: rest) := by
  rw [skipIgnored]
  · rintro other rfl heq
    exact hcomment rfl ⟨other, heq.symm⟩
  · exact hline

/-- Nothing is skipped in front of a character that is neither blank nor the start of a comment. -/
theorem skipIgnored_id {c : Char} {rest : List Char} (hline : c ≠ '#')
    (hcomment : c = '(' → ¬ ['?', '#'] <+: rest)
    (hblank : (c == ' ' || c == '\r' || c == '\n' || c == '\t') = false) (ignoreBlank : Bool)
    (fuel : Nat) : skipIgnored ignoreBlank fuel (c :: rest) = .ok (c :: rest) := by
  cases fuel with
  | zero => rfl
  | succ fuel =>
    rw [skipIgnored_other hline hcomment, hblank, Bool.and_false, if_neg Bool.false_ne_true]

theorem skipIgnored_backslash (ignoreBlank : Bool) (fuel : Nat) (rest : List Char) :
    skipIgnored ignoreBlank fuel ('\\' :: rest) = .ok ('\\' :: rest) :=
  skipIgnored_id (by decide) (fun h => absurd h (by decide)) (by decide) _ _

theorem skipIgnored_close (ignoreBlank : Bool) (fuel : Nat) (rest : List Char) :
    skipIgnored ignoreBlank fuel (')' :: rest) = .ok (')' :: rest) :=
  skipIgnored_id (by decide) (fun h => absurd h (by decide)) (by decide) _ _

/-- A comment ends with its parenthesis. -/
theorem skipComment_source {source rest : List Char} (h : skipComment source = .ok rest) :
    ∃ text, source = text ++ ')' :: rest := by
  fun_induction skipComment source with
  | case1 => cases h
  | case2 =>
    cases h
    exact ⟨[], rfl⟩
  | case3 c _ ih =>
    obtain ⟨text, rfl⟩ := ih h
    exact ⟨'\\' :: c :: text, rfl⟩
  | case4 => cases h
  | case5 c _ _ _ _ ih =>
    obtain ⟨text, rfl⟩ := ih h
    exact ⟨c :: text, rfl⟩

theorem skipComment_suffix {source rest : List Char} (h : skipComment source = .ok rest) :
    rest <:+ source := by
  obtain ⟨text, rfl⟩ := skipComment_source h
  exact (List.suffix_cons _ _).trans (List.suffix_append _ _)

theorem afterLine_suffix (source : List Char) : afterLine source <:+ source :=
  (List.drop_suffix 1 _).trans (List.dropWhile_suffix _)

/-- Once skipped, there is nothing more to skip. -/
theorem skipIgnored_skipIgnored {fuel : Nat} (hfuel : source.length ≤ fuel)
    (h : skipIgnored ignoreBlank fuel source = .ok rest) (fuel' : Nat) :
    skipIgnored ignoreBlank fuel' rest = .ok rest := by
  induction fuel generalizing source with
  | zero =>
    cases List.length_eq_zero_iff.mp (Nat.le_zero.mp hfuel)
    cases h
    exact skipIgnored_nil _ _
  | succ fuel ih =>
    cases source with
    | nil =>
      cases h
      exact skipIgnored_nil _ _
    | cons c source =>
      simp only [List.length_cons] at hfuel
      by_cases hline : c = '#'
      · subst hline
        rw [skipIgnored_line] at h
        cases ignoreBlank
        · cases h
          cases fuel' <;> rfl
        · exact ih (Nat.le_trans (afterLine_suffix source).length_le (Nat.le_of_succ_le_succ hfuel)) h
      · by_cases hcomment : c = '(' → ¬ ['?', '#'] <+: source
        · rw [skipIgnored_other hline hcomment] at h
          split at h
          · exact ih (Nat.le_of_succ_le_succ hfuel) h
          · next hblank =>
            cases h
            cases fuel' with
            | zero => rfl
            | succ fuel' => rw [skipIgnored_other hline hcomment, if_neg hblank]
        · simp only [Classical.not_imp, Classical.not_not] at hcomment
          obtain ⟨rfl, body, rfl⟩ := hcomment
          obtain ⟨after, hafter, h⟩ := ok_of_bind_eq_ok h
          have hlength : after.length ≤ body.length := (skipComment_suffix hafter).length_le
          simp only [List.length_append] at hfuel
          exact ih (by omega) h

/-- Both readers skip the same, unless a comment to the end of a line takes the rest. -/
theorem skipIgnored_renumbers {fuel : Nat} (fuel' : Nat) (h : Renumbers offset source moved)
    (tail : List Char) (hfuel : source.length ≤ fuel) (hfuel' : moved.length < fuel')
    (hskip : skipIgnored ignoreBlank fuel source = .ok rest) :
    (ignoreBlank = true ∧ rest = []) ∨
      ∃ moved', Renumbers offset rest moved' ∧ Passes source moved rest moved' ∧
        skipIgnored ignoreBlank fuel' (moved ++ ')' :: tail) = .ok (moved' ++ ')' :: tail) := by
  induction fuel generalizing source moved fuel' with
  | zero =>
    cases List.length_eq_zero_iff.mp (Nat.le_zero.mp hfuel)
    cases h
    cases hskip
    exact .inr ⟨[], .nil, .refl _ _, skipIgnored_close _ _ _⟩
  | succ fuel ih =>
    obtain ⟨fuel', rfl⟩ := Nat.exists_eq_succ_of_ne_zero (Nat.ne_of_gt (Nat.zero_lt_of_lt hfuel'))
    cases h with
    | nil =>
      cases hskip
      exact .inr ⟨[], .nil, .refl _ _, skipIgnored_close _ _ _⟩
    | stray =>
      rw [skipIgnored_backslash] at hskip
      cases hskip
      exact .inr ⟨['\\'], .stray, .refl _ _, skipIgnored_backslash _ _ _⟩
    | escape hdigit hname hrest =>
      rw [skipIgnored_backslash] at hskip
      cases hskip
      exact .inr ⟨_, .escape hdigit hname hrest, .refl _ _, skipIgnored_backslash _ _ _⟩
    | reference hzero hdigits hend hrest =>
      rw [skipIgnored_backslash] at hskip
      cases hskip
      exact .inr ⟨_, .reference hzero hdigits hend hrest, .refl _ _, skipIgnored_backslash _ _ _⟩
    | @plain c source moved hplain hunnamed hrest =>
      simp only [List.length_cons] at hfuel hfuel'
      by_cases hline : c = '#'
      · subst hline
        rw [skipIgnored_line] at hskip
        cases ignoreBlank
        · cases hskip
          exact .inr ⟨_, .plain hplain hunnamed hrest, .refl _ _, skipIgnored_line _ _ _⟩
        · rw [if_pos rfl] at hskip
          rcases afterLine_renumbers hrest with hnil | ⟨moved', hmoved, hlt, hlt', hread⟩
          · rw [hnil, skipIgnored_nil] at hskip
            cases hskip
            exact .inl ⟨rfl, rfl⟩
          · refine (ih fuel' hmoved (by omega) (by omega) hskip).imp_right ?_
            rintro ⟨last, hlast, hpasses, hagain⟩
            have hline : Passes ('#' :: source) ('#' :: moved) (afterLine source) moved' :=
              .inr ⟨Nat.lt_succ_of_lt hlt, Nat.lt_succ_of_lt hlt'⟩
            refine ⟨last, hlast, hline.trans hpasses, ?_⟩
            rw [List.cons_append, skipIgnored_line, if_pos rfl, hread, hagain]
      · by_cases hcomment : c = '(' → ¬ ['?', '#'] <+: source
        · have hcomment' : c = '(' → ¬ ['?', '#'] <+: moved ++ ')' :: tail := by
            rwa [hrest.prefix_append_iff tail (by decide) (by decide)]
          rw [skipIgnored_other hline hcomment] at hskip
          rw [List.cons_append, skipIgnored_other hline hcomment']
          split at hskip
          · next hblank =>
            rw [if_pos hblank]
            refine (ih fuel' hrest (by omega) (by omega) hskip).imp_right ?_
            rintro ⟨last, hlast, hpasses, hagain⟩
            have hfirst : Passes (c :: source) (c :: moved) source moved := .of_word [c] _ _
            exact ⟨last, hlast, hfirst.trans hpasses, hagain⟩
          · next hblank =>
            rw [if_neg hblank]
            cases hskip
            exact .inr ⟨_, .plain hplain hunnamed hrest, .refl _ _, rfl⟩
        · simp only [Classical.not_imp, Classical.not_not] at hcomment
          obtain ⟨rfl, body, rfl⟩ := hcomment
          obtain ⟨moved', rfl, hbody⟩ := hrest.of_append (by decide)
          obtain ⟨after, hafter, hskip⟩ := ok_of_bind_eq_ok hskip
          obtain ⟨moved, hmoved, hlt, hlt', hread⟩ := skipComment_renumbers hbody hafter
          simp only [List.length_append] at hfuel hfuel'
          refine (ih fuel' hmoved (by omega) (by omega) hskip).imp_right ?_
          rintro ⟨last, hlast, hpasses, hagain⟩
          have hword : Passes ('(' :: (['?', '#'] ++ body)) ('(' :: (['?', '#'] ++ moved')) body
              moved' := .of_word ['(', '?', '#'] _ _
          have hcomment : Passes body moved' after moved := .inr ⟨hlt, hlt'⟩
          refine ⟨last, hlast, (hword.trans hcomment).trans hpasses, ?_⟩
          have hstart := skipIgnored_comment ignoreBlank fuel' (moved' ++ ')' :: tail)
          rw [hread] at hstart
          exact hstart.trans hagain

theorem skipIgnored_suffix {fuel : Nat} (h : skipIgnored ignoreBlank fuel source = .ok rest) :
    rest <:+ source := by
  fun_induction skipIgnored ignoreBlank fuel source with
  | case1 =>
    cases h
    exact List.suffix_rfl
  | case2 fuel inside ih =>
    obtain ⟨after, hafter, h⟩ := ok_of_bind_eq_ok h
    exact ((ih after h).trans (skipComment_suffix hafter)).trans ⟨['(', '?', '#'], rfl⟩
  | case3 fuel inside hblank ih =>
    have hline : rest <:+ afterLine inside := ih h
    exact (hline.trans (afterLine_suffix inside)).trans (List.suffix_cons _ _)
  | case4 =>
    cases h
    exact List.suffix_rfl
  | case5 fuel c inside _ _ _ ih => exact (ih h).trans (List.suffix_cons _ _)
  | case6 =>
    cases h
    exact List.suffix_rfl
  | case7 =>
    cases h
    exact List.suffix_rfl

theorem skip_suffix {progress : Progress} (h : skip progress source = .ok rest) :
    rest <:+ source :=
  skipIgnored_suffix h

theorem skip_skip {progress : Progress} (h : skip progress source = .ok rest) :
    skip progress rest = .ok rest :=
  skipIgnored_skipIgnored (Nat.le_refl _) h _

section Aligned

variable {base : List Nat} {tail : List Char} {progress progress' : Progress}
  {source source' rest : List Char}

/-- Only the source changes where something is skipped or taken that has no part in numbering. -/
theorem Aligned.withSource
    (h : Aligned offset base tail ⟨progress, source⟩ ⟨progress', source'⟩)
    (hrest : Renumbers offset rest moved) :
    Aligned offset base tail ⟨progress, rest⟩ ⟨progress', moved ++ ')' :: tail⟩ :=
  ⟨⟨moved, rfl, hrest⟩, h.flags, h.groups, h.referenced, h.known⟩

/-- Both readers see the same character. -/
theorem Aligned.head? (h : Aligned offset base tail ⟨progress, source⟩ ⟨progress', source'⟩) :
    source'.head? = some (source.head?.getD ')') := by
  obtain ⟨moved, hsource, hmoved⟩ := h.source
  simp only at hsource
  rw [hsource]
  exact hmoved.head?_append ')' tail

theorem Aligned.head?_eq_some_iff {c : Char}
    (h : Aligned offset base tail ⟨progress, source⟩ ⟨progress', source'⟩) (hc : c ≠ ')') :
    source'.head? = some c ↔ source.head? = some c := by
  rw [h.head?]
  cases source with
  | nil => simp [Ne.symm hc]
  | cons d source => simp

/-- Both readers take the same character. -/
theorem Aligned.uncons {c : Char}
    (h : Aligned offset base tail ⟨progress, c :: source⟩ ⟨progress', source'⟩)
    (hplain : c ≠ '\\') :
    ∃ rest', source' = c :: rest' ∧
      Aligned offset base tail ⟨progress, source⟩ ⟨progress', rest'⟩ := by
  obtain ⟨moved, hsource, hmoved⟩ := h.source
  simp only at hsource hmoved
  obtain ⟨moved', rfl, hrest⟩ := hmoved.uncons hplain
  exact ⟨moved' ++ ')' :: tail, hsource, h.withSource hrest⟩

theorem Aligned.skip (h : Aligned offset base tail ⟨progress, source⟩ ⟨progress', source'⟩)
    (hskip : skip progress source = .ok rest) :
    Place.Lost ⟨progress, rest⟩ ∨
      ∃ rest', skip progress' source' = .ok rest' ∧
        Aligned offset base tail ⟨progress, rest⟩ ⟨progress', rest'⟩ ∧
        Passes source source' rest rest' := by
  obtain ⟨moved, hsource, hmoved⟩ := h.source
  simp only at hsource hmoved
  subst hsource
  have hflags : progress'.flags = progress.flags := h.flags
  have hfuel : moved.length < (moved ++ ')' :: tail).length := by
    simp only [List.length_append, List.length_cons]
    omega
  rcases skipIgnored_renumbers (moved ++ ')' :: tail).length hmoved tail (Nat.le_refl _) hfuel hskip
    with hlost | ⟨moved', hmoved', hpasses, hagain⟩
  · exact .inl hlost
  · refine .inr ⟨_, ?_, h.withSource hmoved', hpasses.append _⟩
    rw [Tree.skip, hflags]
    exact hagain

end Aligned

end Highlighter.Regex.Tree
