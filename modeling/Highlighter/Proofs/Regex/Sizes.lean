import Highlighter.Proofs.Regex.Settled

/-!
# Sizes of settled trees

What the sizes of a tree say holds of its program inside a settled part: a match takes at least as
many characters as the least size, exactly so many where the structure shows that the size is fixed,
and it records the groups of the tree.
-/

namespace Highlighter.Regex

variable {text : Array Char} {watched : Nat → Prop} {referenced : List Nat}

namespace Tree

theorem minSizeLeast_le {choice : Tree} {choices : List Tree} (h : choice ∈ choices) :
    minSizeLeast choices ≤ choice.minSize := by
  induction choices with
  | nil => cases h
  | cons first choices ih =>
    cases choices with
    | nil =>
      cases List.mem_singleton.mp h
      exact Nat.le_refl _
    | cons second choices =>
      rw [minSizeLeast]
      · rcases List.mem_cons.mp h with rfl | h
        · exact Nat.min_le_left _ _
        · exact Nat.le_trans (Nat.min_le_right _ _) (ih h)
      · exact List.cons_ne_nil _ _

theorem haveOneSize_some {size : Nat} {choices : List Tree}
    (h : haveOneSize (some size) choices = true) :
    ∀ choice ∈ choices, choice.hasFixedSize = true ∧ choice.minSize = size := by
  induction choices with
  | nil => exact List.forall_mem_nil _
  | cons first choices ih =>
    simp only [haveOneSize, Bool.and_eq_true, beq_iff_eq] at h
    obtain ⟨⟨hfixed, rfl⟩, hrest⟩ := h
    exact List.forall_mem_cons.mpr ⟨⟨hfixed, rfl⟩, ih hrest⟩

theorem minSizeLeast_of_forall {size : Nat} {choices : List Tree} (hsome : choices ≠ [])
    (h : ∀ choice ∈ choices, choice.minSize = size) : minSizeLeast choices = size := by
  induction choices with
  | nil => exact absurd rfl hsome
  | cons first choices ih =>
    obtain ⟨hfirst, hrest⟩ := List.forall_mem_cons.mp h
    cases choices with
    | nil => exact hfirst
    | cons second choices =>
      rw [minSizeLeast, hfirst, ih (List.cons_ne_nil _ _) hrest, Nat.min_self]
      exact List.cons_ne_nil _ _

/-- Choices of one size have the least of their sizes. -/
theorem haveOneSize_none {choices : List Tree} (h : haveOneSize none choices = true) :
    ∀ choice ∈ choices, choice.hasFixedSize = true ∧ choice.minSize = minSizeLeast choices := by
  cases choices with
  | nil => exact List.forall_mem_nil _
  | cons first choices =>
    simp only [haveOneSize, Bool.and_true, Bool.and_eq_true] at h
    have hall : ∀ choice ∈ first :: choices,
        choice.hasFixedSize = true ∧ choice.minSize = first.minSize :=
      List.forall_mem_cons.mpr ⟨⟨h.1, rfl⟩, haveOneSize_some h.2⟩
    rw [minSizeLeast_of_forall (List.cons_ne_nil _ _) fun choice hchoice => (hall choice hchoice).2]
    exact hall

/-- A program gets as far as the sizes of a tree say. -/
def Measures (text : Array Char) (tree : Tree) (program : Program) : Prop :=
  program.Advance text tree.minSize tree.hasFixedSize tree.groupNumbers

theorem measures_seqs {items : List Tree} {programs : List Program}
    (h : List.Forall₂ (Measures text) items programs) :
    (Program.seqs programs).Advance text (minSizeSum items) (haveFixedSize items)
      (groupNumbersOf items) := by
  induction h with
  | nil =>
    intro state after hafter
    cases List.mem_singleton.mp hafter
    exact .refl state _ _
  | @cons item program items programs hfirst hrest ih =>
    cases hrest with
    | nil =>
      refine Ends.Advance.mono hfirst (Nat.le_refl _) (fun hfixed => ⟨?_, rfl⟩) ?_
      · simpa [haveFixedSize] using hfixed
      · simp [groupNumbersOf]
    | cons => exact Ends.Advance.comp hfirst ih

theorem measures_alts {choices : List Tree} {programs : List Program}
    (h : List.Forall₂ (Measures text) choices programs) :
    Measures text (.alt choices) (.alts programs) := by
  cases h with
  | nil =>
    intro state after hafter
    cases List.mem_singleton.mp hafter
    exact .refl state _ _
  | @cons first program others programs hfirst hothers =>
    have hall : ∀ program' ∈ program :: programs, ∃ choice ∈ first :: others,
        Measures text choice program' := by
      intro program' hmem
      obtain ⟨index, hindex, rfl⟩ := List.getElem_of_mem hmem
      have hforall := List.Forall₂.cons hfirst hothers
      have hindex' : index < (first :: others).length := by rw [hforall.length_eq]; exact hindex
      exact ⟨(first :: others)[index], List.getElem_mem hindex', hforall.get hindex' hindex⟩
    refine Program.Advance.alts (List.cons_ne_nil _ _) fun program' hmem => ?_
    obtain ⟨choice, hchoice, hmeasures⟩ := hall program' hmem
    refine Ends.Advance.mono hmeasures (minSizeLeast_le hchoice) (fun hfixed => ?_) fun number hnumber => ?_
    · obtain ⟨hchoiceFixed, hsize⟩ := haveOneSize_none hfixed choice hchoice
      exact ⟨hchoiceFixed, hsize.symm⟩
    · exact mem_groupNumbersOf.mpr ⟨choice, hchoice, hnumber⟩

mutual
/-- Inside a settled part, a tree without lookarounds, references and atomic parts takes what its
sizes say. -/
theorem settle_measures {tree : Tree} {program : Program} (heasy : tree.isHard referenced = false)
    (h : tree.settle = .ok program) : Measures text tree program := by
  match tree with
  | .look .. | .atomic _ | .backref _ => cases heasy
  | .empty =>
    cases h
    intro state after hafter
    cases List.mem_singleton.mp hafter
    exact .refl state _ _
  | .char set =>
    cases h
    intro state after hafter
    rw [Program.ends] at hafter
    cases hc : text[state.position]? with
    | none =>
      rw [hc] at hafter
      cases hafter
    | some c =>
      rw [hc] at hafter
      simp only at hafter
      split at hafter
      · cases List.mem_singleton.mp hafter
        obtain ⟨hlt, -⟩ := Array.getElem?_eq_some_iff.mp hc
        exact ⟨Nat.le_refl _, fun _ => rfl, .inr hlt, fun _ _ => rfl⟩
      · cases hafter
  | .anchor position =>
    cases h
    intro state after hafter
    rw [Program.ends] at hafter
    split at hafter
    · cases List.mem_singleton.mp hafter
      exact .refl state _ _
    · cases hafter
  | .concat items =>
    obtain ⟨programs, hprograms, hpure⟩ := ok_of_bind_eq_ok h
    cases hpure
    exact measures_seqs (settleAll_measures heasy hprograms)
  | .alt choices =>
    obtain ⟨programs, hprograms, hpure⟩ := ok_of_bind_eq_ok h
    cases hpure
    exact measures_alts (settleAll_measures heasy hprograms)
  | .group number body =>
    obtain ⟨inner, hinner, hpure⟩ := ok_of_bind_eq_ok h
    cases hpure
    rw [isHard, Bool.or_eq_false_iff] at heasy
    exact Program.Advance.group (settle_measures heasy.2 hinner) number
  | .repeated body least (some most) greedy =>
    obtain ⟨inner, hinner, h⟩ := ok_of_bind_eq_ok h
    have hbody : Measures text body inner := settle_measures heasy hinner
    dsimp only at h
    split at h
    · cases h
    · cases h
      refine Ends.Advance.mono (hbody.times least (most - least) greedy) (Nat.le_refl _)
        (fun hfixed => ?_) (List.Subset.refl _)
      simp only [hasFixedSize, Bool.and_eq_true, beq_iff_eq, Option.some.injEq] at hfixed
      obtain ⟨hfixed, rfl⟩ := hfixed
      simp [hfixed, minSize]
  | .repeated body least none greedy =>
    obtain ⟨inner, hinner, h⟩ := ok_of_bind_eq_ok h
    have hbody : Measures text body inner := settle_measures heasy hinner
    have hvaries : (repeated body least none greedy).hasFixedSize = false := by
      simp [hasFixedSize]
    dsimp only at h
    split at h
    · next hzero =>
      cases h
      subst hzero
      exact Ends.Advance.mono ((hbody.plus greedy).times 0 1 greedy) (Nat.le_refl _)
        (fun hfixed => by cases hvaries.symm.trans hfixed) (List.Subset.refl _)
    · next hpositive =>
      cases h
      have hsize : body.minSize * least = body.minSize * (least - 1) + body.minSize := by
        rw [← Nat.mul_succ, Nat.succ_eq_add_one, Nat.sub_add_cancel (by omega)]
      exact Ends.Advance.mono ((hbody.times (least - 1) 0 greedy).comp (hbody.plus greedy))
        (Nat.le_of_eq hsize) (fun hfixed => by cases hvaries.symm.trans hfixed)
        (by simp [groupNumbers])

theorem settleAll_measures {items : List Tree} {programs : List Program}
    (heasy : anyHard referenced items = false) (h : settleAll items = .ok programs) :
    List.Forall₂ (Measures text) items programs := by
  match items with
  | [] =>
    cases h
    exact .nil
  | item :: items =>
    obtain ⟨first, hfirst, h⟩ := ok_of_bind_eq_ok h
    obtain ⟨rest, hrest, hpure⟩ := ok_of_bind_eq_ok h
    cases hpure
    rw [anyHard, Bool.or_eq_false_iff] at heasy
    exact .cons (settle_measures heasy.1 hfirst) (settleAll_measures heasy.2 hrest)
end

end Tree

end Highlighter.Regex
