import Highlighter.Regex.Program

/-!
# Expressions with other group numbers

Where an expression stands inside a larger one, its groups have higher numbers. Moving all numbers
up changes nothing else: the sizes of matches stay the same, and the same parts are settled, as
long as the same groups are referenced. So the program of a moved expression is the moved program.
-/

namespace Highlighter.Regex

namespace Tree

mutual
/-- A tree with the numbers of its groups moved up. -/
def shift (offset : Nat) : Tree → Tree
  | .empty => .empty
  | .char set => .char set
  | .anchor position => .anchor position
  | .concat items => .concat (shiftAll offset items)
  | .alt choices => .alt (shiftAll offset choices)
  | .group number body => .group (number + offset) (body.shift offset)
  | .repeated body least most greedy => .repeated (body.shift offset) least most greedy
  | .look side negated body => .look side negated (body.shift offset)
  | .atomic body => .atomic (body.shift offset)
  | .backref number => .backref (number + offset)

/-- Trees with the numbers of their groups moved up. -/
def shiftAll (offset : Nat) : List Tree → List Tree
  | [] => []
  | item :: items => item.shift offset :: shiftAll offset items
end

theorem shiftAll_eq_map (offset : Nat) (items : List Tree) :
    shiftAll offset items = items.map (shift offset) := by
  induction items with
  | nil => rfl
  | cons item items ih => simp [shiftAll, ih]

end Tree

/-- A program with the numbers of its groups moved up. A settled part without groups stays as it
is. -/
def Program.shift (offset : Nat) : Program → Program
  | .empty => .empty
  | .char set => .char set
  | .anchor position => .anchor position
  | .seq first second => .seq (first.shift offset) (second.shift offset)
  | .alt first second => .alt (first.shift offset) (second.shift offset)
  | .group number body => .group (number + offset) (body.shift offset)
  | .times body least extra greedy => .times (body.shift offset) least extra greedy
  | .more body greedy => .more (body.shift offset) greedy
  | .plus body greedy => .plus (body.shift offset) greedy
  | .ahead negated body => .ahead negated (body.shift offset)
  | .behind length negated body => .behind length negated (body.shift offset)
  | .atomic body => .atomic (body.shift offset)
  | .settled first last body =>
    if first = last then .settled first last (body.shift offset)
    else .settled (first + offset) (last + offset) (body.shift offset)
  | .backref number => .backref (number + offset)

namespace Program

variable {offset : Nat}

theorem shift_seqs (programs : List Program) :
    (seqs programs).shift offset = seqs (programs.map (shift offset)) := by
  induction programs with
  | nil => rfl
  | cons first rest ih =>
    cases rest with
    | nil => rfl
    | cons second rest =>
      simp only [List.map_cons, seqs, shift] at ih ⊢
      rw [ih]

theorem shift_alts (programs : List Program) :
    (alts programs).shift offset = alts (programs.map (shift offset)) := by
  induction programs with
  | nil => rfl
  | cons first rest ih =>
    cases rest with
    | nil => rfl
    | cons second rest =>
      simp only [List.map_cons, alts, shift] at ih ⊢
      rw [ih]

end Program

namespace Tree

variable {offset : Nat}

mutual
theorem minSize_shift (tree : Tree) : (tree.shift offset).minSize = tree.minSize := by
  match tree with
  | .empty | .char _ | .anchor _ | .look .. | .backref _ => simp only [shift, minSize]
  | .concat items => simp only [shift, minSize, minSizeSum_shiftAll items]
  | .alt choices => simp only [shift, minSize, minSizeLeast_shiftAll choices]
  | .group _ body | .atomic body | .repeated body .. =>
    simp only [shift, minSize, minSize_shift body]

theorem minSizeSum_shiftAll (items : List Tree) :
    minSizeSum (shiftAll offset items) = minSizeSum items := by
  match items with
  | [] => rfl
  | item :: items =>
    simp only [shiftAll, minSizeSum, minSize_shift item, minSizeSum_shiftAll items]

theorem minSizeLeast_shiftAll (choices : List Tree) :
    minSizeLeast (shiftAll offset choices) = minSizeLeast choices := by
  match choices with
  | [] => rfl
  | [choice] => simp only [shiftAll, minSizeLeast, minSize_shift choice]
  | choice :: other :: choices =>
    have hrest := minSizeLeast_shiftAll (other :: choices)
    simp only [shiftAll] at hrest
    simp only [shiftAll, minSizeLeast, minSize_shift choice, hrest]
end

mutual
theorem hasFixedSize_shift (tree : Tree) :
    (tree.shift offset).hasFixedSize = tree.hasFixedSize := by
  match tree with
  | .empty | .char _ | .anchor _ | .look .. | .backref _ => simp only [shift, hasFixedSize]
  | .concat items => simp only [shift, hasFixedSize, haveFixedSize_shiftAll items]
  | .alt choices => simp only [shift, hasFixedSize, haveOneSize_shiftAll none choices]
  | .group _ body | .atomic body | .repeated body .. =>
    simp only [shift, hasFixedSize, hasFixedSize_shift body]

theorem haveFixedSize_shiftAll (items : List Tree) :
    haveFixedSize (shiftAll offset items) = haveFixedSize items := by
  match items with
  | [] => rfl
  | item :: items =>
    simp only [shiftAll, haveFixedSize, hasFixedSize_shift item, haveFixedSize_shiftAll items]

theorem haveOneSize_shiftAll (size : Option Nat) (choices : List Tree) :
    haveOneSize size (shiftAll offset choices) = haveOneSize size choices := by
  match choices with
  | [] => rfl
  | choice :: choices =>
    simp only [shiftAll, haveOneSize, hasFixedSize_shift choice, minSize_shift choice,
      haveOneSize_shiftAll (some choice.minSize) choices]
end

mutual
theorem groupNumbers_shift (tree : Tree) :
    (tree.shift offset).groupNumbers = tree.groupNumbers.map (· + offset) := by
  match tree with
  | .empty | .char _ | .anchor _ | .backref _ => simp only [shift, groupNumbers, List.map_nil]
  | .concat items | .alt items => simp only [shift, groupNumbers, groupNumbersOf_shiftAll items]
  | .group number body =>
    simp only [shift, groupNumbers, groupNumbers_shift body, List.map_cons]
  | .atomic body | .repeated body .. | .look _ _ body =>
    simp only [shift, groupNumbers, groupNumbers_shift body]

theorem groupNumbersOf_shiftAll (items : List Tree) :
    groupNumbersOf (shiftAll offset items) = (groupNumbersOf items).map (· + offset) := by
  match items with
  | [] => rfl
  | item :: items =>
    simp only [shiftAll, groupNumbersOf, groupNumbers_shift item, groupNumbersOf_shiftAll items,
      List.map_append]
end

/-- The same groups of a tree are referenced before and after its numbers have been moved. -/
def SameReferences (offset : Nat) (referenced referenced' : List Nat) (numbers : List Nat) : Prop :=
  ∀ number ∈ numbers, referenced'.contains (number + offset) = referenced.contains number

theorem SameReferences.of_append {referenced referenced' first second : List Nat}
    (h : SameReferences offset referenced referenced' (first ++ second)) :
    SameReferences offset referenced referenced' first ∧
      SameReferences offset referenced referenced' second :=
  ⟨fun number hmem => h number (List.mem_append_left _ hmem),
    fun number hmem => h number (List.mem_append_right _ hmem)⟩

mutual
theorem isHard_shift {referenced referenced' : List Nat} (tree : Tree)
    (h : SameReferences offset referenced referenced' tree.groupNumbers) :
    (tree.shift offset).isHard referenced' = tree.isHard referenced := by
  match tree with
  | .empty | .char _ | .anchor _ | .look .. | .atomic _ | .backref _ =>
    simp only [shift, isHard]
  | .concat items | .alt items =>
    simp only [groupNumbers] at h
    simp only [shift, isHard, anyHard_shiftAll items h]
  | .group number body =>
    simp only [groupNumbers] at h
    have hnumber := h number List.mem_cons_self
    have hbody := isHard_shift body fun other hmem => h other (List.mem_cons_of_mem _ hmem)
    simp only [shift, isHard, hnumber, hbody]
  | .repeated body .. =>
    simp only [groupNumbers] at h
    simp only [shift, isHard, isHard_shift body h]

theorem anyHard_shiftAll {referenced referenced' : List Nat} (items : List Tree)
    (h : SameReferences offset referenced referenced' (groupNumbersOf items)) :
    anyHard referenced' (shiftAll offset items) = anyHard referenced items := by
  match items with
  | [] => rfl
  | item :: items =>
    simp only [groupNumbersOf] at h
    obtain ⟨hitem, hitems⟩ := h.of_append
    simp only [shiftAll, anyHard, isHard_shift item hitem, anyHard_shiftAll items hitems]
end

theorem map_bind {α β γ : Type} (f : β → γ) (x : Except Error α) (g : α → Except Error β) :
    (x >>= g).map f = x >>= fun a => (g a).map f := by
  cases x <;> rfl

theorem bind_map {α β γ : Type} (f : α → β) (x : Except Error α) (g : β → Except Error γ) :
    x.map f >>= g = x >>= fun a => g (f a) := by
  cases x <;> rfl

mutual
theorem settle_shift (tree : Tree) :
    (tree.shift offset).settle = tree.settle.map (Program.shift offset) := by
  match tree with
  | .empty | .char _ | .anchor _ | .look .. | .atomic _ | .backref _ => rfl
  | .concat items =>
    simp only [shift, settle, settleAll_shiftAll items, bind_map, map_bind]
    cases settleAll items with
    | error error => rfl
    | ok programs => exact congrArg Except.ok (Program.shift_seqs programs).symm
  | .alt choices =>
    simp only [shift, settle, settleAll_shiftAll choices, bind_map, map_bind]
    cases settleAll choices with
    | error error => rfl
    | ok programs => exact congrArg Except.ok (Program.shift_alts programs).symm
  | .group number body =>
    simp only [shift, settle, settle_shift body, bind_map, map_bind]
    rfl
  | .repeated body least most greedy =>
    simp only [shift, settle, settle_shift body, bind_map, map_bind]
    cases body.settle with
    | error error => rfl
    | ok program =>
      cases most with
      | none =>
        by_cases hleast : least = 0
        · simp only [hleast]
          rfl
        · simp only [hleast]
          rfl
      | some most =>
        by_cases hmost : most < least
        · simp only [hmost]
          rfl
        · simp only [hmost]
          rfl

theorem settleAll_shiftAll (items : List Tree) :
    settleAll (shiftAll offset items) =
      (settleAll items).map (List.map (Program.shift offset)) := by
  match items with
  | [] => rfl
  | item :: items =>
    simp only [shiftAll, settleAll, settle_shift item, settleAll_shiftAll items, bind_map, map_bind]
    rfl
end

theorem settlePart_shift (items : List Tree) :
    settlePart (shiftAll offset items) =
      (settlePart items).map (List.map (Program.shift offset)) := by
  cases items with
  | nil => rfl
  | cons item items =>
    have hprograms : settleAll (shiftAll offset (item :: items)) = _ := settleAll_shiftAll _
    have hnumbers : groupNumbersOf (shiftAll offset (item :: items)) = _ :=
      groupNumbersOf_shiftAll _
    simp only [shiftAll] at hprograms hnumbers
    simp only [shiftAll, settlePart, hprograms, hnumbers]
    cases settleAll (item :: items) with
    | error error => rfl
    | ok programs =>
      have hbody : (Program.seqs programs).shift offset = _ := Program.shift_seqs programs
      cases groupNumbersOf (item :: items) with
      | nil =>
        simp only [Except.map, bind, Except.bind, pure, Except.pure, List.map_nil, List.map_cons,
          Program.shift, hbody, if_true]
      | cons first rest =>
        have hne : first ≠ first + rest.length + 1 := by omega
        have hlast : first + offset + rest.length + 1 = first + rest.length + 1 + offset := by omega
        simp only [Except.map, bind, Except.bind, pure, Except.pure, List.map_nil, List.map_cons,
          List.length_map, Program.shift, hbody, if_neg hne, hlast]

theorem allOk_map (programs : List (Except Error Program)) :
    allOk (programs.map (Except.map (Program.shift offset))) =
      (allOk programs).map (List.map (Program.shift offset)) := by
  induction programs with
  | nil => rfl
  | cons program programs ih =>
    simp only [List.map_cons, allOk, ih, bind_map, map_bind]
    rfl

theorem takeWhile_map {α β : Type} {f : α → β} {p : α → Bool} {p' : β → Bool} {items : List α}
    (h : ∀ item ∈ items, p' (f item) = p item) :
    (items.map f).takeWhile p' = (items.takeWhile p).map f := by
  induction items with
  | nil => rfl
  | cons item items ih =>
    have hitem := h item List.mem_cons_self
    have hitems := ih fun other hmem => h other (List.mem_cons_of_mem _ hmem)
    simp only [List.map_cons, List.takeWhile_cons, hitem, hitems]
    split <;> rfl

theorem SameReferences.of_mem {referenced referenced' : List Nat} {item : Tree} {items : List Tree}
    (h : SameReferences offset referenced referenced' (groupNumbersOf items))
    (hmem : item ∈ items) :
    SameReferences offset referenced referenced' item.groupNumbers := by
  induction items with
  | nil => cases hmem
  | cons first items ih =>
    simp only [groupNumbersOf] at h
    rcases List.mem_cons.mp hmem with rfl | hmem
    · exact h.of_append.1
    · exact ih h.of_append.2 hmem

theorem planConcat_shift {referenced referenced' : List Nat} (hard : Bool) (items : List Tree)
    (programs : List (Except Error Program))
    (h : SameReferences offset referenced referenced' (groupNumbersOf items)) :
    planConcat referenced' hard (shiftAll offset items)
        (programs.map (Except.map (Program.shift offset))) =
      (planConcat referenced hard items programs).map (Program.shift offset) := by
  have hhard : ∀ item ∈ items, (item.shift offset).isHard referenced' = item.isHard referenced :=
    fun item hmem => isHard_shift item (h.of_mem hmem)
  have hfirst : ((items.map (shift offset)).takeWhile fun tree =>
        tree.hasFixedSize && !tree.isHard referenced') =
      (items.takeWhile fun tree => tree.hasFixedSize && !tree.isHard referenced).map
        (shift offset) :=
    takeWhile_map fun item hmem => by simp only [hasFixedSize_shift, hhard item hmem]
  have hlast : ∀ later : List Tree, (∀ item ∈ later, item ∈ items) →
      ((later.reverse.map (shift offset)).takeWhile fun tree =>
          !tree.isHard referenced' && (!hard || tree.hasFixedSize)) =
        (later.reverse.takeWhile fun tree =>
          !tree.isHard referenced && (!hard || tree.hasFixedSize)).map (shift offset) :=
    fun later hlater => takeWhile_map fun item hmem => by
      simp only [hasFixedSize_shift, hhard item (hlater item (List.mem_reverse.mp hmem))]
  have hsettle : ∀ part : List Tree, settlePart (part.map (shift offset)) =
      (settlePart part).map (List.map (Program.shift offset)) := by
    intro part
    rw [← shiftAll_eq_map, settlePart_shift]
  rw [shiftAll_eq_map]
  simp only [planConcat, hfirst, List.length_map, ← List.map_drop, ← List.map_reverse,
    hlast _ fun item hmem => List.mem_of_mem_drop hmem, hsettle, ← List.map_take, allOk_map,
    bind_map, map_bind]
  simp only [Except.map, pure, Except.pure, Program.shift_seqs, List.map_append]

theorem planBehind_shift (negated : Bool) (body : Tree) (program : Except Error Program) :
    planBehind negated (body.shift offset) (program.map (Program.shift offset)) =
      (planBehind negated body program).map (Program.shift offset) := by
  simp only [planBehind, hasFixedSize_shift, minSize_shift]
  split
  · simp only [bind_map, map_bind]
    rfl
  · rfl

theorem planBehinds_shift (negated : Bool) (bodies : List Tree)
    (programs : List (Except Error Program)) :
    planBehinds negated (shiftAll offset bodies)
        (programs.map (Except.map (Program.shift offset))) =
      (planBehinds negated bodies programs).map (List.map (Program.shift offset)) := by
  induction bodies generalizing programs with
  | nil => cases programs <;> rfl
  | cons body bodies ih =>
    cases programs with
    | nil => rfl
    | cons program programs =>
      simp only [shiftAll, List.map_cons, planBehinds, planBehind_shift, ih, bind_map, map_bind]
      rfl

theorem shift_planRepeat (least : Nat) (most : Option Nat) (greedy : Bool) (program : Program) :
    (planRepeat least most greedy program).shift offset =
      planRepeat least most greedy (program.shift offset) := by
  unfold planRepeat
  split
  · rfl
  · split <;> rfl

theorem planBehind_plan_shift {referenced referenced' : List Nat} (negated : Bool) {body : Tree}
    (hbody : (body.shift offset).plan referenced' false =
      (body.plan referenced false).map (Program.shift offset)) :
    planBehind negated (body.shift offset) ((body.shift offset).plan referenced' false) =
      (planBehind negated body (body.plan referenced false)).map (Program.shift offset) := by
  rw [hbody, planBehind_shift]

/-- The program of a lookbehind over an alternation, with the programs of its choices given. -/
theorem planBehindAlt_shift {referenced referenced' : List Nat} (negated : Bool)
    (choices : List Tree)
    (h : SameReferences offset referenced referenced' (groupNumbersOf choices))
    (hprograms : planAll referenced' false (shiftAll offset choices) =
      (planAll referenced false choices).map (Except.map (Program.shift offset))) :
    (if !haveOneSize none (shiftAll offset choices) then do
        let parts ← planBehinds negated (shiftAll offset choices)
          (planAll referenced' false (shiftAll offset choices))
        return if negated then .seqs parts else .alts parts
      else planBehind negated (.alt (shiftAll offset choices)) do
        if anyHard referenced' (shiftAll offset choices) then
          return .alts (← allOk (planAll referenced' false (shiftAll offset choices)))
        else return .seqs (← settlePart [.alt (shiftAll offset choices)]) : Except Error Program) =
      Except.map (Program.shift offset) (if !haveOneSize none choices then do
        let parts ← planBehinds negated choices (planAll referenced false choices)
        return if negated then .seqs parts else .alts parts
      else planBehind negated (.alt choices) do
        if anyHard referenced choices then
          return .alts (← allOk (planAll referenced false choices))
        else return .seqs (← settlePart [.alt choices])) := by
  have hpart : settlePart (shiftAll offset [.alt choices]) = _ := settlePart_shift _
  simp only [shiftAll, shift] at hpart
  simp only [haveOneSize_shiftAll, anyHard_shiftAll choices h, hprograms]
  split
  · simp only [planBehinds_shift, bind_map, map_bind]
    cases negated <;>
      simp only [Except.map, pure, Except.pure, Program.shift_seqs, Program.shift_alts,
        Bool.false_eq_true, if_true, if_false]
  · rw [← planBehind_shift]
    congr 1
    split
    · simp only [allOk_map, bind_map, map_bind]
      simp only [Except.map, pure, Except.pure, Program.shift_alts]
    · simp only [hpart, bind_map, map_bind]
      simp only [Except.map, pure, Except.pure, Program.shift_seqs]

mutual
theorem plan_shift {referenced referenced' : List Nat} (hard : Bool) (tree : Tree)
    (h : SameReferences offset referenced referenced' tree.groupNumbers) :
    (tree.shift offset).plan referenced' hard =
      (tree.plan referenced hard).map (Program.shift offset) := by
  have hhard := isHard_shift tree h
  have hsettle : settlePart (shiftAll offset [tree]) = _ := settlePart_shift _
  simp only [shiftAll] at hsettle
  unfold plan
  rw [hhard]
  split
  · rw [hsettle]
    simp only [bind_map, map_bind]
    simp only [Except.map, pure, Except.pure, Program.shift_seqs]
  · match tree with
    | .empty | .char _ | .anchor _ | .backref _ => rfl
    | .concat items =>
      simp only [groupNumbers] at h
      simp only [shift, planAll_shift true items h, planConcat_shift hard items _ h]
    | .alt choices =>
      simp only [groupNumbers] at h
      simp only [shift, planAll_shift hard choices h, allOk_map, bind_map, map_bind]
      simp only [Except.map, pure, Except.pure, Program.shift_alts]
    | .group number body =>
      simp only [groupNumbers] at h
      have hbody := plan_shift hard body fun other hmem => h other (List.mem_cons_of_mem _ hmem)
      simp only [shift, hbody, bind_map, map_bind]
      rfl
    | .repeated body least most greedy =>
      simp only [groupNumbers] at h
      simp only [shift, isHard_shift body h, plan_shift _ body h]
      split
      · simp only [bind_map, map_bind]
        rfl
      · simp only [bind_map, map_bind]
        simp only [Except.map, pure, Except.pure, shift_planRepeat]
    | .atomic body =>
      simp only [groupNumbers] at h
      simp only [shift, plan_shift false body h, bind_map, map_bind]
      rfl
    | .look .ahead negated body =>
      simp only [groupNumbers] at h
      simp only [shift, plan_shift false body h, bind_map, map_bind]
      rfl
    | .look .behind negated (.alt choices) =>
      simp only [groupNumbers] at h
      exact planBehindAlt_shift negated choices h (planAll_shift false choices h)
    | .look .behind negated .empty | .look .behind negated (.char _)
    | .look .behind negated (.anchor _) | .look .behind negated (.concat _)
    | .look .behind negated (.group ..) | .look .behind negated (.repeated ..)
    | .look .behind negated (.look ..) | .look .behind negated (.atomic _)
    | .look .behind negated (.backref _) =>
      rw [groupNumbers] at h
      exact planBehind_plan_shift negated (plan_shift false _ h)

theorem planAll_shift {referenced referenced' : List Nat} (hard : Bool) (items : List Tree)
    (h : SameReferences offset referenced referenced' (groupNumbersOf items)) :
    planAll referenced' hard (shiftAll offset items) =
      (planAll referenced hard items).map (Except.map (Program.shift offset)) := by
  match items with
  | [] => rfl
  | item :: items =>
    simp only [groupNumbersOf] at h
    obtain ⟨hitem, hitems⟩ := h.of_append
    simp only [shiftAll, planAll, plan_shift hard item hitem, planAll_shift hard items hitems,
      List.map_cons]
end

end Tree

end Highlighter.Regex
