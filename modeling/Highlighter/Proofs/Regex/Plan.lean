import Highlighter.Proofs.Outcome
import Highlighter.Proofs.Regex.Run

/-!
# What the programs of trees are made of

The program of an expression records no groups but those of the expression, and it refers to no
groups but those that the expression refers to. Whatever is kept by all constructions of programs,
with such groups and references, holds of the programs of trees.
-/

namespace Highlighter.Regex

variable {bound : Nat}

/-- A property that the constructions of programs keep when groups have the given `numbers` and
references name the given `references`. -/
structure Program.Hereditary (numbers references : Nat → Prop) (P : Program → Prop) : Prop where
  empty : P .empty
  char : ∀ set, P (.char set)
  anchor : ∀ position, P (.anchor position)
  seq : ∀ {first second}, P first → P second → P (.seq first second)
  alt : ∀ {first second}, P first → P second → P (.alt first second)
  group : ∀ {number body}, numbers number → P body → P (.group number body)
  times : ∀ {body} least extra greedy, P body → P (.times body least extra greedy)
  more : ∀ {body} greedy, P body → P (.more body greedy)
  plus : ∀ {body} greedy, P body → P (.plus body greedy)
  ahead : ∀ {body} negated, P body → P (.ahead negated body)
  behind : ∀ {body} length negated, P body → P (.behind length negated body)
  atomic : ∀ {body}, P body → P (.atomic body)
  settled : ∀ {body first last}, (first < last → numbers first) → P body →
    P (.settled first last body)
  backref : ∀ {number}, references number → P (.backref number)

namespace Program.Hereditary

variable {numbers references : Nat → Prop} {P : Program → Prop} {programs : List Program}

theorem seqs (hP : Hereditary numbers references P) (h : ∀ program ∈ programs, P program) :
    P (Program.seqs programs) := by
  induction programs with
  | nil => exact hP.empty
  | cons first rest ih =>
    obtain ⟨hfirst, hrest⟩ := List.forall_mem_cons.mp h
    cases rest with
    | nil => exact hfirst
    | cons second rest => exact hP.seq hfirst (ih hrest)

theorem alts (hP : Hereditary numbers references P) (h : ∀ program ∈ programs, P program) :
    P (Program.alts programs) := by
  induction programs with
  | nil => exact hP.empty
  | cons first rest ih =>
    obtain ⟨hfirst, hrest⟩ := List.forall_mem_cons.mp h
    cases rest with
    | nil => exact hfirst
    | cons second rest => exact hP.alt hfirst (ih hrest)

theorem planRepeat (hP : Hereditary numbers references P) {program : Program} (h : P program)
    (least : Nat) (most : Option Nat) (greedy : Bool) :
    P (Tree.planRepeat least most greedy program) := by
  unfold Tree.planRepeat
  split
  · exact hP.times _ _ _ h
  · split
    · exact hP.more _ h
    · exact hP.seq (hP.times _ _ _ h) (hP.more _ h)

end Program.Hereditary

namespace Tree

mutual
/-- The numbers of the groups that a tree refers to, in order. -/
def references : Tree → List Nat
  | .empty | .char _ | .anchor _ => []
  | .concat items => referencesOf items
  | .alt choices => referencesOf choices
  | .group _ body => body.references
  | .repeated body _ _ _ => body.references
  | .look _ _ body => body.references
  | .atomic body => body.references
  | .backref number => [number]

/-- The numbers of the groups that a list of trees refers to, in order. -/
def referencesOf : List Tree → List Nat
  | [] => []
  | item :: items => item.references ++ referencesOf items
end

/-- The numbers of part of a list of trees are numbers of the list. -/
theorem mem_groupNumbersOf {number : Nat} {items : List Tree} :
    number ∈ groupNumbersOf items ↔ ∃ item ∈ items, number ∈ item.groupNumbers := by
  induction items with
  | nil => simp [groupNumbersOf]
  | cons item items ih => simp [groupNumbersOf, ih]

section

variable {numbers references : Nat → Prop} {P : Program → Prop}

mutual
theorem settle_induct {tree : Tree} {program : Program}
    (hP : Program.Hereditary numbers references P)
    (hnumbers : ∀ number ∈ tree.groupNumbers, numbers number)
    (h : tree.settle = .ok program) : P program := by
  match tree with
  | .empty | .look .. | .atomic _ | .backref _ =>
    cases h
    exact hP.empty
  | .char set =>
    cases h
    exact hP.char set
  | .anchor position =>
    cases h
    exact hP.anchor position
  | .concat items =>
    obtain ⟨programs, hprograms, hpure⟩ := ok_of_bind_eq_ok h
    cases hpure
    exact hP.seqs (settleAll_induct hP hnumbers hprograms)
  | .alt choices =>
    obtain ⟨programs, hprograms, hpure⟩ := ok_of_bind_eq_ok h
    cases hpure
    exact hP.alts (settleAll_induct hP hnumbers hprograms)
  | .group number body =>
    obtain ⟨inner, hinner, hpure⟩ := ok_of_bind_eq_ok h
    cases hpure
    rw [groupNumbers] at hnumbers
    obtain ⟨hnumber, hnumbers⟩ := List.forall_mem_cons.mp hnumbers
    exact hP.group hnumber (settle_induct hP hnumbers hinner)
  | .repeated body least most greedy =>
    rw [groupNumbers] at hnumbers
    obtain ⟨inner, hinner, h⟩ := ok_of_bind_eq_ok h
    have hbody : P inner := settle_induct hP hnumbers hinner
    split at h
    · split at h
      · cases h
      · cases h
        exact hP.times _ _ _ hbody
    · split at h
      · cases h
        exact hP.times _ _ _ (hP.plus _ hbody)
      · cases h
        exact hP.seq (hP.times _ _ _ hbody) (hP.plus _ hbody)

theorem settleAll_induct {items : List Tree} {programs : List Program}
    (hP : Program.Hereditary numbers references P)
    (hnumbers : ∀ number ∈ groupNumbersOf items, numbers number)
    (h : settleAll items = .ok programs) : ∀ program ∈ programs, P program := by
  match items with
  | [] =>
    cases h
    exact List.forall_mem_nil _
  | item :: items =>
    obtain ⟨first, hfirst, h⟩ := ok_of_bind_eq_ok h
    obtain ⟨rest, hrest, hpure⟩ := ok_of_bind_eq_ok h
    cases hpure
    rw [groupNumbersOf] at hnumbers
    obtain ⟨hitem, hitems⟩ := List.forall_mem_append.mp hnumbers
    exact List.forall_mem_cons.mpr
      ⟨settle_induct hP hitem hfirst, settleAll_induct hP hitems hrest⟩
end

theorem settlePart_induct {items : List Tree} {programs : List Program}
    (hP : Program.Hereditary numbers references P)
    (hnumbers : ∀ number ∈ groupNumbersOf items, numbers number)
    (h : settlePart items = .ok programs) : ∀ program ∈ programs, P program := by
  unfold settlePart at h
  split at h
  · cases h
    exact List.forall_mem_nil _
  · obtain ⟨parts, hparts, h⟩ := ok_of_bind_eq_ok h
    have hbody := hP.seqs (settleAll_induct hP hnumbers hparts)
    split at h
    · cases h
      exact List.forall_mem_singleton.mpr
        (hP.settled (fun hless => absurd hless (Nat.lt_irrefl 0)) hbody)
    · next first rest heq =>
      cases h
      have hfirst : numbers first := hnumbers first (heq ▸ List.mem_cons_self)
      exact List.forall_mem_singleton.mpr (hP.settled (fun _ => hfirst) hbody)

theorem allOk_eq_ok {results : List (Except Error Program)} {programs : List Program}
    (h : allOk results = .ok programs) : results = programs.map .ok := by
  induction results generalizing programs with
  | nil =>
    cases h
    rfl
  | cons result results ih =>
    obtain ⟨first, hfirst, h⟩ := ok_of_bind_eq_ok h
    obtain ⟨rest, hrest, hpure⟩ := ok_of_bind_eq_ok h
    cases hpure
    rw [hfirst, ih hrest, List.map_cons]

theorem allOk_induct {results : List (Except Error Program)} {programs : List Program}
    (hresults : ∀ program, .ok program ∈ results → P program)
    (h : allOk results = .ok programs) : ∀ program ∈ programs, P program := by
  intro program hmem
  apply hresults
  rw [allOk_eq_ok h]
  exact List.mem_map_of_mem hmem

theorem planConcat_induct {referenced : List Nat} {hard : Bool} {items : List Tree}
    {results : List (Except Error Program)} {program : Program}
    (hP : Program.Hereditary numbers references P)
    (hnumbers : ∀ number ∈ groupNumbersOf items, numbers number)
    (hresults : ∀ program, .ok program ∈ results → P program)
    (h : planConcat referenced hard items results = .ok program) : P program := by
  have hpart : ∀ part : List Tree, (∀ item ∈ part, item ∈ items) →
      ∀ number ∈ groupNumbersOf part, numbers number := by
    intro part hpart number hnumber
    obtain ⟨item, hitem, hnumber⟩ := mem_groupNumbersOf.mp hnumber
    exact hnumbers number (mem_groupNumbersOf.mpr ⟨item, hpart item hitem, hnumber⟩)
  simp only [planConcat] at h
  obtain ⟨first, hfirst, h⟩ := ok_of_bind_eq_ok h
  obtain ⟨middle, hmiddle, h⟩ := ok_of_bind_eq_ok h
  obtain ⟨last, hlast, hpure⟩ := ok_of_bind_eq_ok h
  cases hpure
  apply hP.seqs
  intro part hmem
  simp only [List.mem_append] at hmem
  rcases hmem with (hmem | hmem) | hmem
  · refine settlePart_induct hP (hpart _ fun item hitem => ?_) hfirst part hmem
    exact (List.takeWhile_prefix _).subset hitem
  · refine allOk_induct (fun program hok => ?_) hmiddle part hmem
    exact hresults program (List.mem_of_mem_drop (List.mem_of_mem_take hok))
  · refine settlePart_induct hP (hpart _ fun item hitem => ?_) hlast part hmem
    have hlater := (List.takeWhile_prefix _).subset (List.mem_reverse.mp hitem)
    exact List.mem_of_mem_drop (List.mem_reverse.mp hlater)

theorem planBehind_eq_ok {negated : Bool} {body : Tree} {result : Except Error Program}
    {program : Program} (h : planBehind negated body result = .ok program) :
    ∃ inner, result = .ok inner ∧ program = .behind body.minSize negated inner := by
  unfold planBehind at h
  split at h
  · obtain ⟨inner, hinner, hpure⟩ := ok_of_bind_eq_ok h
    cases hpure
    exact ⟨inner, hinner, rfl⟩
  · cases h

theorem planBehinds_induct {negated : Bool} {bodies : List Tree}
    {results : List (Except Error Program)} {programs : List Program}
    (hP : Program.Hereditary numbers references P)
    (hresults : ∀ program, .ok program ∈ results → P program)
    (h : planBehinds negated bodies results = .ok programs) :
    ∀ program ∈ programs, P program := by
  induction bodies generalizing results programs with
  | nil =>
    cases h
    exact List.forall_mem_nil _
  | cons body bodies ih =>
    cases results with
    | nil =>
      cases h
      exact List.forall_mem_nil _
    | cons result results =>
      obtain ⟨first, hfirst, h⟩ := ok_of_bind_eq_ok h
      obtain ⟨rest, hrest, hpure⟩ := ok_of_bind_eq_ok h
      cases hpure
      obtain ⟨inner, rfl, rfl⟩ := planBehind_eq_ok hfirst
      exact List.forall_mem_cons.mpr ⟨hP.behind _ _ (hresults inner List.mem_cons_self),
        ih (fun other hother => hresults other (List.mem_cons_of_mem _ hother)) hrest⟩

mutual
/-- What the constructions of programs keep holds of the program of a tree. -/
theorem plan_induct {referenced : List Nat} {hard : Bool} {tree : Tree} {program : Program}
    (hP : Program.Hereditary numbers references P)
    (hnumbers : ∀ number ∈ tree.groupNumbers, numbers number)
    (hreferences : ∀ number ∈ tree.references, references number)
    (h : tree.plan referenced hard = .ok program) : P program := by
  unfold plan at h
  split at h
  · obtain ⟨parts, hparts, hpure⟩ := ok_of_bind_eq_ok h
    cases hpure
    refine hP.seqs (settlePart_induct hP ?_ hparts)
    simpa [groupNumbersOf] using hnumbers
  · match tree with
    | .empty =>
      cases h
      exact hP.empty
    | .char set =>
      cases h
      exact hP.char set
    | .anchor position =>
      cases h
      exact hP.anchor position
    | .backref number =>
      cases h
      exact hP.backref (hreferences number List.mem_cons_self)
    | .concat items =>
      exact planConcat_induct hP hnumbers (planAll_induct hP hnumbers hreferences) h
    | .alt choices =>
      obtain ⟨programs, hprograms, hpure⟩ := ok_of_bind_eq_ok h
      cases hpure
      exact hP.alts (allOk_induct (planAll_induct hP hnumbers hreferences) hprograms)
    | .group number body =>
      obtain ⟨inner, hinner, hpure⟩ := ok_of_bind_eq_ok h
      cases hpure
      rw [groupNumbers] at hnumbers
      obtain ⟨hnumber, hnumbers⟩ := List.forall_mem_cons.mp hnumbers
      exact hP.group hnumber (plan_induct hP hnumbers hreferences hinner)
    | .repeated body least most greedy =>
      simp only [groupNumbers] at h hnumbers
      split at h
      · obtain ⟨inner, hinner, hpure⟩ := ok_of_bind_eq_ok h
        cases hpure
        exact hP.times _ _ _ (plan_induct hP hnumbers hreferences hinner)
      · obtain ⟨inner, hinner, hpure⟩ := ok_of_bind_eq_ok h
        cases hpure
        exact hP.planRepeat (plan_induct hP hnumbers hreferences hinner) _ _ _
    | .atomic body =>
      rw [groupNumbers] at hnumbers
      obtain ⟨inner, hinner, hpure⟩ := ok_of_bind_eq_ok h
      cases hpure
      exact hP.atomic (plan_induct hP hnumbers hreferences hinner)
    | .look .ahead negated body =>
      rw [groupNumbers] at hnumbers
      obtain ⟨inner, hinner, hpure⟩ := ok_of_bind_eq_ok h
      cases hpure
      exact hP.ahead _ (plan_induct hP hnumbers hreferences hinner)
    | .look .behind negated (.alt choices) =>
      have hprograms : ∀ program, .ok program ∈ planAll referenced false choices → P program :=
        planAll_induct hP hnumbers hreferences
      simp only at h
      split at h
      · obtain ⟨parts, hparts, hpure⟩ := ok_of_bind_eq_ok h
        cases hpure
        have hall := planBehinds_induct hP hprograms hparts
        split
        · exact hP.seqs hall
        · exact hP.alts hall
      · obtain ⟨inner, hinner, rfl⟩ := planBehind_eq_ok h
        split at hinner
        · obtain ⟨programs, hall, hpure⟩ := ok_of_bind_eq_ok hinner
          cases hpure
          exact hP.behind _ _ (hP.alts (allOk_induct hprograms hall))
        · obtain ⟨parts, hparts, hpure⟩ := ok_of_bind_eq_ok hinner
          cases hpure
          refine hP.behind _ _ (hP.seqs (settlePart_induct hP ?_ hparts))
          simpa [groupNumbersOf, groupNumbers] using hnumbers
    | .look .behind negated .empty | .look .behind negated (.char _)
    | .look .behind negated (.anchor _) | .look .behind negated (.concat _)
    | .look .behind negated (.group ..) | .look .behind negated (.repeated ..)
    | .look .behind negated (.look ..) | .look .behind negated (.atomic _)
    | .look .behind negated (.backref _) =>
      rw [groupNumbers] at hnumbers
      rw [Tree.references] at hreferences
      obtain ⟨inner, hinner, rfl⟩ := planBehind_eq_ok h
      exact hP.behind _ _ (plan_induct hP hnumbers hreferences hinner)

theorem planAll_induct {referenced : List Nat} {hard : Bool} {items : List Tree}
    (hP : Program.Hereditary numbers references P)
    (hnumbers : ∀ number ∈ groupNumbersOf items, numbers number)
    (hreferences : ∀ number ∈ referencesOf items, references number) :
    ∀ program, .ok program ∈ planAll referenced hard items → P program := by
  match items with
  | [] => exact fun _ hmem => by cases hmem
  | item :: items =>
    rw [groupNumbersOf] at hnumbers
    rw [referencesOf] at hreferences
    obtain ⟨hitem, hitems⟩ := List.forall_mem_append.mp hnumbers
    obtain ⟨hitem', hitems'⟩ := List.forall_mem_append.mp hreferences
    intro program hmem
    rcases List.mem_cons.mp hmem with heq | hmem
    · exact plan_induct hP hitem hitem' heq.symm
    · exact planAll_induct hP hitems hitems' program hmem
end

end

/-! ## Groups of programs -/

theorem groupsUpTo_hereditary (bound : Nat) :
    Program.Hereditary (fun number => 0 < number ∧ number ≤ bound) (fun _ => True)
      (Program.GroupsUpTo bound) where
  empty := trivial
  char _ := trivial
  anchor _ := trivial
  seq hfirst hsecond := ⟨hfirst, hsecond⟩
  alt hfirst hsecond := ⟨hfirst, hsecond⟩
  group hnumber hbody := ⟨hnumber, hbody⟩
  times _ _ _ hbody := hbody
  more _ hbody := hbody
  plus _ hbody := hbody
  ahead _ hbody := hbody
  behind _ _ hbody := hbody
  atomic hbody := hbody
  settled _ hbody := hbody
  backref _ := trivial

theorem settle_groupsUpTo {tree : Tree} {program : Program}
    (hnumbers : ∀ number ∈ tree.groupNumbers, 0 < number ∧ number ≤ bound)
    (h : tree.settle = .ok program) : program.GroupsUpTo bound :=
  settle_induct (groupsUpTo_hereditary bound) hnumbers h

/-- The program of a tree records no groups but those of the tree. -/
theorem plan_groupsUpTo {referenced : List Nat} {hard : Bool} {tree : Tree} {program : Program}
    (hnumbers : ∀ number ∈ tree.groupNumbers, 0 < number ∧ number ≤ bound)
    (h : tree.plan referenced hard = .ok program) : program.GroupsUpTo bound :=
  plan_induct (groupsUpTo_hereditary bound) hnumbers (fun _ _ => trivial) h

end Tree

end Highlighter.Regex
