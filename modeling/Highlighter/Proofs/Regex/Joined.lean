import Highlighter.Proofs.Regex.Wrapped

/-!
# Expressions joined into one

Sources that are joined with bars, each in a group of its own, read as an alternation of what they
read as alone, except that all groups have higher numbers. Each of them is read with the flags in
force that the one before it leaves.
-/

namespace Highlighter.Regex.Tree

/-- Sources read on their own, one after the other: each starts with the flags that the one before
it leaves in force. They are clear, their groups are counted right, and none of them goes on
ignoring blanks. -/
inductive ReadInTurn : Flags → List String → List Source → Prop where
  | nil {flags : Flags} : ReadInTurn flags [] []
  | cons {flags : Flags} {source : String} {sources : List String} {tree : Tree}
      {after : Progress} {reads : List Source} (hclear : Pattern.IsClear source.toList)
      (hread : readExpression maxLevels { flags := flags } source.toList = .ok (tree, after, []))
      (hcount : Pattern.countGroups source = after.groups)
      (hblank : after.flags.ignoreBlank = false) (hrest : ReadInTurn after.flags sources reads) :
      ReadInTurn flags (source :: sources) (⟨tree, after.groups, after.referenced⟩ :: reads)

/-- All groups that are opened or referenced are among the groups of the source. -/
structure Source.Closed (read : Source) : Prop where
  numbers : ∀ number ∈ read.tree.groupNumbers, 0 < number ∧ number ≤ read.groups
  referenced : ∀ number ∈ read.referenced, 0 < number ∧ number ≤ read.groups

/-- The trees in groups of their own, when `groups` groups precede them. -/
def wrap (groups : Nat) : List Source → List Tree
  | [] => []
  | read :: reads =>
    .group (groups + 1) (read.tree.shift (groups + 1)) :: wrap (groups + 1 + read.groups) reads

/-- The groups that are referenced in them, the latest first. -/
def wrapReferences (groups : Nat) : List Source → List Nat
  | [] => []
  | read :: reads =>
    wrapReferences (groups + 1 + read.groups) reads ++ read.referenced.map (· + (groups + 1))

/-- The number of groups after them. -/
def wrapGroups (groups : Nat) : List Source → Nat
  | [] => groups
  | read :: reads => wrapGroups (groups + 1 + read.groups) reads

/-- An alternation, unless there is a single choice. -/
def ofChoices : List Tree → Tree
  | [choice] => choice
  | choices => .alt choices

/-- Each source in a group of its own, with a bar before it. -/
def barred (groups : Nat) (sources : List String) : List Char :=
  (Pattern.wrapFrom groups sources).flatMap ('|' :: ·)

variable {flags : Flags} {levels fuel : Nat} {progress after : Progress} {rest : List Char}
  {source : String} {sources : List String} {reads : List Source}

theorem barred_cons (groups : Nat) (source : String) (sources : List String) :
    barred groups (source :: sources) =
      '|' :: '(' :: (Pattern.shiftReferences (groups + 1) source ++
        ')' :: barred (groups + 1 + Pattern.countGroups source) sources) := by
  simp [barred, Pattern.wrapFrom]

theorem intercalate_bar (first : List Char) (others : List (List Char)) :
    List.intercalate ['|'] (first :: others) = first ++ others.flatMap ('|' :: ·) := by
  induction others generalizing first with
  | nil => rw [List.intercalate_singleton, List.flatMap_nil, List.append_nil]
  | cons second others ih =>
    rw [List.intercalate_cons_cons, ih, List.flatMap_cons, List.append_assoc]
    rfl

theorem joinGroups_cons (source : String) (sources : List String) :
    (Pattern.joinGroups "|" (source :: sources)).toList =
      '(' :: (Pattern.shiftReferences 1 source ++
        ')' :: barred (1 + Pattern.countGroups source) sources) := by
  have hbar : "|".toList = ['|'] := rfl
  rw [Pattern.joinGroups, String.toList_ofList, hbar, Pattern.wrapFrom, intercalate_bar]
  simp [barred]

theorem head?_barred {groups : Nat} {c : Char} (h : (barred groups sources).head? = some c) :
    c = '|' := by
  cases sources with
  | nil => cases h
  | cons source sources =>
    rw [barred_cons] at h
    cases h
    rfl

/-- The next source in a group of its own. -/
theorem readBranch_barred {tree : Tree} {alone : Progress}
    (hclear : Pattern.IsClear source.toList)
    (halone : readExpression maxLevels { flags := progress.flags } source.toList =
      .ok (tree, alone, []))
    (hcount : Pattern.countGroups source = alone.groups)
    (hblank : alone.flags.ignoreBlank = false) {choice : Tree}
    (hread : readBranch (some (readExpression levels)) progress
      ('(' :: (Pattern.shiftReferences (progress.groups + 1) source ++
        ')' :: barred (progress.groups + 1 + Pattern.countGroups source) sources)) =
      .ok (choice, after, rest)) :
    Wraps progress alone after tree choice ∧ rest = barred after.groups sources := by
  obtain ⟨rfl, hwraps⟩ := readBranch_wrapped halone hblank (.of_isClear hclear)
    (fun c hhead => head?_barred hhead) hread
  refine ⟨hwraps, ?_⟩
  rw [hcount, hwraps.groups]

/-- The first of the remaining sources, and then the others. -/
theorem readMore_barred_cons {tree : Tree} {alone : Progress}
    (hclear : Pattern.IsClear source.toList)
    (halone : readExpression maxLevels { flags := progress.flags } source.toList =
      .ok (tree, alone, []))
    (hcount : Pattern.countGroups source = alone.groups)
    (hblank : alone.flags.ignoreBlank = false) {choices : List Tree}
    (hfuel : (barred progress.groups (source :: sources)).length ≤ fuel)
    (hread : readMore (some (readExpression levels)) fuel progress
      (barred progress.groups (source :: sources)) = .ok (choices, after, rest)) :
    ∃ fuel' choice middle others, readBranch (some (readExpression levels)) progress
        ('(' :: (Pattern.shiftReferences (progress.groups + 1) source ++
          ')' :: barred (progress.groups + 1 + Pattern.countGroups source) sources)) =
        .ok (choice, middle, barred middle.groups sources) ∧
      Wraps progress alone middle tree choice ∧
      (barred middle.groups sources).length ≤ fuel' ∧
      readMore (some (readExpression levels)) fuel' middle (barred middle.groups sources) =
        .ok (others, after, rest) ∧ choices = choice :: others := by
  rw [barred_cons] at hread hfuel
  simp only [List.length_cons] at hfuel
  obtain ⟨fuel, rfl⟩ := Nat.exists_eq_succ_of_ne_zero (by omega : fuel ≠ 0)
  obtain ⟨skipped, hskip, hends⟩ := readMore_eq_ok hread
  cases (readPiece_end (by decide) none progress _).1.symm.trans hskip
  rcases hends with ⟨hbar, -⟩ | ⟨inside, choice, middle, between, others, hinside, hchoice,
    hothers, rfl⟩
  · exact absurd rfl hbar
  · cases hinside
    obtain ⟨hwraps, rfl⟩ := readBranch_barred hclear halone hcount hblank hchoice
    have hless : (barred middle.groups sources).length ≤ fuel := by
      rw [hcount, ← hwraps.groups] at hfuel
      simp only [List.length_append, List.length_cons] at hfuel
      omega
    exact ⟨fuel, choice, middle, others, hchoice, hwraps, hless, hothers, rfl⟩

theorem readMore_barred (hreads : ReadInTurn progress.flags sources reads) {choices : List Tree}
    (hfuel : (barred progress.groups sources).length ≤ fuel)
    (hread : readMore (some (readExpression levels)) fuel progress
      (barred progress.groups sources) = .ok (choices, after, rest)) :
    rest = [] ∧ (∀ read ∈ reads, read.Closed) ∧ choices = wrap progress.groups reads ∧
      after.groups = wrapGroups progress.groups reads ∧
      after.referenced = wrapReferences progress.groups reads ++ progress.referenced := by
  generalize hflags : progress.flags = flags at hreads
  induction hreads generalizing progress fuel choices with
  | nil =>
    cases (readMore_nil _ fuel progress).symm.trans hread
    exact ⟨rfl, List.forall_mem_nil _, rfl, rfl, rfl⟩
  | @cons flags source sources tree alone reads hclear halone hcount hblank hrest ih =>
    subst hflags
    obtain ⟨fuel, choice, middle, others, -, hwraps, hless, hothers, rfl⟩ :=
      readMore_barred_cons hclear halone hcount hblank hfuel hread
    have hgroups : middle.groups = progress.groups + 1 + alone.groups := hwraps.groups
    obtain ⟨hnil, hclosed, hchoices, hafter, hreferenced⟩ := ih hless hothers hwraps.flags
    refine ⟨hnil, ?_, ?_, ?_, ?_⟩
    · exact List.forall_mem_cons.mpr ⟨⟨hwraps.numbers, hwraps.known⟩, hclosed⟩
    · rw [wrap, hchoices, hwraps.shifted, hgroups]
    · rw [wrapGroups, hafter, hgroups]
    · rw [wrapReferences, hreferenced, hwraps.referenced, hgroups, List.append_assoc]

/-- Joined sources read as an alternation of what they read as alone. -/
theorem read_joinGroups (hreads : ReadInTurn flags sources reads) (hsome : sources ≠ [])
    {joined : Source} (hread : read flags (Pattern.joinGroups "|" sources) = .ok joined) :
    (∀ read ∈ reads, read.Closed) ∧
      joined = ⟨ofChoices (wrap 0 reads), wrapGroups 0 reads, wrapReferences 0 reads⟩ := by
  obtain ⟨⟨tree, after, rest⟩, hexpression, hjoined⟩ := ok_of_bind_eq_ok hread
  rw [readExpression_eq] at hexpression
  obtain ⟨first, middle, between, choices, hfirst, hmore, rfl⟩ := readChoice_eq_ok hexpression
  cases hreads with
  | nil => exact absurd rfl hsome
  | @cons _ source sources alone last reads hclear halone hcount hblank hrest =>
    rw [joinGroups_cons] at hfirst
    have hstart : readBranch (some (readExpression 62)) { flags := flags }
        ('(' :: (Pattern.shiftReferences (({ flags := flags } : Progress).groups + 1) source ++
          ')' :: barred (({ flags := flags } : Progress).groups + 1 +
            Pattern.countGroups source) sources)) = .ok (first, middle, between) := hfirst
    obtain ⟨hwraps, hbetween⟩ := readBranch_barred hclear halone hcount hblank hstart
    subst hbetween
    rw [← hwraps.flags] at hrest
    obtain ⟨rfl, hclosed, rfl, hafter, hreferenced⟩ :=
      readMore_barred hrest (Nat.le_refl _) hmore
    have hgroups : middle.groups = 0 + 1 + last.groups := hwraps.groups
    cases hjoined
    refine ⟨List.forall_mem_cons.mpr ⟨⟨hwraps.numbers, hwraps.known⟩, hclosed⟩, ?_⟩
    have hchoices : (if (wrap middle.groups reads).isEmpty then first
        else alt (first :: wrap middle.groups reads)) =
          ofChoices (first :: wrap middle.groups reads) := by
      cases wrap middle.groups reads <;> rfl
    rw [hchoices, hafter, hreferenced, hwraps.referenced, hwraps.shifted, hgroups]
    simp only [wrap, wrapGroups, wrapReferences, List.append_nil]

end Highlighter.Regex.Tree
