import Highlighter.Pattern
import Highlighter.Proofs.Regex.Continued
import Highlighter.Proofs.Regex.Either

/-!
# Alternatives

Sources with bars between them, all in one group, are meant as alternatives. They are where each of
them reads in its place, behind the groups of those before it and with the flags that these leave in
force, as it does alone. Then the whole has a program, and it matches as the first of the sources
that matches alone.
-/

namespace Highlighter.Regex.Tree

/-- After a source in its place as much is known as after it alone, on top of what was known
before. -/
structure Extends (before after next : Progress) : Prop where
  groups : next.groups = before.groups + after.groups
  referenced : next.referenced = after.referenced.map (· + before.groups) ++ before.referenced

/-- Sources that follow one another, each inside one more pair of parentheses than alone. Each of
them reads in its place as it does alone with the given flags, except for higher numbers of its
groups, and does not leave blanks ignored. What they read as alone is given, and what is known after
the last of them. -/
inductive InPlace (flags : Flags) : Progress → List String → List Source → Progress → Prop where
  | nil {before : Progress} : InPlace flags before [] [] before
  | cons {before after next last : Progress} {source : String} {sources : List String} {tree : Tree}
      {reads : List Source}
      (halone : readExpression maxLevels { flags := flags } source.toList = .ok (tree, after, []))
      (hplace : readExpression (maxLevels - 1) before source.toList =
        .ok (tree.shift before.groups, next, []))
      (hnext : Extends before after next) (hblank : next.flags.ignoreBlank = false)
      (hpositive : ∀ number ∈ after.referenced, 0 < number)
      (hrest : InPlace flags next sources reads last) :
      InPlace flags before (source :: sources) (⟨tree, after.groups, after.referenced⟩ :: reads) last

/-- Sources read in their places as alternatives, from the first one on, and named groups do not
stand next to numbered references. What they read as alone is given. -/
def AlternateInPlace (flags : Flags) (sources : List String) (reads : List Source) : Prop :=
  ∃ last, InPlace flags { flags := flags } sources reads last ∧ mixesReferences last = false

/-- The branches of the sources one after the other, when `groups` groups precede them. -/
inductive Branches : Nat → List Source → List Tree → Prop where
  | nil {groups : Nat} : Branches groups [] []
  | cons {groups : Nat} {read : Source} {reads : List Source} {first : Tree}
      {more others : List Tree} (hown : ofChoices (first :: more) = read.tree.shift groups)
      (hrest : Branches (groups + read.groups) reads others) :
      Branches groups (read :: reads) (first :: (more ++ others))

variable {flags : Flags} {before after next last : Progress} {sources : List String}
  {reads : List Source} {levels : Nat} {tail : List Char}

/-! ## Reading -/

/-- The sources, each with a bar before it. -/
def bars (sources : List String) : List Char :=
  sources.flatMap fun source => '|' :: source.toList

/-- What may follow a source among alternatives. -/
theorem exists_bars (sources : List String) (rest : List Char) :
    ∃ c ∈ ['|', ')'], (bars sources ++ ')' :: rest).head? = some c := by
  cases sources with
  | nil => exact ⟨')', by decide, rfl⟩
  | cons source sources => exact ⟨'|', by decide, rfl⟩

theorem follows_of_end (h : ∃ c ∈ ['|', ')'], tail.head? = some c) : Follows tail := by
  obtain ⟨c, hc, hhead⟩ := h
  obtain ⟨rest, rfl⟩ := List.head?_eq_some_iff.mp hhead
  refine ⟨⟨c, List.mem_append_left ['('] hc, rfl⟩, fun hcomment => ?_⟩
  obtain ⟨rfl, -⟩ := List.cons_prefix_cons.mp hcomment
  revert hc
  decide

/-- In front of other alternatives, the branches of a source are those it has alone, and the others
come after them. -/
theorem exists_branches {source : List Char} {tree : Tree}
    (hend : ∃ c ∈ ['|', ')'], tail.head? = some c)
    (hread : readExpression levels before source = .ok (tree, after, []))
    (hblank : after.flags.ignoreBlank = false) :
    ∃ first more middle between, tree = ofChoices (first :: more) ∧
      (more = [] → mixesReferences after = false) ∧
      readBranch (innerReader levels) before (source ++ tail) = .ok (first, middle, between) ∧
      ∀ {fuel : Nat} {others : List Tree} {last : Progress} {final : List Char},
        between.length ≤ fuel →
        (∀ fuel, tail.length ≤ fuel →
          readMore (innerReader levels) fuel after tail = .ok (others, last, final)) →
        readMore (innerReader levels) fuel middle between = .ok (more ++ others, last, final) := by
  have htail := follows_of_end hend
  have hinner := innerReader_goesOn htail levels
  rw [readExpression_eq] at hread
  obtain ⟨first, middle, between, more, hfirst, hmore, rfl, hmix⟩ := readChoice_eq_ok_iff.mp hread
  have hlost : ¬ Place.Lost ⟨after, []⟩ := by
    rintro ⟨hlost, -⟩
    rw [hblank] at hlost
    cases hlost
  refine ⟨first, more, middle, between ++ tail, rfl, hmix, ?_, fun hfuel hothers => ?_⟩
  · refine (readBranch_append htail hinner (fun _ => hend) hfirst).resolve_left ?_
    rintro ⟨hgone, hnil⟩
    simp only at hgone hnil
    subst hnil
    cases (readMore_nil _ _ middle).symm.trans hmore
    exact hlost ⟨hgone, rfl⟩
  · exact ((readMore_append htail hinner (fun _ => hend) (Nat.le_refl _) hfuel hmore).resolve_left
      hlost) hothers

/-- The alternatives behind the first one. -/
theorem InPlace.readMore (h : InPlace flags before sources reads last) (rest : List Char) :
    ∃ branches, Branches before.groups reads branches ∧
      ∀ fuel, (bars sources ++ ')' :: rest).length ≤ fuel →
        Tree.readMore (innerReader (maxLevels - 1)) fuel before (bars sources ++ ')' :: rest) =
          .ok (branches, last, ')' :: rest) := by
  induction h with
  | nil => exact ⟨[], .nil, fun fuel _ => readMore_close _ fuel _ rest⟩
  | @cons before after next last source sources tree reads _ hplace hnext hblank _ hrest ih =>
    obtain ⟨others, hothers, hmore⟩ := ih
    obtain ⟨first, more, middle, between, hown, -, hfirst, hgoes⟩ :=
      exists_branches (exists_bars sources rest) hplace hblank
    rw [hnext.groups] at hothers
    refine ⟨first :: (more ++ others), .cons hown.symm hothers, fun fuel hfuel => ?_⟩
    have hsource : bars (source :: sources) ++ ')' :: rest =
        '|' :: (source.toList ++ (bars sources ++ ')' :: rest)) := by
      simp [bars]
    have hskip : skip before (bars (source :: sources) ++ ')' :: rest) =
        .ok ('|' :: (source.toList ++ (bars sources ++ ')' :: rest))) := by
      rw [hsource]
      exact (readPiece_end (by decide) none before _).1
    have hbetween := (readBranch_took (fun read hread =>
      (innerReader_goesOn (follows_of_end (exists_bars sources rest)) _ read hread).takes)
      hfirst).suffix.length_le
    rw [hsource, List.length_cons] at hfuel
    simp only at hbetween
    obtain ⟨fuel, rfl⟩ := Nat.exists_eq_succ_of_ne_zero (by omega : fuel ≠ 0)
    exact readMore_of_branch hskip hfirst (hgoes (by omega) hmore)

theorem toList_oneOf (source : String) (sources : List String) :
    (Pattern.oneOf (source :: sources)).toList =
      '(' :: '?' :: ':' :: (source.toList ++ (bars sources ++ [')'])) := by
  have hbar : "|".toList = ['|'] := rfl
  rw [Pattern.oneOf, String.toList_append, String.toList_append, String.toList_intercalate, hbar,
    List.map_cons, intercalate_bar, List.flatMap_map]
  simp [bars]

/-- A source that is nothing but one construct. -/
theorem readExpression_of_piece {source : List Char} {tree : Tree} (hsource : source ≠ [])
    (h : readPiece (innerReader levels) before source = .ok (tree, last, []))
    (hmix : mixesReferences last = false) :
    readExpression levels before source = .ok (tree, last, []) := by
  have hpositive := List.length_pos_iff.mpr hsource
  obtain ⟨fuel, hfuel⟩ := Nat.exists_eq_succ_of_ne_zero (by omega : source.length ≠ 0)
  have hitems : readItems (innerReader levels) source.length before source =
      .ok (consItem tree [], last, []) := by
    rw [hfuel]
    exact readItems_of_piece hsource h (Nat.ne_of_lt hpositive) (readItems_nil _ fuel last)
  have hbranch : readBranch (innerReader levels) before source = .ok (tree, last, []) := by
    refine (bind_eq_of_ok hitems).trans ?_
    simp only [ofItems_consItem]
    rfl
  rw [readExpression_eq]
  exact readChoice_eq_ok_iff.mpr
    ⟨tree, last, [], [], hbranch, readMore_nil _ _ last, rfl, fun _ => hmix⟩

/-- A group that does not capture, with nothing around it. -/
theorem readExpression_group {source : List Char} {tree : Tree}
    (h : readExpression levels before source = .ok (tree, last, [')']))
    (hmix : mixesReferences last = false) :
    readExpression (levels + 1) before ('(' :: '?' :: ':' :: source) =
      .ok (tree, { last with flags := before.flags }, []) := by
  have hopen : skip before ('?' :: ':' :: source) = .ok ('?' :: ':' :: source) :=
    skipIgnored_id (by decide) (fun heq => absurd heq (by decide)) (by decide) _ _
  have hparen : readParenthesis (readExpression levels) before ('?' :: ':' :: source) =
      .ok (tree, { last with flags := before.flags }, []) := by
    rw [readParenthesis_eq, bind_eq_of_ok hopen]
    exact bind_eq_of_ok h
  have hskip : skip before ('(' :: '?' :: ':' :: source) = .ok ('(' :: '?' :: ':' :: source) :=
    skipIgnored_id (by decide) (fun _ hcomment => by simp at hcomment) (by decide) _ _
  have hatom : readAtom (innerReader (levels + 1)) before ('(' :: '?' :: ':' :: source) =
      .ok (tree, { last with flags := before.flags }, []) := by
    rw [readAtom_eq, bind_eq_of_ok hskip]
    exact hparen
  refine readExpression_of_piece (List.cons_ne_nil _ _) ?_ hmix
  rw [readPiece_eq, bind_eq_of_ok hatom]
  rfl

/-- In a group, alternatives read as the branches of the sources one after the other. -/
theorem read_oneOf (h : InPlace flags { flags := flags } sources reads last)
    (hsome : sources ≠ []) (hmix : mixesReferences last = false) :
    ∃ branches, Branches 0 reads branches ∧
      read flags (Pattern.oneOf sources) =
        .ok ⟨ofChoices branches, last.groups, last.referenced⟩ := by
  cases h with
  | nil => exact absurd rfl hsome
  | @cons _ after next _ source sources tree reads halone hplace hnext hblank hpositive hrest =>
    obtain ⟨others, hothers, hmore⟩ := hrest.readMore []
    obtain ⟨first, more, middle, between, hown, -, hfirst, hgoes⟩ :=
      exists_branches (exists_bars sources []) hplace hblank
    rw [hnext.groups] at hothers
    refine ⟨first :: (more ++ others), .cons hown.symm hothers, ?_⟩
    have hinside : readExpression (maxLevels - 1) { flags := flags }
        (source.toList ++ (bars sources ++ [')'])) =
          .ok (ofChoices (first :: (more ++ others)), last, [')']) := by
      rw [readExpression_eq]
      exact readChoice_eq_ok_iff.mpr
        ⟨first, middle, between, _, hfirst, hgoes (Nat.le_refl _) hmore, rfl, fun _ => hmix⟩
    have hread : readExpression maxLevels { flags := flags }
        (Pattern.oneOf (source :: sources)).toList =
          .ok (ofChoices (first :: (more ++ others)), { last with flags := flags }, []) := by
      rw [toList_oneOf]
      exact readExpression_group hinside hmix
    rw [read, bind_eq_of_ok hread]
    rfl

theorem readExpression_close {source : List Char} {tree : Tree}
    (hread : readExpression levels before source = .ok (tree, after, []))
    (hblank : after.flags.ignoreBlank = false) :
    readExpression levels before (source ++ [')']) = .ok (tree, after, [')']) := by
  obtain ⟨first, more, middle, between, rfl, hmix, hfirst, hgoes⟩ :=
    exists_branches (exists_bars [] []) hread hblank
  have hmore := hgoes (Nat.le_refl _) fun fuel _ => readMore_close _ fuel after []
  rw [List.append_nil] at hmore
  rw [readExpression_eq]
  exact readChoice_eq_ok_iff.mpr ⟨first, middle, between, more, hfirst, hmore, rfl, hmix⟩

/-- A source that can be read in its place, with the flags that it has alone, and that names no
group by a number which others have taken there, reads in its place as it does alone. -/
theorem InPlace.cons_of_renumbers {source : String} {tree tree' : Tree}
    (halone : readExpression maxLevels { flags := before.flags } source.toList =
      .ok (tree, after, []))
    (hplace : readExpression (maxLevels - 1) before source.toList = .ok (tree', next, []))
    (hmoved : Pattern.Renumbers before.groups source.toList source.toList)
    (hblank : after.flags.ignoreBlank = false) (hblank' : next.flags.ignoreBlank = false)
    (hrest : InPlace before.flags next sources reads last) :
    InPlace before.flags before (source :: sources)
      (⟨tree, after.groups, after.referenced⟩ :: reads) last := by
  have hclosed : readExpression (maxLevels - 1) before (source.toList ++ [')']) =
      .ok (tree', next, [')']) := readExpression_close hplace hblank'
  have hstart : Aligned before.groups before.referenced []
      ⟨{ flags := before.flags }, source.toList⟩ ⟨before, source.toList ++ [')']⟩ :=
    ⟨⟨source.toList, rfl, hmoved⟩, rfl, (Nat.zero_add _).symm, rfl, List.forall_mem_nil _⟩
  rcases (readExpression_mirrors _ _ _ _ _).mirror hstart (.inl rfl) halone hclosed with
    ⟨hlost, -⟩ | ⟨rfl, hmirror⟩
  · cases hblank.symm.trans hlost
  · obtain ⟨-, -, hgroups, hreferenced, hknown⟩ := hmirror.aligned
    exact .cons halone hplace ⟨hgroups.trans (Nat.add_comm _ _), hreferenced⟩ hblank'
      (fun number hmem => (hknown number hmem).1) hrest

/-! ## References -/

/-- The sources have the groups they name to themselves: each is closed, and of its groups those are
referenced in the whole that it references itself. -/
inductive Named (referenced : List Nat) : Nat → List Source → Prop where
  | nil {groups : Nat} : Named referenced groups []
  | cons {groups : Nat} {read : Source} {reads : List Source} (hclosed : read.Closed)
      (hsame : SameReferences groups read.referenced referenced read.tree.groupNumbers)
      (hrest : Named referenced (groups + read.groups) reads) :
      Named referenced groups (read :: reads)

theorem closed_of_readExpression {source : List Char} {tree : Tree}
    {rest : List Char}
    (h : readExpression levels { flags := flags } source = .ok (tree, after, rest))
    (hpositive : ∀ number ∈ after.referenced, 0 < number) :
    Source.Closed ⟨tree, after.groups, after.referenced⟩ := by
  have htook := readExpression_took levels h
  exact ⟨fun number hmem => htook.bounds hmem, fun number hmem =>
    ⟨hpositive number hmem, (htook.referenced number hmem).resolve_left List.not_mem_nil⟩⟩

/-- Later sources name later groups. -/
theorem InPlace.referenced (h : InPlace flags before sources reads last) :
    ∃ later, last.referenced = later ++ before.referenced ∧
      ∀ number ∈ later, before.groups < number := by
  induction h with
  | nil => exact ⟨[], rfl, List.forall_mem_nil _⟩
  | @cons before after next last source sources tree reads _ _ hnext _ hpositive _ ih =>
    obtain ⟨later, hlater, hless⟩ := ih
    refine ⟨later ++ after.referenced.map (· + before.groups), ?_, fun number hmem => ?_⟩
    · rw [hlater, hnext.referenced, List.append_assoc]
    · rcases List.mem_append.mp hmem with hmem | hmem
      · have hmore := hless number hmem
        rw [hnext.groups] at hmore
        omega
      · obtain ⟨own, hown, rfl⟩ := List.mem_map.mp hmem
        have hpos := hpositive own hown
        omega

theorem InPlace.named (h : InPlace flags before sources reads last)
    (hbelow : ∀ number ∈ before.referenced, number ≤ before.groups) :
    Named last.referenced before.groups reads := by
  induction h with
  | nil => exact .nil
  | @cons before after next last source sources tree reads halone _ hnext _ hpositive hrest ih =>
    have hclosed := closed_of_readExpression halone hpositive
    obtain ⟨later, hlater, hless⟩ := hrest.referenced
    refine .cons hclosed (fun number hmem => ?_) ?_
    · obtain ⟨hpos, hle⟩ := hclosed.numbers number hmem
      simp only at hle
      have hnotLater : number + before.groups ∉ later := fun hin => by
        have hmore := hless _ hin
        rw [hnext.groups] at hmore
        omega
      have hnotBefore : number + before.groups ∉ before.referenced := fun hin => by
        have hmore := hbelow _ hin
        omega
      rw [Bool.eq_iff_iff, List.contains_iff_mem, List.contains_iff_mem, hlater, List.mem_append,
        or_iff_right hnotLater, hnext.referenced, List.mem_append, or_iff_left hnotBefore]
      simp only [List.mem_map, Nat.add_right_cancel_iff, exists_eq_right]
    · rw [← hnext.groups]
      refine ih fun number hmem => ?_
      rw [hnext.referenced, List.mem_append, List.mem_map] at hmem
      rw [hnext.groups]
      rcases hmem with ⟨own, hown, rfl⟩ | hmem
      · have hle := (hclosed.referenced own hown).2
        simp only at hle
        omega
      · exact Nat.le_trans (hbelow number hmem) (Nat.le_add_right _ _)

/-! ## Programs -/

variable {referenced : List Nat} {program : Program} {branches : List Tree} {groups : Nat}
  {text : Array Char} {programs : List Program} {regexes : List Regex}

/-- A tree that can be settled has a plan. -/
theorem exists_plan_of_settle {tree : Tree} (heasy : tree.isHard referenced = false)
    (h : tree.settle = .ok program) : ∃ planned, tree.plan referenced false = .ok planned := by
  have hpart : ∃ parts, settlePart [tree] = .ok parts := by
    simp only [settlePart, settleAll, h]
    cases groupNumbersOf [tree] with
    | nil => exact ⟨_, rfl⟩
    | cons number numbers => exact ⟨_, rfl⟩
  obtain ⟨parts, hparts⟩ := hpart
  refine ⟨.seqs parts, ?_⟩
  unfold plan
  rw [heasy, hparts]
  rfl

theorem RunsAs.exists_plan {tree : Tree} (h : tree.RunsAs referenced program) :
    ∃ planned, tree.plan referenced false = .ok planned := by
  rcases h with hplan | ⟨heasy, hsettle⟩
  · exact ⟨program, hplan⟩
  · exact exists_plan_of_settle heasy hsettle

theorem exists_plan_of_forall₂ (h : List.Forall₂ (RunsAs referenced) branches programs) :
    ∀ branch ∈ branches, ∃ planned, branch.plan referenced false = .ok planned := by
  induction h with
  | nil => exact List.forall_mem_nil _
  | cons hfirst _ ih => exact List.forall_mem_cons.mpr ⟨hfirst.exists_plan, ih⟩

theorem exists_settleAll (heasy : anyHard referenced branches = false)
    (h : ∀ branch ∈ branches, ∃ program, branch.plan referenced false = .ok program) :
    ∃ programs, settleAll branches = .ok programs := by
  induction branches with
  | nil => exact ⟨[], rfl⟩
  | cons branch branches ih =>
    rw [anyHard, Bool.or_eq_false_iff] at heasy
    obtain ⟨⟨planned, hplanned⟩, hothers⟩ := List.forall_mem_cons.mp h
    obtain ⟨-, -, body, hbody, -⟩ := plan_of_not_isHard heasy.1 hplanned
    obtain ⟨bodies, hbodies⟩ := ih heasy.2 hothers
    exact ⟨body :: bodies, by rw [settleAll, hbody, hbodies]; rfl⟩

theorem exists_planAll
    (h : ∀ branch ∈ branches, ∃ program, branch.plan referenced false = .ok program) :
    ∃ programs, allOk (planAll referenced false branches) = .ok programs := by
  induction branches with
  | nil => exact ⟨[], rfl⟩
  | cons branch branches ih =>
    obtain ⟨⟨planned, hplanned⟩, hothers⟩ := List.forall_mem_cons.mp h
    obtain ⟨others, hall⟩ := ih hothers
    exact ⟨planned :: others, by rw [planAll, allOk, hplanned, hall]; rfl⟩

/-- Branches that have plans have one together. -/
theorem exists_plan_ofChoices (hsome : branches ≠ [])
    (h : ∀ branch ∈ branches, ∃ program, branch.plan referenced false = .ok program) :
    ∃ program, (ofChoices branches).plan referenced false = .ok program := by
  match branches with
  | [] => exact absurd rfl hsome
  | [branch] => exact h branch List.mem_cons_self
  | first :: second :: others =>
    cases hhard : (Tree.alt (first :: second :: others)).isHard referenced with
    | false =>
      obtain ⟨programs, hprograms⟩ := exists_settleAll hhard h
      exact exists_plan_of_settle hhard (bind_eq_of_ok hprograms)
    | true =>
      obtain ⟨programs, hprograms⟩ := exists_planAll h
      refine ⟨.alts programs, ?_⟩
      rw [ofChoices]
      · unfold plan
        rw [hhard]
        exact bind_eq_of_ok hprograms
      · intro choice heq
        cases heq

/-- The plan of an alternation runs its branches in turn. -/
theorem exists_runsAs_ofChoices (hsome : branches ≠ [])
    (h : (ofChoices branches).plan referenced false = .ok program) (text : Array Char) :
    ∃ programs, List.Forall₂ (RunsAs referenced) branches programs ∧
      RunsEach text program programs := by
  match branches with
  | [] => exact absurd rfl hsome
  | [branch] =>
    have hruns : RunsEach text (.alts [program]) [program] := runsEach_alts (List.cons_ne_nil _ _)
    exact ⟨[program], .cons (.inl h) .nil, hruns⟩
  | first :: second :: others => exact exists_runsAs h text

/-- The programs, tried in turn, stop where one program does. -/
def StopsAs (text : Array Char) (program : Program) (programs : List Program) : Prop :=
  ∀ state state' : State, state.Fresh → state'.Fresh → state'.position = state.position →
    (program.run text some state).map (·.position) =
      (programs.findSome? fun own => own.run text some state').map (·.position)

/-- The programs are those of several expressions, one after the other. -/
inductive StopInTurn (text : Array Char) : List Regex → List Program → Prop where
  | nil : StopInTurn text [] []
  | cons {regex : Regex} {regexes : List Regex} {own others : List Program}
      (hown : StopsAs text regex.program own) (hrest : StopInTurn text regexes others) :
      StopInTurn text (regex :: regexes) (own ++ others)

theorem position_of_rel {offset bound : Nat} {result result' : Option State}
    (h : Option.Rel (State.Moved offset bound) result result') :
    result'.map (·.position) = result.map (·.position) := by
  cases h with
  | none => rfl
  | some hmoved => exact congrArg some hmoved.position

theorem groupNumbers_ofChoices (branches : List Tree) :
    (ofChoices branches).groupNumbers = groupNumbersOf branches := by
  unfold ofChoices
  split
  · rw [groupNumbersOf, groupNumbersOf, List.append_nil]
  · rfl

/-- A source's own branches, in whatever way they are run, stop where the source does. -/
theorem stopsAs_of_runsAs {read : Source} (hclosed : read.Closed)
    (hsame : SameReferences groups read.referenced referenced read.tree.groupNumbers)
    (hsome : branches ≠ []) (hown : ofChoices branches = read.tree.shift groups)
    (halone : read.tree.plan read.referenced false = .ok program)
    (hprograms : List.Forall₂ (RunsAs referenced) branches programs) (text : Array Char) :
    StopsAs text program programs := by
  have hplan : (ofChoices branches).plan referenced false = .ok (program.shift groups) := by
    rw [hown, plan_shift false read.tree hsame, halone]
    rfl
  obtain ⟨owns, howns, hruns⟩ := exists_runsAs_ofChoices hsome hplan text
  have hnumbers : ∀ branch ∈ branches, ∀ number ∈ branch.groupNumbers,
      0 < number ∧ number ≤ groups + read.groups := by
    intro branch hbranch number hmem
    have hmem' := mem_groupNumbersOf.mpr ⟨branch, hbranch, hmem⟩
    rw [← groupNumbers_ofChoices, hown, groupNumbers_shift, List.mem_map] at hmem'
    obtain ⟨inner, hinner, rfl⟩ := hmem'
    obtain ⟨hpositive, hle⟩ := hclosed.numbers inner hinner
    omega
  have hzero : branches.map (shift 0) = branches := by
    rw [← shiftAll_eq_map, shiftAll_zero]
  have hmoves : List.Forall₂ (Program.Moves text 0 (groups + read.groups)) owns programs :=
    forall₂_moves howns (by rwa [hzero]) hnumbers (fun _ _ _ _ => rfl) text
  intro state state' hfresh hfresh' hposition
  obtain ⟨start, hstart, hsame, hrun⟩ := hruns state' hfresh'
  have hshift : Program.Moves text groups read.groups program (program.shift groups) :=
    Program.moves_shift (plan_groupsUpTo hclosed.numbers halone)
  rw [← position_of_rel (hshift state state' hfresh hfresh' hposition), hrun]
  exact (position_of_rel (Program.findSome?_moves hmoves hstart hfresh' hsame.symm)).symm

/-- Every branch has a plan where every source has one alone. -/
theorem Branches.exists_plan (h : Branches groups reads branches)
    (hnamed : Named referenced groups reads) (hregexes : reads.map Source.regex = regexes.map .ok) :
    ∀ branch ∈ branches, ∃ program, branch.plan referenced false = .ok program := by
  induction h generalizing regexes with
  | nil => exact List.forall_mem_nil _
  | @cons groups read reads first more others hown _ ih =>
    obtain ⟨program, later, halone, rfl, hlater⟩ := map_regex_cons hregexes
    cases hnamed with
    | cons hclosed hsame hrest =>
      have hplan : (ofChoices (first :: more)).plan referenced false =
          .ok (program.shift groups) := by
        rw [hown, plan_shift false read.tree hsame, halone]
        rfl
      obtain ⟨owns, howns, -⟩ := exists_runsAs_ofChoices (List.cons_ne_nil _ _) hplan #[]
      rw [← List.cons_append]
      exact List.forall_mem_append.mpr ⟨exists_plan_of_forall₂ howns, ih hrest hlater⟩

/-- However the branches are run, those of each source stop where it does alone. -/
theorem Branches.stopInTurn (h : Branches groups reads branches)
    (hnamed : Named referenced groups reads) (hregexes : reads.map Source.regex = regexes.map .ok)
    (hprograms : List.Forall₂ (RunsAs referenced) branches programs) (text : Array Char) :
    StopInTurn text regexes programs := by
  induction h generalizing regexes programs with
  | nil =>
    cases hprograms
    cases regexes with
    | nil => exact .nil
    | cons regex regexes => cases hregexes
  | @cons groups read reads first more others hown _ ih =>
    obtain ⟨program, later, halone, rfl, hlater⟩ := map_regex_cons hregexes
    cases hnamed with
    | cons hclosed hsame hrest =>
      rw [← List.cons_append] at hprograms
      have hleft := (List.forall₂_take_append _ _ _ hprograms.flip).flip
      have hright := (List.forall₂_drop_append _ _ _ hprograms.flip).flip
      rw [← List.take_append_drop (first :: more).length programs]
      exact .cons (stopsAs_of_runsAs hclosed hsame (List.cons_ne_nil _ _) hown halone hleft text)
        (ih hrest hlater hright)

theorem span_matchAt? (regex : Regex) (text : Array Char) (position : Nat) :
    (regex.matchAt? text position).map (·.span) =
      ((regex.program.run text some { position := position }).map (·.position)).map
        (Span.mk position) := by
  rw [matchAt?, Option.map_map, Option.map_map]
  rfl

theorem StopInTurn.findSome? (h : StopInTurn text regexes programs) {state : State}
    (hfresh : state.Fresh) :
    ((programs.findSome? fun program => program.run text some state).map (·.position)).map
        (Span.mk state.position) =
      regexes.findSome? fun regex => (regex.matchAt? text state.position).map (·.span) := by
  induction h with
  | nil => rfl
  | @cons regex regexes own others hown _ ih =>
    have hstops := hown { position := state.position } state (State.fresh_start _) hfresh rfl
    rw [List.findSome?_append, List.findSome?_cons, ← ih, span_matchAt?, hstops]
    cases own.findSome? fun program => program.run text some state <;> rfl

/-! ## Running -/

/-- What the sources read as alone. -/
theorem InPlace.read_eq (h : InPlace flags before sources reads last) :
    sources.map (read flags) = reads.map .ok := by
  induction h with
  | nil => rfl
  | @cons before after next last source sources tree reads halone _ _ _ _ _ ih =>
    have hfirst : read flags source = .ok ⟨tree, after.groups, after.referenced⟩ :=
      bind_eq_of_ok halone
    rw [List.map_cons, List.map_cons, hfirst, ih]

/-- Alternatives that read in their places match as the first of them that matches alone. -/
theorem AlternateInPlace.exists_matchAt? (h : AlternateInPlace flags sources reads)
    (hsome : sources ≠ []) (hregexes : reads.map Source.regex = regexes.map .ok) :
    ∃ joined, (read flags (Pattern.oneOf sources) >>= Source.regex) = .ok joined ∧
      ∀ text position, (joined.matchAt? text position).map (·.span) =
        regexes.findSome? fun regex => (regex.matchAt? text position).map (·.span) := by
  obtain ⟨last, hplace, hmix⟩ := h
  obtain ⟨branches, hbranches, hread⟩ := read_oneOf hplace hsome hmix
  have hnamed := hplace.named (List.forall_mem_nil _)
  have hbranched : branches ≠ [] := by
    cases hbranches with
    | nil =>
      cases hplace with
      | nil => exact absurd rfl hsome
    | cons => exact List.cons_ne_nil _ _
  obtain ⟨program, hprogram⟩ :=
    exists_plan_ofChoices hbranched (hbranches.exists_plan hnamed hregexes)
  refine ⟨⟨program, last.groups⟩, ?_, fun text position => ?_⟩
  · rw [bind_eq_of_ok hread]
    exact bind_eq_of_ok hprogram
  · obtain ⟨programs, hprograms, hruns⟩ := exists_runsAs_ofChoices hbranched hprogram text
    obtain ⟨state, hfresh, hposition, hrun⟩ := hruns _ (State.fresh_start position)
    have hturns := (hbranches.stopInTurn hnamed hregexes hprograms text).findSome? hfresh
    rwa [← hrun, hposition, ← span_matchAt? ⟨program, last.groups⟩] at hturns

end Highlighter.Regex.Tree
