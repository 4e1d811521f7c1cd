import Highlighter.Proofs.Regex.Choice
import Highlighter.Proofs.Regex.Spared

/-!
# Suffixes of joined expressions

If sources that can be read on their own are joined into an expression, then so are the last ones of
them: each source stands behind fewer groups there, and nothing else has changed for it. Only where
a single source is left, numbers and names must not stand next to each other in it, since there is
no alternation any more that would allow for it.
-/

namespace Highlighter.Regex.Tree

open Pattern (Renumbers)

variable {progress progress' progress'' after after' alone : Progress} {isFirst : Bool}
  {source rest rest' skipped moved' moved'' tail' tail'' : List Char} {tree tree' : Tree}
  {inner : Option (Reader Tree)} {fuel fuel' levels levels' : Nat} {items : List Tree}

/-! ## Starting behind what the flags ignore -/

/-- A branch does not depend on how many constructs may be read, as long as there are enough. -/
theorem readItems_fuel (hinner : ∀ read ∈ inner, Takes read) (hfuel : source.length ≤ fuel)
    (hfuel' : source.length ≤ fuel')
    (h : readItems inner fuel progress source = .ok (items, after, rest)) :
    readItems inner fuel' progress source = .ok (items, after, rest) := by
  induction fuel generalizing progress source fuel' items with
  | zero =>
    cases List.length_eq_zero_iff.mp (Nat.le_zero.mp hfuel)
    cases h
    exact readItems_nil _ _ _
  | succ fuel ih =>
    by_cases hsource : source = []
    · subst hsource
      exact (readItems_nil _ _ _).trans ((readItems_nil _ _ _).symm.trans h)
    have hpositive := List.length_pos_iff.mpr hsource
    obtain ⟨fuel', rfl⟩ := Nat.exists_eq_succ_of_ne_zero (by omega : fuel' ≠ 0)
    obtain ⟨item, middle, inside, hpiece, hends⟩ := readItems_eq_ok hsource h
    have hle := (readPiece_took hinner hpiece).suffix.length_le
    simp only at hle
    rcases hends with ⟨hsame, rfl, rfl, rfl⟩ | ⟨hdiffer, others, hothers, rfl⟩
    · exact readItems_of_idle hpiece hsame _
    · exact readItems_of_piece hsource hpiece hdiffer (ih (by omega) (by omega) hothers)

/-- Behind what the flags ignore, the same constructs are read as in front of it. -/
theorem readItems_skipped (hinner : ∀ read ∈ inner, Takes read)
    (hskip : skip progress source = .ok skipped) (hfuel : source.length ≤ fuel)
    (hfuel' : skipped.length ≤ fuel')
    (h : readItems inner fuel progress source = .ok (items, after, rest)) :
    readItems inner fuel' progress skipped = .ok (items, after, rest) := by
  rcases (skip_suffix hskip).length_le.eq_or_lt with hsame | hless
  · obtain rfl := (skip_suffix hskip).eq_of_length hsame
    exact readItems_fuel hinner hfuel hfuel' h
  have hsource : source ≠ [] := List.length_pos_iff.mp (Nat.zero_lt_of_lt hless)
  obtain ⟨fuel, rfl⟩ := Nat.exists_eq_succ_of_ne_zero (by omega : fuel ≠ 0)
  obtain ⟨item, middle, inside, hpiece, hends⟩ := readItems_eq_ok hsource h
  rw [readPiece_skip hskip] at hpiece
  have hsuffix := (readPiece_took hinner hpiece).suffix
  have hle := hsuffix.length_le
  simp only at hsuffix hle
  rcases hends with ⟨hsame, -⟩ | ⟨-, others, hothers, rfl⟩
  · omega
  by_cases hidle : inside.length = skipped.length
  · -- The reader has taken what is ignored only, and comes to the end of the branch once more.
    obtain rfl := hsuffix.eq_of_length hidle
    rcases readPiece_idle hinner hpiece with hlt | ⟨rfl, rfl⟩
    · omega
    · exact readItems_fuel hinner (by omega) hfuel' hothers
  · obtain ⟨fuel', rfl⟩ := Nat.exists_eq_succ_of_ne_zero (by omega : fuel' ≠ 0)
    refine readItems_of_piece ?_ hpiece hidle
      (readItems_fuel hinner (by omega) (by omega) hothers)
    rintro rfl
    exact hidle (Nat.le_zero.mp hle)

theorem innerReader_takes (levels : Nat) : ∀ read ∈ innerReader levels, Takes read := by
  intro read hread
  cases levels with
  | zero => cases hread
  | succ levels =>
    cases hread
    exact readExpression_took levels

theorem readExpression_skipped (hskip : skip progress source = .ok skipped)
    (h : readExpression levels progress source = .ok (tree, after, rest)) :
    readExpression levels progress skipped = .ok (tree, after, rest) := by
  rw [readExpression_eq] at h ⊢
  obtain ⟨first, middle, between, choices, hfirst, hmore, rfl, hmix⟩ := readChoice_eq_ok_iff.mp h
  obtain ⟨⟨items, last, final⟩, hitems, hpure⟩ := ok_of_bind_eq_ok hfirst
  cases hpure
  have hfirst' : readBranch (innerReader levels) progress skipped = .ok (_, middle, between) :=
    bind_eq_of_ok
      (readItems_skipped (innerReader_takes levels) hskip (Nat.le_refl _) (Nat.le_refl _) hitems)
  exact readChoice_eq_ok_iff.mpr ⟨_, middle, between, choices, hfirst', hmore, rfl, hmix⟩

/-! ## One source in a group of its own -/

theorem readParenthesis_spared
    (halone : readExpression levels { flags := progress'.flags } source = .ok (tree, alone, []))
    (hblank : alone.flags.ignoreBlank = false)
    (hmoved' : Renumbers (progress'.groups + 1) source moved')
    (hmoved'' : Renumbers (progress''.groups + 1) source moved'')
    (hflags : progress''.flags = progress'.flags) (hle : progress''.groups ≤ progress'.groups)
    (hmet : Met ⟨progress''.groups + 1, progress''.referenced, tail'', isFirst⟩
      { flags := progress'.flags } progress' progress'')
    (hread' : readParenthesis (readExpression levels') progress' (moved' ++ ')' :: tail') =
      .ok (tree', after', rest')) :
    ∃ tree'' after'', readParenthesis (readExpression levels') progress''
        (moved'' ++ ')' :: tail'') = .ok (tree'', after'', tail'') ∧
      Met ⟨progress''.groups + 1, progress''.referenced, tail'', isFirst⟩ alone after' after'' := by
  let far : Site := ⟨progress'.groups + 1, progress'.referenced, tail', isFirst⟩
  let near : Site := ⟨progress''.groups + 1, progress''.referenced, tail'', isFirst⟩
  have hstart : Tandem far near ⟨{ flags := progress'.flags }, source⟩
      ⟨openGroup none progress', moved' ++ ')' :: tail'⟩
      ⟨openGroup none progress'', moved'' ++ ')' :: tail''⟩ :=
    ⟨⟨⟨hmet.less.names, hmet.less.numbers⟩,
      fun hfirst => ⟨(hmet.own hfirst).names, (hmet.own hfirst).numbers⟩⟩,
      Aligned.start hmoved' tail',
      ⟨⟨moved'', rfl, hmoved''⟩, hflags, (Nat.zero_add _).symm, rfl, nofun⟩⟩
  rw [readParenthesis_eq] at hread' ⊢
  obtain ⟨skipped', hskip', hread'⟩ := ok_of_bind_eq_ok hread'
  obtain ⟨skipped, hskip, hmark⟩ := head?_ne_mark halone
  rcases hstart.skip hskip with ⟨hlost, hnil⟩ | ⟨again', skipped'', hagain', hskip'', htandem⟩
  · simp only at hnil
    subst hnil
    have hgone := (readExpression_lost hlost hskip halone).1
    rw [hblank] at hgone
    cases hgone
  cases hskip'.symm.trans hagain'
  have hopening : ∀ {site : Site} {place : Place},
      Aligned site.offset site.base site.tail ⟨{ flags := progress'.flags }, skipped⟩ place →
      opening place.source = (.plain, place.source) := by
    intro site place haligned
    have hplain : place.source.head? ≠ some '?' := by
      rwa [Ne, haligned.head?_eq_some_iff (by decide)]
    rw [opening, if_neg hplain]
  rw [hopening htandem.far] at hread'
  have hskipped : skip progress'' (moved'' ++ ')' :: tail'') = .ok skipped'' := hskip''
  obtain ⟨⟨body', last', final'⟩, hbody', hpure'⟩ := ok_of_bind_eq_ok hread'
  cases hpure'
  obtain ⟨⟨inner', between', middle'⟩, hinner', hbody'⟩ := ok_of_bind_eq_ok hbody'
  obtain ⟨⟨⟨⟩, _, _⟩, hclose', hpure'⟩ := ok_of_bind_eq_ok hbody'
  cases hpure'
  obtain ⟨rfl, -⟩ := readClose_eq_ok hclose'
  have halone' := readExpression_skipped hskip halone
  have heases : Eases far near (readExpression levels) (readExpression levels')
      (readExpression levels') := readExpression_eases (Nat.succ_le_succ hle) levels levels'
  rcases heases.comes htandem halone' hinner' with ⟨hlost, -⟩ |
    ⟨inner'', between'', rest'', hinner'', hmet''⟩
  · rw [hblank] at hlost
    cases hlost
  rcases heases.mirrors'.mirror htandem.near (.inl rfl) halone' hinner'' with ⟨hlost, -⟩ |
    ⟨-, hmirror⟩
  · rw [hblank] at hlost
    cases hlost
  obtain ⟨inside, hinside, hend⟩ := hmirror.aligned.source
  cases hend
  obtain rfl : rest'' = ')' :: tail'' := hinside
  have hclosed : skip between'' (')' :: tail'') = .ok (')' :: tail'') := skipIgnored_close ..
  have hclose'' : readClose between'' (')' :: tail'') = .ok ((), between'', tail'') :=
    bind_eq_of_ok hclosed
  have hbody'' : readBody (readExpression levels') (openGroup none progress'') skipped'' =
      .ok (inner'', between'', tail'') :=
    (bind_eq_of_ok hinner'').trans (bind_eq_of_ok hclose'')
  refine ⟨.group (progress''.groups + 1) inner'', between'', (bind_eq_of_ok hskipped).trans ?_,
    hmet''⟩
  rw [hopening htandem.near]
  exact (readGroup_eq _ none _ _).trans (bind_eq_of_ok hbody'')

theorem readBranch_of_group {read : Reader Tree}
    (hskip : skip progress ('(' :: source) = .ok ('(' :: source))
    (hgroup : readParenthesis read progress source = .ok (tree, after, rest))
    (hrest : ∀ c, rest.head? = some c → c = '|') (hless : rest.length ≤ source.length) :
    readBranch (some read) progress ('(' :: source) = .ok (tree, after, rest) := by
  obtain ⟨hstop, hrepeat, hitems⟩ := readPiece_stops hrest after
  have hatom : readAtom (some read) progress ('(' :: source) = .ok (tree, after, rest) := by
    rw [readAtom_eq]
    exact (bind_eq_of_ok hskip).trans hgroup
  have hpiece : readPiece (some read) progress ('(' :: source) = .ok (tree, after, rest) := by
    rw [readPiece_eq]
    exact (bind_eq_of_ok hatom).trans ((bind_eq_of_ok hstop).trans (hrepeat tree))
  have hdiffer : rest.length ≠ ('(' :: source).length := by
    rw [List.length_cons]
    omega
  refine (bind_eq_of_ok
    (readItems_of_piece (List.cons_ne_nil _ _) hpiece hdiffer (hitems _ _))).trans ?_
  simp only [ofItems_consItem]
  rfl

theorem readBranch_spared (isFirst : Bool) (progress'' : Progress) (tail'' : List Char)
    (halone : readExpression levels { flags := progress'.flags } source = .ok (tree, alone, []))
    (hblank : alone.flags.ignoreBlank = false)
    (hmoved' : Renumbers (progress'.groups + 1) source moved')
    (hmoved'' : Renumbers (progress''.groups + 1) source moved'')
    (hflags : progress''.flags = progress'.flags) (hle : progress''.groups ≤ progress'.groups)
    (hmet : Met ⟨progress''.groups + 1, progress''.referenced, tail'', isFirst⟩
      { flags := progress'.flags } progress' progress'')
    (htail' : ∀ c, tail'.head? = some c → c = '|') (htail'' : ∀ c, tail''.head? = some c → c = '|')
    (hread' : readBranch (some (readExpression levels')) progress'
      ('(' :: (moved' ++ ')' :: tail')) = .ok (tree', after', rest')) :
    ∃ tree'' after'', readBranch (some (readExpression levels')) progress''
        ('(' :: (moved'' ++ ')' :: tail'')) = .ok (tree'', after'', tail'') ∧
      Met ⟨progress''.groups + 1, progress''.referenced, tail'', isFirst⟩ alone after' after'' := by
  obtain ⟨inner', last', final', hparen', hends⟩ :=
    group_of_readBranch (skip_wrapped halone hmoved' tail') hread'
  obtain ⟨rfl, -⟩ := readParenthesis_wrapped halone hblank hmoved' hparen'
  obtain ⟨rfl, rfl, rfl⟩ := hends htail' (by simp only [List.length_append, List.length_cons]; omega)
  obtain ⟨tree'', after'', hparen'', hend⟩ :=
    readParenthesis_spared halone hblank hmoved' hmoved'' hflags hle hmet hparen'
  rw [← hflags] at halone
  exact ⟨tree'', after'', readBranch_of_group (skip_wrapped halone hmoved'' tail'') hparen'' htail''
    (by simp only [List.length_append, List.length_cons]; omega), hend⟩

/-! ## The last ones of joined sources -/

/-- A source that reads on its own. It is clear, its groups are counted right, and it leaves the
flags in force as they were. -/
structure ReadsAlone (flags : Flags) (source : String) (tree : Tree) (after : Progress) : Prop where
  clear : Pattern.IsClear source.toList
  read : readExpression maxLevels { flags := flags } source.toList = .ok (tree, after, [])
  count : Pattern.countGroups source = after.groups
  flags : after.flags = flags

variable {flags : Flags} {name : String} {names before : List String}

/-- Behind fewer groups and with less that has been met before, sources are read as well. -/
theorem readMore_spared (hblank : flags.ignoreBlank = false)
    (hsources : ∀ source ∈ names, ∃ tree alone, ReadsAlone flags source tree alone)
    (hflags' : progress'.flags = flags) (hflags'' : progress''.flags = flags)
    (hle : progress''.groups ≤ progress'.groups) (hless : KnowsLess progress'' progress')
    {choices' : List Tree} (hfuel' : (barred progress'.groups names).length ≤ fuel')
    (hread' : readMore (some (readExpression levels)) fuel' progress'
      (barred progress'.groups names) = .ok (choices', after', rest')) :
    ∃ choices'' after'', ∀ fuel'', (barred progress''.groups names).length ≤ fuel'' →
      readMore (some (readExpression levels)) fuel'' progress'' (barred progress''.groups names) =
        .ok (choices'', after'', []) := by
  induction names generalizing progress' progress'' fuel' choices' with
  | nil => exact ⟨[], progress'', fun fuel'' _ => readMore_nil _ fuel'' progress''⟩
  | cons name names ih =>
    obtain ⟨⟨tree, alone, halone⟩, hothers⟩ := List.forall_mem_cons.mp hsources
    have hread := halone.read
    rw [← hflags'] at hread
    have hblank' : alone.flags.ignoreBlank = false := by rw [halone.flags, hblank]
    obtain ⟨fuel', choice', middle', others', hchoice', hwraps', hfuel', hothers', rfl⟩ :=
      readMore_barred_cons halone.clear hread halone.count hblank' hfuel' hread'
    obtain ⟨choice'', middle'', hchoice'', hmet⟩ :=
      readBranch_spared false progress''
        (barred (progress''.groups + 1 + Pattern.countGroups name) names) hread hblank'
        (.of_isClear halone.clear) (.of_isClear halone.clear) (hflags''.trans hflags'.symm) hle
        ⟨hless, nofun⟩ (fun c hhead => head?_barred hhead) (fun c hhead => head?_barred hhead)
        hchoice'
    rw [hflags', ← hflags''] at hread
    obtain ⟨hwraps'', hrest''⟩ :=
      readBranch_barred halone.clear hread halone.count hblank' hchoice''
    have hgroups' := hwraps'.groups
    have hgroups'' := hwraps''.groups
    obtain ⟨others'', after'', hothers''⟩ := ih hothers (hwraps'.flags.trans halone.flags)
      (hwraps''.flags.trans halone.flags) (by omega) hmet.less hfuel' hothers'
    refine ⟨choice'' :: others'', after'', fun fuel'' hfuel'' => ?_⟩
    rw [barred_cons] at hfuel'' ⊢
    simp only [List.length_cons, List.length_append] at hfuel''
    obtain ⟨fuel'', rfl⟩ := Nat.exists_eq_succ_of_ne_zero (by omega : fuel'' ≠ 0)
    rw [← hrest''] at hothers''
    exact readMore_of_branch (readPiece_end (by decide) none progress'' _).1 hchoice''
      (hothers'' fuel'' (by omega))

/-- Among joined sources, the last ones have been read behind the groups of the first ones. -/
theorem exists_readMore_append (hblank : flags.ignoreBlank = false)
    (hbefore : ∀ source ∈ before, ∃ tree alone, ReadsAlone flags source tree alone)
    (hflags : progress.flags = flags) {choices : List Tree}
    (hfuel : (barred progress.groups (before ++ names)).length ≤ fuel)
    (hread : readMore (some (readExpression levels)) fuel progress
      (barred progress.groups (before ++ names)) = .ok (choices, after, rest)) :
    ∃ progress' fuel' choices', progress'.flags = flags ∧
      (barred progress'.groups names).length ≤ fuel' ∧
      readMore (some (readExpression levels)) fuel' progress' (barred progress'.groups names) =
        .ok (choices', after, rest) := by
  induction before generalizing progress fuel choices with
  | nil => exact ⟨progress, fuel, choices, hflags, hfuel, hread⟩
  | cons source before ih =>
    obtain ⟨⟨tree, alone, halone⟩, hothers⟩ := List.forall_mem_cons.mp hbefore
    have hsource := halone.read
    rw [← hflags] at hsource
    obtain ⟨fuel', choice, middle, others, -, hwraps, hfuel', hmore, rfl⟩ :=
      readMore_barred_cons halone.clear hsource halone.count (by rw [halone.flags, hblank]) hfuel
        hread
    exact ih hothers (hwraps.flags.trans halone.flags) hfuel' hmore

/-- Sources that have been read behind others are read without those. -/
theorem read_joinGroups_of_readMore (hblank : flags.ignoreBlank = false)
    (hsources : ∀ source ∈ name :: names, ∃ tree alone, ReadsAlone flags source tree alone)
    (hsingle : names = [] → ∀ tree alone, ReadsAlone flags name tree alone →
      mixesReferences alone = false)
    (hflags : progress'.flags = flags) {choices' : List Tree}
    (hfuel : (barred progress'.groups (name :: names)).length ≤ fuel')
    (hread : readMore (innerReader maxLevels) fuel' progress'
      (barred progress'.groups (name :: names)) = .ok (choices', after', rest')) :
    ∃ joined, read flags (Pattern.joinGroups "|" (name :: names)) = .ok joined := by
  obtain ⟨⟨tree, alone, halone⟩, hothers⟩ := List.forall_mem_cons.mp hsources
  have hblank' : alone.flags.ignoreBlank = false := by rw [halone.flags, hblank]
  have hsource := halone.read
  rw [← hflags] at hsource
  obtain ⟨fuel', choice', middle', others', hchoice', hwraps', hfuel', hothers', rfl⟩ :=
    readMore_barred_cons halone.clear hsource halone.count hblank' hfuel hread
  obtain ⟨choice, middle, hchoice, hmet⟩ :=
    readBranch_spared true { flags := flags } (barred (1 + Pattern.countGroups name) names) hsource
      hblank'
      (.of_isClear halone.clear) (.of_isClear halone.clear) hflags.symm (Nat.zero_le _)
      ⟨⟨nofun, nofun⟩, fun _ => ⟨nofun, nofun⟩⟩ (fun c hhead => head?_barred hhead)
      (fun c hhead => head?_barred hhead) hchoice'
  have hfresh : readExpression maxLevels { flags := ({ flags := flags } : Progress).flags }
      name.toList = .ok (tree, alone, []) := halone.read
  obtain ⟨hwraps, hrest⟩ := readBranch_barred halone.clear hfresh halone.count hblank' hchoice
  have hgroups := hwraps.groups
  have hgroups' := hwraps'.groups
  obtain ⟨choices, after, hmore⟩ := readMore_spared hblank hothers
    (hwraps'.flags.trans halone.flags) (hwraps.flags.trans halone.flags)
    (by simp only at hgroups; omega) hmet.less hfuel' hothers'
  have hmore' := hmore _ (Nat.le_refl _)
  have hmixes : choices = [] → mixesReferences after = false := by
    intro hnil
    cases names with
    | nil =>
      cases (readMore_nil _ _ middle).symm.trans hmore'
      exact (hmet.own rfl).mixes (hsingle rfl tree alone halone)
    | cons other names =>
      obtain ⟨⟨otherTree, otherAlone, hother⟩, -⟩ := List.forall_mem_cons.mp hothers
      have hread := hother.read
      rw [← hwraps.flags.trans halone.flags] at hread
      obtain ⟨_, _, _, _, -, -, -, -, rfl⟩ := readMore_barred_cons hother.clear hread hother.count
        (by rw [hother.flags, hblank]) (Nat.le_refl _) hmore'
      cases hnil
  rw [← hrest] at hmore'
  have hexpression : readExpression maxLevels { flags := flags }
      (Pattern.joinGroups "|" (name :: names)).toList =
        .ok (ofChoices (choice :: choices), after, []) := by
    rw [readExpression_eq, joinGroups_cons]
    exact readChoice_eq_ok_iff.mpr ⟨choice, middle, _, choices, hchoice, hmore', rfl, hmixes⟩
  exact ⟨_, bind_eq_of_ok hexpression⟩

/-- If joined sources can be read, then so can the last ones of them. -/
theorem read_joinGroups_append (hblank : flags.ignoreBlank = false)
    (hsources : ∀ source ∈ before ++ name :: names, ∃ tree alone, ReadsAlone flags source tree alone)
    (hsingle : names = [] → ∀ tree alone, ReadsAlone flags name tree alone →
      mixesReferences alone = false)
    {joined : Source} (hread : read flags (Pattern.joinGroups "|" (before ++ name :: names)) =
      .ok joined) :
    ∃ joined', read flags (Pattern.joinGroups "|" (name :: names)) = .ok joined' := by
  cases before with
  | nil => exact ⟨joined, hread⟩
  | cons first before =>
    obtain ⟨⟨tree, alone, halone⟩, hothers⟩ := List.forall_mem_cons.mp hsources
    obtain ⟨hbefore, hlater⟩ := List.forall_mem_append.mp hothers
    obtain ⟨⟨whole, after, rest⟩, hexpression, -⟩ := ok_of_bind_eq_ok hread
    rw [readExpression_eq] at hexpression
    obtain ⟨choice, middle, between, choices, hchoice, hmore, -⟩ := readChoice_eq_ok hexpression
    rw [List.cons_append, joinGroups_cons] at hchoice
    have hfresh : readExpression maxLevels { flags := ({ flags := flags } : Progress).flags }
        first.toList = .ok (tree, alone, []) := halone.read
    obtain ⟨hwraps, rfl⟩ := readBranch_barred halone.clear hfresh halone.count
      (by rw [halone.flags, hblank]) hchoice
    obtain ⟨progress', fuel', choices', hflags', hfuel', hmore'⟩ := exists_readMore_append hblank
      hbefore (hwraps.flags.trans halone.flags) (Nat.le_refl _) hmore
    exact read_joinGroups_of_readMore hblank hlater hsingle hflags' hfuel' hmore'

/-! ## Programs for the last ones -/

/-- A tree has a program, where the groups with the given numbers are referenced. -/
def Plans (referenced : List Nat) (tree : Tree) : Prop :=
  ∃ program, tree.plan referenced false = .ok program

variable {referenced referenced' : List Nat} {offset groups : Nat} {trees : List Tree}
  {reads later : List Source}

theorem exists_map_ok_iff {ε α β : Type} {x : Except ε α} {f : α → β} :
    (∃ b, x.map f = .ok b) ↔ ∃ a, x = .ok a := by
  cases x with
  | error error =>
    constructor
    · rintro ⟨b, h⟩
      cases h
    · rintro ⟨a, h⟩
      cases h
  | ok a => exact ⟨fun _ => ⟨a, rfl⟩, fun _ => ⟨f a, rfl⟩⟩

theorem exists_bind_pure_ok_iff {ε α β : Type} {x : Except ε α} {f : α → β} :
    (∃ b, (x >>= fun a => pure (f a)) = .ok b) ↔ ∃ a, x = .ok a := by
  constructor
  · rintro ⟨b, h⟩
    obtain ⟨a, ha, -⟩ := ok_of_bind_eq_ok h
    exact ⟨a, ha⟩
  · rintro ⟨a, rfl⟩
    exact ⟨f a, rfl⟩

theorem settlePart_of_settle {body : Program} (h : tree.settle = .ok body) :
    ∃ parts, settlePart [tree] = .ok parts := by
  have hall : settleAll [tree] = .ok [body] := by
    rw [settleAll, settleAll]
    exact (bind_eq_of_ok h).trans rfl
  unfold settlePart
  simp only [bind_eq_of_ok hall]
  split
  · exact ⟨_, rfl⟩
  · exact ⟨_, rfl⟩

theorem plans_iff_of_not_isHard (heasy : tree.isHard referenced = false) :
    Plans referenced tree ↔ ∃ body, tree.settle = .ok body := by
  constructor
  · rintro ⟨program, hprogram⟩
    obtain ⟨-, -, body, hbody, -⟩ := plan_of_not_isHard heasy hprogram
    exact ⟨body, hbody⟩
  · rintro ⟨body, hbody⟩
    obtain ⟨parts, hparts⟩ := settlePart_of_settle hbody
    unfold Plans plan
    rw [heasy]
    exact ⟨_, bind_eq_of_ok hparts⟩

/-- A tree in a group of its own that nothing refers to has a program if the tree has one. -/
theorem plans_group_iff
    (hsame : SameReferences offset referenced referenced' tree.groupNumbers)
    (hunnamed : offset ∉ referenced') :
    Plans referenced' (.group offset (tree.shift offset)) ↔ Plans referenced tree := by
  have hhard := isHard_group hsame hunnamed
  cases hcase : tree.isHard referenced with
  | false =>
    rw [hcase] at hhard
    rw [plans_iff_of_not_isHard hcase, plans_iff_of_not_isHard hhard, settle, settle_shift]
    exact exists_bind_pure_ok_iff.trans exists_map_ok_iff
  | true =>
    unfold Plans
    rw [plan, hhard, hcase, plan_shift false tree hsame]
    exact exists_bind_pure_ok_iff.trans exists_map_ok_iff

theorem settleAll_isOk_iff :
    (∃ programs, settleAll trees = .ok programs) ↔
      ∀ tree ∈ trees, ∃ body, tree.settle = .ok body := by
  induction trees with
  | nil => exact ⟨fun _ => List.forall_mem_nil _, fun _ => ⟨[], rfl⟩⟩
  | cons tree trees ih =>
    rw [List.forall_mem_cons, ← ih, settleAll]
    constructor
    · rintro ⟨programs, h⟩
      obtain ⟨body, hbody, h⟩ := ok_of_bind_eq_ok h
      obtain ⟨others, hothers, -⟩ := ok_of_bind_eq_ok h
      exact ⟨⟨body, hbody⟩, others, hothers⟩
    · rintro ⟨⟨body, hbody⟩, others, hothers⟩
      exact ⟨_, (bind_eq_of_ok hbody).trans (bind_eq_of_ok hothers)⟩

theorem planAll_isOk_iff :
    (∃ programs, allOk (planAll referenced false trees) = .ok programs) ↔
      ∀ tree ∈ trees, Plans referenced tree := by
  induction trees with
  | nil => exact ⟨fun _ => List.forall_mem_nil _, fun _ => ⟨[], rfl⟩⟩
  | cons tree trees ih =>
    rw [List.forall_mem_cons, ← ih, planAll, allOk]
    constructor
    · rintro ⟨programs, h⟩
      obtain ⟨body, hbody, h⟩ := ok_of_bind_eq_ok h
      obtain ⟨others, hothers, -⟩ := ok_of_bind_eq_ok h
      exact ⟨⟨body, hbody⟩, others, hothers⟩
    · rintro ⟨⟨body, hbody⟩, others, hothers⟩
      exact ⟨_, (bind_eq_of_ok hbody).trans (bind_eq_of_ok hothers)⟩

theorem anyHard_eq_false_iff :
    anyHard referenced trees = false ↔ ∀ tree ∈ trees, tree.isHard referenced = false := by
  induction trees with
  | nil => exact ⟨fun _ => List.forall_mem_nil _, fun _ => rfl⟩
  | cons tree trees ih => rw [List.forall_mem_cons, ← ih, anyHard, Bool.or_eq_false_iff]

/-- An alternation has a program if each choice has one. -/
theorem plans_alt_iff : Plans referenced (.alt trees) ↔ ∀ tree ∈ trees, Plans referenced tree := by
  cases hhard : (alt trees).isHard referenced with
  | false =>
    have hnone := anyHard_eq_false_iff.mp hhard
    rw [plans_iff_of_not_isHard hhard, settle]
    have hall : (∀ tree ∈ trees, Plans referenced tree) ↔
        ∀ tree ∈ trees, ∃ body, tree.settle = .ok body :=
      forall₂_congr fun tree htree => plans_iff_of_not_isHard (hnone tree htree)
    rw [hall, ← settleAll_isOk_iff]
    exact exists_bind_pure_ok_iff
  | true =>
    rw [← planAll_isOk_iff, Plans, plan, hhard]
    exact exists_bind_pure_ok_iff

theorem plans_ofChoices_iff (hsome : trees ≠ []) :
    Plans referenced (ofChoices trees) ↔ ∀ tree ∈ trees, Plans referenced tree := by
  unfold ofChoices
  split
  · rw [List.forall_mem_singleton]
  · exact plans_alt_iff

theorem plans_wrap_iff (hclosed : ∀ read ∈ reads, read.Closed)
    (hcovers : Covers referenced groups reads) :
    (∀ tree ∈ wrap groups reads, Plans referenced tree) ↔
      ∀ read ∈ reads, Plans read.referenced read.tree := by
  induction reads generalizing groups with
  | nil => exact ⟨fun _ => List.forall_mem_nil _, fun _ => List.forall_mem_nil _⟩
  | cons read reads ih =>
    obtain ⟨-, hclosed'⟩ := List.forall_mem_cons.mp hclosed
    rw [wrap, List.forall_mem_cons, List.forall_mem_cons, ih hclosed' (hcovers.tail hclosed),
      plans_group_iff (hcovers.sameReferences hclosed) (hcovers.not_mem hclosed)]

/-- Joined sources have a program if each of them has one. -/
theorem plans_joined_iff (hsome : reads ≠ []) (hclosed : ∀ read ∈ reads, read.Closed) :
    Plans (wrapReferences 0 reads) (ofChoices (wrap 0 reads)) ↔
      ∀ read ∈ reads, Plans read.referenced read.tree := by
  have hwrap : wrap 0 reads ≠ [] := by
    cases reads with
    | nil => exact absurd rfl hsome
    | cons read reads => exact List.cons_ne_nil _ _
  rw [plans_ofChoices_iff hwrap, plans_wrap_iff hclosed fun _ _ => Iff.rfl]

/-! ## Joined sources and the last ones of them -/

/-- Sources that read on their own read in turn, in front of any others. -/
theorem exists_readInTurn_append (hblank : flags.ignoreBlank = false)
    (hsources : ∀ source ∈ before, ∃ tree alone, ReadsAlone flags source tree alone) :
    ∃ reads, ∀ names later, ReadInTurn flags names later →
      ReadInTurn flags (before ++ names) (reads ++ later) := by
  induction before with
  | nil => exact ⟨[], fun _ _ h => h⟩
  | cons source before ih =>
    obtain ⟨⟨tree, alone, halone⟩, hothers⟩ := List.forall_mem_cons.mp hsources
    obtain ⟨reads, hreads⟩ := ih hothers
    refine ⟨⟨tree, alone.groups, alone.referenced⟩ :: reads, fun names later h => ?_⟩
    refine .cons halone.clear halone.read halone.count (by rw [halone.flags, hblank]) ?_
    rw [halone.flags]
    exact hreads names later h

/-- If joined sources have a program, then so have the last ones of them. -/
theorem plans_joinGroups_append (hblank : flags.ignoreBlank = false)
    (hsources : ∀ source ∈ before ++ name :: names, ∃ tree alone, ReadsAlone flags source tree alone)
    (hsingle : names = [] → ∀ tree alone, ReadsAlone flags name tree alone →
      mixesReferences alone = false)
    {joined : Source} (hread : read flags (Pattern.joinGroups "|" (before ++ name :: names)) =
      .ok joined) (hplans : Plans joined.referenced joined.tree) :
    ∃ joined', read flags (Pattern.joinGroups "|" (name :: names)) = .ok joined' ∧
      Plans joined'.referenced joined'.tree := by
  obtain ⟨joined', hread'⟩ := read_joinGroups_append hblank hsources hsingle hread
  obtain ⟨hbefore, hlater⟩ := List.forall_mem_append.mp hsources
  obtain ⟨reads, hreads⟩ := exists_readInTurn_append hblank hbefore
  obtain ⟨later, hlater⟩ := exists_readInTurn_append hblank hlater
  have hinTurn : ReadInTurn flags (name :: names) later := by
    have h := hlater [] [] .nil
    rwa [List.append_nil, List.append_nil] at h
  have hsome : later ≠ [] := by
    rintro rfl
    cases hinTurn
  obtain ⟨hclosed, rfl⟩ := read_joinGroups (hreads _ _ hinTurn)
    (List.append_ne_nil_of_right_ne_nil _ (List.cons_ne_nil _ _)) hread
  obtain ⟨hclosed', rfl⟩ := read_joinGroups hinTurn (List.cons_ne_nil _ _) hread'
  refine ⟨_, hread', (plans_joined_iff hsome hclosed').mpr fun read hmem => ?_⟩
  exact (plans_joined_iff (List.append_ne_nil_of_right_ne_nil _ hsome) hclosed).mp hplans read
    (List.mem_append_right _ hmem)

end Highlighter.Regex.Tree
