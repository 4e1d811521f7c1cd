import Highlighter.Proofs.Regex.Piece
import Mathlib

/-!
# Expressions side by side

By recursion over the levels of parentheses, a source reads the same on its own and in a group of
its own after other groups, except that all its groups have higher numbers there.
-/

namespace Highlighter.Regex.Tree

variable {offset : Nat} {base : List Nat} {tail : List Char} {progress progress' : Progress}
  {source source' rest rest' : List Char} {inner inner' : Option (Reader Tree)}

/-! ## Lists of constructs -/

/-- A construct in front of others; an empty one is left out. -/
def consItem : Tree → List Tree → List Tree
  | .empty, items => items
  | item, items => item :: items

theorem shiftAll_consItem (item : Tree) (items : List Tree) :
    shiftAll offset (consItem item items) =
      consItem (item.shift offset) (shiftAll offset items) := by
  cases item <;> rfl

theorem groupNumbersOf_consItem (item : Tree) (items : List Tree) :
    groupNumbersOf (consItem item items) = item.groupNumbers ++ groupNumbersOf items := by
  cases item <;> rfl

theorem readItems_nil (inner : Option (Reader Tree)) (fuel : Nat) (progress : Progress) :
    readItems inner fuel progress [] = .ok ([], progress, []) := by
  cases fuel <;> rfl

theorem readItems_eq_ok {fuel : Nat} {items : List Tree} {after : Progress} (hsource : source ≠ [])
    (h : readItems inner (fuel + 1) progress source = .ok (items, after, rest)) :
    ∃ item middle inside, readPiece inner progress source = .ok (item, middle, inside) ∧
      (inside.length = source.length ∧ items = [] ∧ after = progress ∧ rest = source ∨
        inside.length ≠ source.length ∧ ∃ others,
          readItems inner fuel middle inside = .ok (others, after, rest) ∧
          items = consItem item others) := by
  have hsome : source.isEmpty = false := List.isEmpty_eq_false_iff.mpr hsource
  rw [readItems, hsome, if_neg Bool.false_ne_true] at h
  obtain ⟨⟨item, middle, inside⟩, hpiece, h⟩ := ok_of_bind_eq_ok h
  refine ⟨item, middle, inside, hpiece, ?_⟩
  simp only [beq_iff_eq] at h
  split at h
  · next hlength =>
    cases h
    exact .inl ⟨hlength, rfl, rfl, rfl⟩
  · next hlength =>
    obtain ⟨⟨others, last, final⟩, hothers, hpure⟩ := ok_of_bind_eq_ok h
    refine .inr ⟨hlength, others, ?_⟩
    cases item <;> cases hpure <;> exact ⟨hothers, rfl⟩

/-! ## Readers that are stranded -/

/-- Where a reader is that goes on after it has been stranded. -/
inductive Adrift (progress : Progress) : List Char → Prop where
  | lost (hblank : progress.flags.ignoreBlank = true) : Adrift progress []
  | step {c : Char} {source : List Char} (hc : isOrdinary c = true)
      (hstranded : Stranded progress source) : Adrift progress (c :: source)

theorem readAtom_ordinary {c : Char} (hc : isOrdinary c = true) :
    readAtom inner progress (c :: source) =
      .ok (.char ((CharSet.single c).foldIf progress.flags.ignoreCase), progress, source) := by
  have hends : c ∉ ['+', '*', '?', '|', ')'] := by
    intro hmem
    have hall : ∀ d ∈ ['+', '*', '?', '|', ')'], isOrdinary d = false := by
      simp [isOrdinary]
    exact ne_of_isOrdinary hc (hall c hmem) rfl
  rw [readAtom_eq, skip_ordinary hc]
  change readFirst inner progress (c :: source) = _
  rw [readFirst, if_neg (ne_of_isOrdinary hc (by decide)), if_neg (ne_of_isOrdinary hc (by decide)),
    if_neg (ne_of_isOrdinary hc (by decide)), single?, if_neg (ne_of_isOrdinary hc (by decide)),
    if_neg (ne_of_isOrdinary hc (by decide)), if_neg (ne_of_isOrdinary hc (by decide)),
    if_neg hends]

/-- No quantifier starts with a digit or a comma. -/
theorem readRepeated_ordinary {c : Char} (hc : c.isDigit = true ∨ c = ',') (atom : Tree) :
    readRepeated progress atom (c :: source) = .ok (atom, progress, c :: source) := by
  have hordinary := isOrdinary_of hc
  have hbrace : c ≠ '\x7b' := by
    rintro rfl
    revert hc
    decide
  have hnone : readQuantifier? progress (c :: source) = none := by
    rw [readQuantifier?]
    · exact fun _ heq => ne_of_isOrdinary hordinary (by decide) (List.cons.inj heq).1
    · exact fun _ heq => ne_of_isOrdinary hordinary (by decide) (List.cons.inj heq).1
    · exact fun _ heq => ne_of_isOrdinary hordinary (by decide) (List.cons.inj heq).1
    · exact fun _ heq => hbrace (List.cons.inj heq).1
  rw [readRepeated, hnone]

/-- Behind a brace where it has been stranded, a reader takes one ordinary character after the
other. -/
theorem readPiece_adrift {c : Char} (hc : isOrdinary c = true) (hstranded : Stranded progress source)
    {tree : Tree} {after : Progress}
    (hread : readPiece inner progress (c :: source) = .ok (tree, after, rest)) :
    after = progress ∧ Adrift progress rest ∧ rest.length ≤ source.length := by
  rw [readPiece_eq] at hread
  obtain ⟨⟨atom, middle, inside⟩, hatom, hread⟩ := ok_of_bind_eq_ok hread
  cases (readAtom_ordinary hc).symm.trans hatom
  obtain ⟨final, hskip, hread⟩ := ok_of_bind_eq_ok hread
  have hlength := (skip_suffix hskip).length_le
  cases hstranded with
  | unclosed h =>
    rw [h] at hskip
    cases hskip
  | lost hblank h =>
    cases h.symm.trans hskip
    cases hread
    exact ⟨rfl, .lost hblank, hlength⟩
  | step h hd hinside =>
    cases h.symm.trans hskip
    rw [readRepeated_ordinary hd] at hread
    cases hread
    exact ⟨rfl, .step (isOrdinary_of hd) hinside, hlength⟩

/-- A reader that is stranded gets lost. -/
theorem readItems_adrift {fuel : Nat} {items : List Tree} {after : Progress}
    (h : Adrift progress source) (hfuel : source.length ≤ fuel)
    (hread : readItems inner fuel progress source = .ok (items, after, rest)) :
    Place.Lost ⟨after, rest⟩ := by
  induction fuel generalizing source items with
  | zero =>
    cases List.length_eq_zero_iff.mp (Nat.le_zero.mp hfuel)
    cases h with
    | lost hblank =>
      cases hread
      exact ⟨hblank, rfl⟩
  | succ fuel ih =>
    cases h with
    | lost hblank =>
      cases hread
      exact ⟨hblank, rfl⟩
    | @step c source hc hstranded =>
      simp only [List.length_cons] at hfuel
      obtain ⟨item, middle, inside, hpiece, hends⟩ := readItems_eq_ok (List.cons_ne_nil _ _) hread
      obtain ⟨rfl, hadrift, hlength⟩ := readPiece_adrift hc hstranded hpiece
      rcases hends with ⟨hsame, -⟩ | ⟨-, others, hothers, -⟩
      · simp only [List.length_cons] at hsame
        omega
      · exact ih hadrift (by omega) hothers

/-! ## Branches -/

/-- Nothing is read in front of a bar or a closing parenthesis. -/
theorem readPiece_end {c : Char} (hc : c ∈ ['|', ')']) (inner : Option (Reader Tree))
    (progress : Progress) (rest : List Char) :
    skip progress (c :: rest) = .ok (c :: rest) ∧
      readPiece inner progress (c :: rest) = .ok (.empty, progress, c :: rest) := by
  have hskip : skip progress (c :: rest) = .ok (c :: rest) := by
    have hplain : ∀ d ∈ ['|', ')'], d ≠ '#' ∧ d ≠ '(' ∧
        (d == ' ' || d == '\r' || d == '\n' || d == '\t') = false := by simp
    obtain ⟨hline, hparen, hblank⟩ := hplain c hc
    exact skipIgnored_id hline (fun heq => absurd heq hparen) hblank _ _
  have hread : readFirst inner progress (c :: rest) = .ok (.empty, progress, c :: rest) ∧
      readRepeated progress .empty (c :: rest) = .ok (.empty, progress, c :: rest) := by
    simp only [List.mem_cons, List.not_mem_nil, or_false] at hc
    rcases hc with rfl | rfl <;> exact ⟨rfl, rfl⟩
  refine ⟨hskip, ?_⟩
  rw [readPiece_eq, readAtom_eq, hskip]
  change (readFirst inner progress (c :: rest) >>= _) = _
  rw [hread.1]
  change (skip progress (c :: rest) >>= _) = _
  rw [hskip]
  exact hread.2

theorem readItems_end {c : Char} (hc : c ∈ ['|', ')']) (inner : Option (Reader Tree)) (fuel : Nat)
    (progress : Progress) (rest : List Char) :
    readItems inner fuel progress (c :: rest) = .ok ([], progress, c :: rest) := by
  cases fuel with
  | zero => rfl
  | succ fuel =>
    rw [readItems, (readPiece_end hc inner progress rest).2]
    simp [bind, Except.bind, pure, Except.pure]

theorem readItems_mirror_nil {fuel fuel' : Nat}
    (h : Aligned offset base tail ⟨progress, []⟩ ⟨progress', source'⟩) {items items' : List Tree}
    {after after' : Progress}
    (hread : readItems inner fuel progress [] = .ok (items, after, rest))
    (hread' : readItems inner' fuel' progress' source' = .ok (items', after', rest')) :
    items' = shiftAll offset items ∧ Mirror offset base tail (groupNumbersOf items)
      ⟨progress, []⟩ ⟨progress', source'⟩ ⟨after, rest⟩ ⟨after', rest'⟩ := by
  obtain ⟨last, rfl⟩ := List.head?_eq_some_iff.mp h.head?
  cases (readItems_nil inner fuel progress).symm.trans hread
  cases (readItems_end (by decide) inner' fuel' progress' last).symm.trans hread'
  exact ⟨rfl, .of_passes h (.refl _ _)⟩

theorem readItems_mirror
    (hinner : ∀ read ∈ inner, ∀ read' ∈ inner', Mirrors offset base tail read read')
    {fuel fuel' : Nat} (h : Aligned offset base tail ⟨progress, source⟩ ⟨progress', source'⟩)
    (hfuel : source.length ≤ fuel) (hfuel' : source'.length ≤ fuel') {items items' : List Tree}
    {after after' : Progress}
    (hread : readItems inner fuel progress source = .ok (items, after, rest))
    (hread' : readItems inner' fuel' progress' source' = .ok (items', after', rest')) :
    Place.Lost ⟨after, rest⟩ ∨ items' = shiftAll offset items ∧
      Mirror offset base tail (groupNumbersOf items) ⟨progress, source⟩ ⟨progress', source'⟩
        ⟨after, rest⟩ ⟨after', rest'⟩ := by
  induction fuel generalizing progress progress' source source' fuel' items items' with
  | zero =>
    cases List.length_eq_zero_iff.mp (Nat.le_zero.mp hfuel)
    exact .inr (readItems_mirror_nil h hread hread')
  | succ fuel ih =>
    by_cases hsource : source = []
    · subst hsource
      exact .inr (readItems_mirror_nil h hread hread')
    · have hsource' : source' ≠ [] := by
        rintro rfl
        have hhead := h.head?
        cases hhead
      have hpositive' := List.length_pos_iff.mpr hsource'
      obtain ⟨fuel', rfl⟩ := Nat.exists_eq_succ_of_ne_zero (by omega : fuel' ≠ 0)
      obtain ⟨item, middle, inside, hpiece, hends⟩ := readItems_eq_ok hsource hread
      obtain ⟨item', middle', inside', hpiece', hends'⟩ := readItems_eq_ok hsource' hread'
      have hpositive := List.length_pos_iff.mpr hsource
      cases readPiece_mirror hinner h hpiece hpiece' with
      | lost hlost =>
        obtain ⟨hblank, hnil⟩ := hlost
        simp only at hblank hnil
        subst hnil
        rcases hends with ⟨hsame, -⟩ | ⟨-, others, hothers, -⟩
        · rw [← hsame] at hpositive
          cases hpositive
        · cases (readItems_nil inner fuel middle).symm.trans hothers
          exact .inl ⟨hblank, rfl⟩
      | @stranded brace hbrace hstranded hlt =>
        simp only at hbrace hlt hstranded
        subst hbrace
        rcases hends with ⟨hsame, -⟩ | ⟨-, others, hothers, -⟩
        · omega
        · exact .inl (readItems_adrift (.step rfl hstranded) (by omega) hothers)
      | mirror hshift hmirror _ =>
        have hlength := hmirror.passes.length_eq_iff
        have hle := hmirror.passes.le
        simp only at hlength hle
        rcases hends with ⟨hsame, rfl, rfl, rfl⟩ | ⟨hless, others, hothers, rfl⟩
        · rcases hends' with ⟨-, rfl, rfl, rfl⟩ | ⟨hless', -⟩
          · exact .inr ⟨rfl, .of_passes h (.refl _ _)⟩
          · exact absurd (hlength.mp hsame) hless'
        · rcases hends' with ⟨hsame', -⟩ | ⟨-, others', hothers', rfl⟩
          · exact absurd (hlength.mpr hsame') hless
          · refine (ih hmirror.aligned (by omega) (by omega) hothers hothers').imp_right ?_
            rintro ⟨rfl, hmore⟩
            rw [shiftAll_consItem, groupNumbersOf_consItem, hshift]
            exact ⟨rfl, hmirror.trans hmore⟩

theorem readPiece_skip {skipped : List Char} (hskip : skip progress source = .ok skipped)
    (inner : Option (Reader Tree)) :
    readPiece inner progress source = readPiece inner progress skipped := by
  rw [readPiece_eq, readPiece_eq, readAtom_eq, readAtom_eq, hskip, skip_skip hskip]

theorem readPiece_nil (inner : Option (Reader Tree)) (progress : Progress) :
    readPiece inner progress [] = .ok (.empty, progress, []) := rfl

/-- The second reader may also start after what the flags ignore: the first one takes that part of
the source together with its first construct. -/
theorem readItems_mirror_skip
    (hinner : ∀ read ∈ inner, ∀ read' ∈ inner', Mirrors offset base tail read read')
    {fuel fuel' : Nat} {skipped skipped' : List Char}
    (h : Aligned offset base tail ⟨progress, skipped⟩ ⟨progress', skipped'⟩)
    (hskip : skip progress source = .ok skipped) (hless : skipped.length < source.length)
    (hfuel : source.length ≤ fuel) (hfuel' : skipped'.length ≤ fuel') {items items' : List Tree}
    {after after' : Progress}
    (hread : readItems inner fuel progress source = .ok (items, after, rest))
    (hread' : readItems inner' fuel' progress' skipped' = .ok (items', after', rest')) :
    Place.Lost ⟨after, rest⟩ ∨ items' = shiftAll offset items ∧
      Mirror offset base tail (groupNumbersOf items) ⟨progress, skipped⟩ ⟨progress', skipped'⟩
        ⟨after, rest⟩ ⟨after', rest'⟩ := by
  have hsource : source ≠ [] := List.length_pos_iff.mp (Nat.zero_lt_of_lt hless)
  have hskipped' : skipped' ≠ [] := by
    rintro rfl
    cases h.head?
  have hpositive := List.length_pos_iff.mpr hsource
  have hpositive' := List.length_pos_iff.mpr hskipped'
  obtain ⟨fuel, rfl⟩ := Nat.exists_eq_succ_of_ne_zero (by omega : fuel ≠ 0)
  obtain ⟨fuel', rfl⟩ := Nat.exists_eq_succ_of_ne_zero (by omega : fuel' ≠ 0)
  obtain ⟨item, middle, inside, hpiece, hends⟩ := readItems_eq_ok hsource hread
  obtain ⟨item', middle', inside', hpiece', hends'⟩ := readItems_eq_ok hskipped' hread'
  rw [readPiece_skip hskip] at hpiece
  cases readPiece_mirror hinner h hpiece hpiece' with
  | lost hlost =>
    obtain ⟨hblank, hnil⟩ := hlost
    simp only at hblank hnil
    subst hnil
    rcases hends with ⟨hsame, -⟩ | ⟨-, others, hothers, -⟩
    · rw [← hsame] at hpositive
      cases hpositive
    · cases (readItems_nil inner fuel middle).symm.trans hothers
      exact .inl ⟨hblank, rfl⟩
  | @stranded brace hbrace hstranded hlt =>
    simp only at hbrace hlt hstranded
    subst hbrace
    rcases hends with ⟨hsame, -⟩ | ⟨-, others, hothers, -⟩
    · omega
    · exact .inl (readItems_adrift (.step rfl hstranded) (by omega) hothers)
  | mirror hshift hmirror hempty =>
    have hlength := hmirror.passes.length_eq_iff
    have hle := hmirror.passes.le
    simp only at hlength hle
    rcases hends with ⟨hsame, -⟩ | ⟨-, others, hothers, rfl⟩
    · omega
    · rcases hends' with ⟨hsame', rfl, rfl, rfl⟩ | ⟨hless', others', hothers', rfl⟩
      · -- The first reader comes to the end of the branch once more.
        rcases hempty with hlt | ⟨rfl, rfl⟩
        · exact absurd (hlength.mpr hsame') (Nat.ne_of_lt hlt)
        · rcases hmirror.passes with ⟨rfl, -⟩ | ⟨-, hlt'⟩
          · exact readItems_mirror hinner h (by omega) hfuel' hothers hread'
          · exact absurd hsame' (Nat.ne_of_lt hlt')
      · refine (readItems_mirror hinner hmirror.aligned (by omega) (by omega) hothers
          hothers').imp_right ?_
        rintro ⟨rfl, hmore⟩
        rw [shiftAll_consItem, groupNumbersOf_consItem, hshift]
        exact ⟨rfl, hmirror.trans hmore⟩

theorem ofItems_shift (items : List Tree) :
    (ofItems items).shift offset = ofItems (shiftAll offset items) := by
  rcases items with _ | ⟨_, _ | _⟩ <;> rfl

theorem ofItems_groupNumbers (items : List Tree) :
    (ofItems items).groupNumbers = groupNumbersOf items := by
  rcases items with _ | ⟨_, _ | _⟩
  · rfl
  · exact (List.append_nil _).symm
  · rfl

theorem skip_of_readItems {fuel : Nat} {items : List Tree} {after : Progress}
    (hfuel : source.length ≤ fuel)
    (h : readItems inner fuel progress source = .ok (items, after, rest)) :
    ∃ skipped, skip progress source = .ok skipped := by
  by_cases hsource : source = []
  · subst hsource
    exact ⟨[], rfl⟩
  · have hpositive := List.length_pos_iff.mpr hsource
    obtain ⟨fuel, rfl⟩ := Nat.exists_eq_succ_of_ne_zero (by omega : fuel ≠ 0)
    obtain ⟨item, middle, inside, hpiece, -⟩ := readItems_eq_ok hsource h
    rw [readPiece_eq, readAtom_eq] at hpiece
    obtain ⟨atom, hatom, -⟩ := ok_of_bind_eq_ok hpiece
    obtain ⟨skipped, hskip, -⟩ := ok_of_bind_eq_ok hatom
    exact ⟨skipped, hskip⟩

theorem readItems_lost {fuel : Nat} {items : List Tree} {after : Progress}
    (hblank : progress.flags.ignoreBlank = true) (hskip : skip progress source = .ok [])
    (hfuel : source.length ≤ fuel)
    (h : readItems inner fuel progress source = .ok (items, after, rest)) :
    Place.Lost ⟨after, rest⟩ := by
  by_cases hsource : source = []
  · subst hsource
    cases (readItems_nil inner fuel progress).symm.trans h
    exact ⟨hblank, rfl⟩
  · have hpositive := List.length_pos_iff.mpr hsource
    obtain ⟨fuel, rfl⟩ := Nat.exists_eq_succ_of_ne_zero (by omega : fuel ≠ 0)
    obtain ⟨item, middle, inside, hpiece, hends⟩ := readItems_eq_ok hsource h
    rw [readPiece_skip hskip, readPiece_nil] at hpiece
    cases hpiece
    rcases hends with ⟨hsame, -⟩ | ⟨-, others, hothers, -⟩
    · rw [← hsame] at hpositive
      cases hpositive
    · cases (readItems_nil inner fuel progress).symm.trans hothers
      exact ⟨hblank, rfl⟩

theorem readBranch_mirror
    (hinner : ∀ read ∈ inner, ∀ read' ∈ inner', Mirrors offset base tail read read')
    {start' : List Char} (h : Aligned offset base tail ⟨progress, source⟩ ⟨progress', source'⟩)
    (hstart : start' = source' ∨ skip progress' source' = .ok start')
    {tree tree' : Tree} {after after' : Progress}
    (hread : readBranch inner progress source = .ok (tree, after, rest))
    (hread' : readBranch inner' progress' start' = .ok (tree', after', rest')) :
    Place.Lost ⟨after, rest⟩ ∨ tree' = tree.shift offset ∧
      Mirror offset base tail tree.groupNumbers ⟨progress, source⟩ ⟨progress', source'⟩
        ⟨after, rest⟩ ⟨after', rest'⟩ := by
  obtain ⟨⟨items, last, final⟩, hitems, hpure⟩ := ok_of_bind_eq_ok hread
  cases hpure
  obtain ⟨⟨items', last', final'⟩, hitems', hpure'⟩ := ok_of_bind_eq_ok hread'
  cases hpure'
  have hlist : Place.Lost ⟨after, rest⟩ ∨ items' = shiftAll offset items ∧
      Mirror offset base tail (groupNumbersOf items) ⟨progress, source⟩ ⟨progress', source'⟩
        ⟨after, rest⟩ ⟨after', rest'⟩ := by
    rcases hstart with rfl | hskip'
    · exact readItems_mirror hinner h (Nat.le_refl _) (Nat.le_refl _) hitems hitems'
    · obtain ⟨skipped, hskip⟩ := skip_of_readItems (Nat.le_refl _) hitems
      rcases h.skip hskip with ⟨hblank, hnil⟩ | ⟨again, hagain, haligned, hpasses⟩
      · simp only at hnil
        subst hnil
        exact .inl (readItems_lost hblank hskip (Nat.le_refl _) hitems)
      · cases hskip'.symm.trans hagain
        rcases hpasses with ⟨rfl, rfl⟩ | ⟨hlt, hlt'⟩
        · exact readItems_mirror hinner h (Nat.le_refl _) (Nat.le_refl _) hitems hitems'
        · refine (readItems_mirror_skip hinner haligned hskip hlt (Nat.le_refl _) (Nat.le_refl _)
            hitems hitems').imp_right ?_
          rintro ⟨rfl, hmirror⟩
          exact ⟨rfl, (Mirror.of_passes haligned (.inr ⟨hlt, hlt'⟩)).trans hmirror⟩
  refine hlist.imp_right ?_
  rintro ⟨rfl, hmirror⟩
  rw [ofItems_shift, ofItems_groupNumbers]
  exact ⟨rfl, hmirror⟩

/-! ## Alternations -/

theorem readMore_nil (inner : Option (Reader Tree)) (fuel : Nat) (progress : Progress) :
    readMore inner fuel progress [] = .ok ([], progress, []) := by
  cases fuel <;> rfl

theorem readMore_eq_ok {fuel : Nat} {choices : List Tree} {after : Progress}
    (h : readMore inner (fuel + 1) progress source = .ok (choices, after, rest)) :
    ∃ skipped, skip progress source = .ok skipped ∧
      ((skipped.head? ≠ some '|' ∧ choices = [] ∧ after = progress ∧ rest = skipped) ∨
        ∃ inside choice middle between others, skipped = '|' :: inside ∧
          readBranch inner progress inside = .ok (choice, middle, between) ∧
          readMore inner fuel middle between = .ok (others, after, rest) ∧
          choices = choice :: others) := by
  obtain ⟨skipped, hskip, h⟩ := ok_of_bind_eq_ok h
  refine ⟨skipped, hskip, ?_⟩
  split at h
  · next inside =>
    obtain ⟨⟨choice, middle, between⟩, hchoice, h⟩ := ok_of_bind_eq_ok h
    obtain ⟨⟨others, last, final⟩, hothers, hpure⟩ := ok_of_bind_eq_ok h
    cases hpure
    exact .inr ⟨inside, choice, middle, between, others, rfl, hchoice, hothers, rfl⟩
  · next hbar =>
    cases h
    refine .inl ⟨fun hhead => ?_, rfl, rfl, rfl⟩
    obtain ⟨inside, rfl⟩ := List.head?_eq_some_iff.mp hhead
    exact hbar inside rfl

theorem readMore_close (inner : Option (Reader Tree)) (fuel : Nat) (progress : Progress)
    (rest : List Char) :
    readMore inner fuel progress (')' :: rest) = .ok ([], progress, ')' :: rest) := by
  cases fuel with
  | zero => rfl
  | succ fuel =>
    have hskip : skip progress (')' :: rest) = .ok (')' :: rest) := skipIgnored_close _ _ _
    rw [readMore, hskip]
    rfl

theorem readMore_mirror
    (hinner : ∀ read ∈ inner, ∀ read' ∈ inner', Mirrors offset base tail read read')
    {fuel fuel' : Nat} (h : Aligned offset base tail ⟨progress, source⟩ ⟨progress', source'⟩)
    (hfuel : source.length ≤ fuel) (hfuel' : source'.length ≤ fuel') {choices choices' : List Tree}
    {after after' : Progress}
    (hread : readMore inner fuel progress source = .ok (choices, after, rest))
    (hread' : readMore inner' fuel' progress' source' = .ok (choices', after', rest')) :
    Place.Lost ⟨after, rest⟩ ∨ choices' = shiftAll offset choices ∧
      Mirror offset base tail (groupNumbersOf choices) ⟨progress, source⟩ ⟨progress', source'⟩
        ⟨after, rest⟩ ⟨after', rest'⟩ := by
  induction fuel generalizing progress progress' source source' fuel' choices choices' with
  | zero =>
    cases List.length_eq_zero_iff.mp (Nat.le_zero.mp hfuel)
    obtain ⟨last, rfl⟩ := List.head?_eq_some_iff.mp h.head?
    cases hread
    cases (readMore_close inner' fuel' progress' last).symm.trans hread'
    exact .inr ⟨rfl, .of_passes h (.refl _ _)⟩
  | succ fuel ih =>
    have hsome' : 0 < source'.length := by
      obtain ⟨last, rfl⟩ := List.head?_eq_some_iff.mp h.head?
      exact Nat.succ_pos _
    obtain ⟨fuel', rfl⟩ := Nat.exists_eq_succ_of_ne_zero (by omega : fuel' ≠ 0)
    obtain ⟨skipped, hskip, hends⟩ := readMore_eq_ok hread
    obtain ⟨skipped', hskip', hends'⟩ := readMore_eq_ok hread'
    rcases h.skip hskip with ⟨hblank, hnil⟩ | ⟨final, hfinal, haligned, hpasses⟩
    · simp only at hblank hnil
      subst hnil
      rcases hends with ⟨-, -, rfl, rfl⟩ | ⟨_, _, _, _, _, hbar, -⟩
      · exact .inl ⟨hblank, rfl⟩
      · cases hbar
    · cases hskip'.symm.trans hfinal
      have hiff := haligned.head?_eq_some_iff (c := '|') (by decide)
      rcases hends with ⟨hbar, rfl, rfl, rfl⟩ | ⟨inside, choice, middle, between, others, rfl,
        hchoice, hothers, rfl⟩
      · rcases hends' with ⟨-, rfl, rfl, rfl⟩ | ⟨_, _, _, _, _, rfl, -⟩
        · exact .inr ⟨rfl, .of_passes haligned hpasses⟩
        · exact absurd (hiff.mp rfl) hbar
      · rcases hends' with ⟨hbar', -⟩ | ⟨inside', choice', middle', between', others', rfl,
          hchoice', hothers', rfl⟩
        · exact absurd (hiff.mpr rfl) hbar'
        · obtain ⟨taken, htaken, hinside⟩ := haligned.uncons (by decide)
          cases htaken
          have hbar : Passes ('|' :: inside) ('|' :: inside') inside inside' := .of_word ['|'] _ _
          have hle := hpasses.le
          simp only [List.length_cons] at hle
          rcases readBranch_mirror hinner hinside (.inl rfl) hchoice hchoice' with ⟨hblank, hnil⟩ |
            ⟨rfl, hmirror⟩
          · simp only at hblank hnil
            subst hnil
            cases (readMore_nil inner fuel middle).symm.trans hothers
            exact .inl ⟨hblank, rfl⟩
          · have hless := hmirror.passes.le
            simp only at hless
            refine (ih hmirror.aligned (by omega) (by omega) hothers hothers').imp_right ?_
            rintro ⟨rfl, hmore⟩
            exact ⟨rfl, (Mirror.of_passes hinside (hpasses.trans hbar)).trans (hmirror.trans hmore)⟩

/-! ## Expressions -/

theorem readChoice_eq_ok {tree : Tree} {after : Progress}
    (h : readChoice inner progress source = .ok (tree, after, rest)) :
    ∃ first middle between choices, readBranch inner progress source = .ok (first, middle, between) ∧
      readMore inner between.length middle between = .ok (choices, after, rest) ∧
      tree = if choices.isEmpty then first else .alt (first :: choices) := by
  obtain ⟨⟨first, middle, between⟩, hfirst, h⟩ := ok_of_bind_eq_ok h
  obtain ⟨⟨choices, last, final⟩, hchoices, h⟩ := ok_of_bind_eq_ok h
  simp only at h
  refine ⟨first, middle, between, choices, hfirst, ?_⟩
  split at h
  · next hempty =>
    rw [if_pos hempty]
    split at h
    · cases h
    · cases h
      exact ⟨hchoices, rfl⟩
  · next hempty =>
    rw [if_neg hempty]
    cases h
    exact ⟨hchoices, rfl⟩

theorem readChoice_mirrors
    (hinner : ∀ read ∈ inner, ∀ read' ∈ inner', Mirrors offset base tail read read') :
    Mirrors offset base tail (readChoice inner) (readChoice inner') where
  nil := by
    intro progress after tree rest h
    obtain ⟨first, middle, between, choices, hfirst, hmore, -⟩ := readChoice_eq_ok h
    obtain ⟨⟨items, last, final⟩, hitems, hpure⟩ := ok_of_bind_eq_ok hfirst
    cases (readItems_nil inner _ progress).symm.trans hitems
    cases hpure
    cases (readMore_nil inner _ progress).symm.trans hmore
    rfl
  mirror := by
    intro progress progress' source source' start' h hstart tree tree' after after' rest rest' hread hread'
    obtain ⟨first, middle, between, choices, hfirst, hmore, rfl⟩ := readChoice_eq_ok hread
    obtain ⟨first', middle', between', choices', hfirst', hmore', rfl⟩ := readChoice_eq_ok hread'
    rcases readBranch_mirror hinner h hstart hfirst hfirst' with ⟨hblank, hnil⟩ | ⟨rfl, hmirror⟩
    · simp only at hblank hnil
      subst hnil
      cases (readMore_nil inner _ middle).symm.trans hmore
      exact .inl ⟨hblank, rfl⟩
    · refine (readMore_mirror hinner hmirror.aligned (Nat.le_refl _) (Nat.le_refl _) hmore
        hmore').imp_right ?_
      rintro ⟨rfl, hrest⟩
      cases choices with
      | nil =>
        have hend := hmirror.trans hrest
        rw [groupNumbersOf, List.append_nil] at hend
        exact ⟨rfl, hend⟩
      | cons second choices => exact ⟨rfl, hmirror.trans hrest⟩

/-- The reader of the inside of parentheses. -/
def innerReader : Nat → Option (Reader Tree)
  | 0 => none
  | levels + 1 => some (readExpression levels)

theorem readExpression_eq (levels : Nat) :
    readExpression levels = readChoice (innerReader levels) := by
  cases levels <;> rfl

/-- Readers of expressions mirror each other, however deep parentheses may nest in either. -/
theorem readExpression_mirrors (offset : Nat) (base : List Nat) (tail : List Char)
    (levels levels' : Nat) :
    Mirrors offset base tail (readExpression levels) (readExpression levels') := by
  rw [readExpression_eq, readExpression_eq]
  induction levels generalizing levels' with
  | zero => exact readChoice_mirrors fun read hread => by cases hread
  | succ levels ih =>
    refine readChoice_mirrors fun read hread read' hread' => ?_
    cases levels' with
    | zero => cases hread'
    | succ levels' =>
      cases hread
      cases hread'
      rw [readExpression_eq, readExpression_eq]
      exact ih levels'

end Highlighter.Regex.Tree
