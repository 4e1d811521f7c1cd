import Highlighter.Proofs.Regex.Followed
import Highlighter.Proofs.Regex.Joined

/-!
# Expressions in front of others

A branch that ends with its source ends in the same way in front of a bar or a closing parenthesis,
and the alternation goes on with what stands behind the bar. A reader of an expression that stops
earlier does not see what follows at all.
-/

namespace Highlighter.Regex.Tree

variable {tail : List Char} {progress after last : Progress} {source rest final : List Char}
  {tree : Tree} {inner : Option (Reader Tree)} {fuel fuel' : Nat}

/-! ## Constructs -/

/-- What comes of a construct with its quantifier if the source goes on with `tail`. -/
inductive PieceGoesOn (tail : List Char) (inner : Option (Reader Tree)) (progress : Progress)
    (source : List Char) (tree : Tree) (after : Progress) (rest : List Char) : Prop where
  | lost (hlost : Place.Lost ⟨after, rest⟩)
  | stranded {inside : List Char} (hbrace : rest = '\x7b' :: inside)
      (hstranded : Stranded after inside) (hless : rest.length < source.length)
  | same (h : readPiece inner progress (source ++ tail) = .ok (tree, after, rest ++ tail))

theorem readPiece_append (htail : Follows tail) (hinner : ∀ read ∈ inner, GoesOn tail read)
    {skipped : List Char} (hskip : skip progress source = .ok skipped) (hsome : skipped ≠ [])
    (h : readPiece inner progress source = .ok (tree, after, rest)) :
    PieceGoesOn tail inner progress source tree after rest := by
  obtain ⟨c, front, rfl⟩ := List.exists_cons_of_ne_nil hsome
  rw [readPiece_eq] at h
  obtain ⟨⟨atom, between, middle⟩, hatom, h⟩ := ok_of_bind_eq_ok h
  obtain ⟨following, hfollowing, hrepeat⟩ := ok_of_bind_eq_ok h
  rw [readAtom_eq, bind_eq_of_ok hskip] at hatom
  have hatom' : readAtom inner progress (source ++ tail) = .ok (atom, between, middle ++ tail) := by
    rw [readAtom_eq, bind_eq_of_ok (skip_append_of_ne htail hskip hsome)]
    exact readFirst_append htail hinner hatom
  rcases skip_append htail hfollowing with ⟨hblank, hnil⟩ | hfollowing'
  · simp only at hnil
    subst hnil
    cases hrepeat
    exact .lost ⟨hblank, rfl⟩
  · cases readRepeated_append htail hrepeat with
    | lost hlost => exact .lost hlost
    | @stranded inside hafter hrest hbrace hstranded =>
      subst hafter hrest
      refine .stranded hbrace hstranded ?_
      have hlength := (skip_suffix hfollowing).length_le
      have hstart := (skip_suffix hskip).length_le
      rw [List.length_cons] at hstart
      rcases readFirst_idle (fun read hread => (hinner read hread).takes) hatom with
        htaken | ⟨-, rfl, rfl, hplain⟩
      · have hle := htaken.length_le
        omega
      · -- The construct has taken nothing, so the brace would be at its front.
        cases (skip_skip hskip).symm.trans hfollowing
        cases hbrace
        exact absurd rfl hplain
    | same hsame =>
      refine .same ?_
      rw [readPiece_eq, bind_eq_of_ok hatom']
      exact (bind_eq_of_ok hfollowing').trans hsame

/-- A construct takes something of its source, or else nothing is read. -/
theorem readPiece_idle (hinner : ∀ read ∈ inner, Takes read)
    (h : readPiece inner progress source = .ok (tree, after, rest)) :
    rest.length < source.length ∨ tree = .empty ∧ after = progress := by
  rw [readPiece_eq] at h
  obtain ⟨⟨atom, between, middle⟩, hatom, h⟩ := ok_of_bind_eq_ok h
  obtain ⟨following, hfollowing, hrepeat⟩ := ok_of_bind_eq_ok h
  rw [readAtom_eq] at hatom
  obtain ⟨skipped, hskip, hatom⟩ := ok_of_bind_eq_ok hatom
  obtain ⟨-, -, -, hrest⟩ := readRepeated_took hrepeat
  have hlength := (hrest.trans (skip_suffix hfollowing)).length_le
  have hstart := (skip_suffix hskip).length_le
  cases skipped with
  | nil =>
    cases hatom
    exact .inr (readRepeated_empty hrepeat)
  | cons c front =>
    rw [List.length_cons] at hstart
    rcases readFirst_idle hinner hatom with htaken | ⟨rfl, rfl, -, -⟩
    · have hle := htaken.length_le
      exact .inl (by omega)
    · exact .inr (readRepeated_empty hrepeat)

/-! ## Branches -/

theorem consItem_append (item : Tree) (items others : List Tree) :
    consItem item items ++ others = consItem item (items ++ others) := by
  cases item <;> rfl

theorem readItems_of_piece {item : Tree} {others : List Tree} (hsource : source ≠ [])
    (hpiece : readPiece inner progress source = .ok (item, after, rest))
    (hlength : rest.length ≠ source.length)
    (hothers : readItems inner fuel after rest = .ok (others, last, final)) :
    readItems inner (fuel + 1) progress source = .ok (consItem item others, last, final) := by
  have hsome : source.isEmpty = false := List.isEmpty_eq_false_iff.mpr hsource
  rw [readItems, hsome, if_neg Bool.false_ne_true, bind_eq_of_ok hpiece]
  simp only [beq_iff_eq, if_neg hlength]
  rw [bind_eq_of_ok hothers]
  cases item <;> rfl

/-- A branch ends where no construct takes anything. -/
theorem readItems_of_idle (hpiece : readPiece inner progress source = .ok (tree, after, rest))
    (hlength : rest.length = source.length) (fuel : Nat) :
    readItems inner fuel progress source = .ok ([], progress, source) := by
  cases fuel with
  | zero => rfl
  | succ fuel =>
    rw [readItems]
    split
    · rfl
    · rw [bind_eq_of_ok hpiece]
      simp only [beq_iff_eq, if_pos hlength]
      rfl

/-- Behind what is ignored at the end of the source, the branch goes on as it would there. -/
theorem readItems_of_skip (htail : Follows tail) (hinner : ∀ read ∈ inner, Takes read)
    (hsource : source ≠ []) (hskip : skip progress (source ++ tail) = .ok tail) {others : List Tree}
    (h : readItems inner (fuel + 1) progress tail = .ok (others, last, final)) :
    readItems inner (fuel + 1) progress (source ++ tail) = .ok (others, last, final) := by
  obtain ⟨item, middle, inside, hpiece, hends⟩ := readItems_eq_ok htail.ne_nil h
  have hsuffix := (readPiece_took hinner hpiece).suffix
  have hpiece' : readPiece inner progress (source ++ tail) = .ok (item, middle, inside) :=
    (readPiece_skip hskip inner).trans hpiece
  have hless : inside.length ≠ (source ++ tail).length := by
    have hpositive := List.length_pos_iff.mpr hsource
    have hlength := hsuffix.length_le
    simp only at hlength
    rw [List.length_append]
    omega
  have hsource' : source ++ tail ≠ [] := by simp [hsource]
  rcases hends with ⟨hsame, rfl, rfl, rfl⟩ | ⟨-, others, hothers, rfl⟩
  · rcases readPiece_idle hinner hpiece with hlt | ⟨rfl, rfl⟩
    · exact absurd hsame (Nat.ne_of_lt hlt)
    · obtain rfl : inside = final := hsuffix.eq_of_length hsame
      exact readItems_of_piece hsource' hpiece' hless (readItems_of_idle hpiece rfl fuel)
  · exact readItems_of_piece hsource' hpiece' hless hothers

/-- In front of `tail`, a branch goes on as it does from the place where it ends alone. -/
theorem readItems_append (htail : Follows tail) (hinner : ∀ read ∈ inner, GoesOn tail read)
    (hfuel : source.length ≤ fuel) (hfuel' : (source ++ tail).length ≤ fuel') {items : List Tree}
    (h : readItems inner fuel progress source = .ok (items, after, rest)) :
    Place.Lost ⟨after, rest⟩ ∨ ∀ {others : List Tree} {last : Progress} {final : List Char},
      (∀ fuel, (rest ++ tail).length ≤ fuel →
        readItems inner fuel after (rest ++ tail) = .ok (others, last, final)) →
      readItems inner fuel' progress (source ++ tail) = .ok (items ++ others, last, final) := by
  have htakes : ∀ read ∈ inner, Takes read := fun read hread => (hinner read hread).takes
  induction fuel generalizing progress source fuel' items with
  | zero =>
    cases List.length_eq_zero_iff.mp (Nat.le_zero.mp hfuel)
    cases h
    exact .inr fun hmore => hmore fuel' hfuel'
  | succ fuel ih =>
    by_cases hsource : source = []
    · subst hsource
      cases (readItems_nil inner _ progress).symm.trans h
      exact .inr fun hmore => hmore fuel' hfuel'
    · have hpositive := List.length_pos_iff.mpr hsource
      rw [List.length_append] at hfuel'
      obtain ⟨fuel', rfl⟩ := Nat.exists_eq_succ_of_ne_zero (by omega : fuel' ≠ 0)
      obtain ⟨item, middle, inside, hpiece, hends⟩ := readItems_eq_ok hsource h
      obtain ⟨skipped, hskip⟩ := skip_of_readItems hfuel h
      by_cases hsome : skipped = []
      · subst hsome
        rw [readPiece_skip hskip, readPiece_nil] at hpiece
        cases hpiece
        rcases hends with ⟨hsame, -⟩ | ⟨-, others, hothers, rfl⟩
        · rw [← hsame] at hpositive
          cases hpositive
        cases (readItems_nil inner fuel progress).symm.trans hothers
        refine (skip_append htail hskip).imp_right fun hskip' others last final hmore => ?_
        exact readItems_of_skip htail htakes hsource hskip'
          (hmore (fuel' + 1) (by rw [List.nil_append]; omega))
      · cases readPiece_append htail hinner hskip hsome hpiece with
        | lost hlost =>
          obtain ⟨hblank, hnil⟩ := hlost
          simp only at hblank hnil
          subst hnil
          rcases hends with ⟨hsame, -⟩ | ⟨-, others, hothers, -⟩
          · rw [← hsame] at hpositive
            cases hpositive
          · cases (readItems_nil inner fuel middle).symm.trans hothers
            exact .inl ⟨hblank, rfl⟩
        | stranded hbrace hstranded hless =>
          subst hbrace
          rcases hends with ⟨hsame, -⟩ | ⟨-, others, hothers, -⟩
          · omega
          · exact .inl (readItems_adrift (.step rfl hstranded) (by omega) hothers)
        | same hsame =>
          rcases hends with ⟨-, rfl, rfl, rfl⟩ | ⟨hlength, others, hothers, rfl⟩
          · exact .inr fun hmore => hmore (fuel' + 1) (by rw [List.length_append]; exact hfuel')
          · have hle := (readPiece_took htakes hpiece).suffix.length_le
            simp only at hle
            have hshort : (inside ++ tail).length ≤ fuel' := by
              rw [List.length_append]
              omega
            refine (ih (by omega) hshort hothers).imp_right fun hgoes others last final hmore => ?_
            rw [consItem_append]
            refine readItems_of_piece (by simp [hsource]) hsame ?_ (hgoes hmore)
            rw [List.length_append, List.length_append]
            omega

/-- A branch that stops in front of something ends there, whatever follows. -/
theorem readItems_stops (htail : Follows tail) (hinner : ∀ read ∈ inner, GoesOn tail read)
    (hfuel : source.length ≤ fuel) {items : List Tree}
    (h : readItems inner fuel progress source = .ok (items, after, rest)) (hrest : rest ≠ [])
    (fuel' : Nat) :
    readItems inner fuel' after (rest ++ tail) = .ok ([], after, rest ++ tail) := by
  induction fuel generalizing progress source items with
  | zero =>
    cases List.length_eq_zero_iff.mp (Nat.le_zero.mp hfuel)
    cases h
    exact absurd rfl hrest
  | succ fuel ih =>
    by_cases hsource : source = []
    · subst hsource
      cases (readItems_nil inner _ progress).symm.trans h
      exact absurd rfl hrest
    · obtain ⟨item, middle, inside, hpiece, hends⟩ := readItems_eq_ok hsource h
      rcases hends with ⟨hsame, rfl, rfl, rfl⟩ | ⟨hlength, others, hothers, -⟩
      · obtain ⟨skipped, hskip⟩ := skip_of_readItems hfuel h
        have hpositive := List.length_pos_iff.mpr hsource
        have hsome : skipped ≠ [] := by
          rintro rfl
          rw [readPiece_skip hskip, readPiece_nil] at hpiece
          cases hpiece
          rw [← hsame] at hpositive
          cases hpositive
        cases readPiece_append htail hinner hskip hsome hpiece with
        | lost hlost =>
          have hnil : inside = [] := hlost.2
          subst hnil
          rw [← hsame] at hpositive
          cases hpositive
        | stranded _ _ hless => omega
        | same hpiece' =>
          exact readItems_of_idle hpiece' (by rw [List.length_append, List.length_append, hsame]) _
      · have hle := (readPiece_took (fun read hread => (hinner read hread).takes) hpiece).suffix
        have hle' := hle.length_le
        simp only at hle'
        exact ih (by omega) hothers

/-- A branch that ends in front of `tail` reads the same there. -/
theorem readBranch_append (htail : Follows tail) (hinner : ∀ read ∈ inner, GoesOn tail read)
    (hend : rest = [] → ∃ c ∈ ['|', ')'], tail.head? = some c)
    (h : readBranch inner progress source = .ok (tree, after, rest)) :
    Place.Lost ⟨after, rest⟩ ∨
      readBranch inner progress (source ++ tail) = .ok (tree, after, rest ++ tail) := by
  obtain ⟨⟨items, _, _⟩, hitems, hpure⟩ := ok_of_bind_eq_ok h
  cases hpure
  have hstop : ∀ fuel, readItems inner fuel after (rest ++ tail) =
      .ok ([], after, rest ++ tail) := by
    intro fuel
    by_cases hrest : rest = []
    · subst hrest
      obtain ⟨c, hc, hhead⟩ := hend rfl
      obtain ⟨following, rfl⟩ := List.head?_eq_some_iff.mp hhead
      exact readItems_end hc inner fuel after following
    · exact readItems_stops htail hinner (Nat.le_refl _) hitems hrest fuel
  refine (readItems_append htail hinner (Nat.le_refl _) (Nat.le_refl _) hitems).imp_right
    fun hgoes => ?_
  have hagain := hgoes fun fuel _ => hstop fuel
  rw [List.append_nil] at hagain
  exact bind_eq_of_ok hagain

/-! ## Alternations -/

theorem readMore_skip {skipped : List Char} (hskip : skip progress source = .ok skipped)
    (inner : Option (Reader Tree)) (fuel : Nat) :
    readMore inner (fuel + 1) progress source = readMore inner (fuel + 1) progress skipped := by
  rw [readMore, readMore, bind_eq_of_ok hskip, bind_eq_of_ok (skip_skip hskip)]

theorem readMore_of_branch {inside : List Char} {choice : Tree} {others : List Tree}
    (hskip : skip progress source = .ok ('|' :: inside))
    (hchoice : readBranch inner progress inside = .ok (choice, after, rest))
    (hothers : readMore inner fuel after rest = .ok (others, last, final)) :
    readMore inner (fuel + 1) progress source = .ok (choice :: others, last, final) := by
  rw [readMore, bind_eq_of_ok hskip]
  exact (bind_eq_of_ok hchoice).trans (bind_eq_of_ok hothers)

/-- Where no bar stands, there is no further branch. -/
theorem readMore_of_stop (hskip : skip progress source = .ok source) (hbar : source.head? ≠ some '|')
    (fuel : Nat) : readMore inner fuel progress source = .ok ([], progress, source) := by
  cases fuel with
  | zero => rfl
  | succ fuel =>
    rw [readMore, bind_eq_of_ok hskip]
    split
    · next inside => exact absurd rfl hbar
    · rfl

/-- In front of `tail`, an alternation goes on as it does from the place where it ends alone. -/
theorem readMore_append (htail : Follows tail) (hinner : ∀ read ∈ inner, GoesOn tail read)
    (hend : rest = [] → ∃ c ∈ ['|', ')'], tail.head? = some c) (hfuel : source.length ≤ fuel)
    (hfuel' : (source ++ tail).length ≤ fuel') {choices : List Tree}
    (h : readMore inner fuel progress source = .ok (choices, after, rest)) :
    Place.Lost ⟨after, rest⟩ ∨ ∀ {others : List Tree} {last : Progress} {final : List Char},
      (∀ fuel, (rest ++ tail).length ≤ fuel →
        readMore inner fuel after (rest ++ tail) = .ok (others, last, final)) →
      readMore inner fuel' progress (source ++ tail) = .ok (choices ++ others, last, final) := by
  have htakes : ∀ read ∈ inner, Takes read := fun read hread => (hinner read hread).takes
  induction fuel generalizing progress source fuel' choices with
  | zero =>
    cases List.length_eq_zero_iff.mp (Nat.le_zero.mp hfuel)
    cases h
    exact .inr fun hmore => hmore fuel' hfuel'
  | succ fuel ih =>
    have hpositive := List.length_pos_iff.mpr htail.ne_nil
    rw [List.length_append] at hfuel'
    obtain ⟨fuel', rfl⟩ := Nat.exists_eq_succ_of_ne_zero (by omega : fuel' ≠ 0)
    obtain ⟨skipped, hskip, hends⟩ := readMore_eq_ok h
    have hle := (skip_suffix hskip).length_le
    rcases skip_append htail hskip with ⟨hblank, hnil⟩ | hskip'
    · simp only at hblank hnil
      subst hnil
      rcases hends with ⟨-, -, rfl, rfl⟩ | ⟨_, _, _, _, _, hbar, -⟩
      · exact .inl ⟨hblank, rfl⟩
      · cases hbar
    · rcases hends with ⟨-, rfl, rfl, rfl⟩ | ⟨inside, choice, middle, between, others, rfl, hchoice,
        hothers, rfl⟩
      · refine .inr fun hmore => ?_
        rw [readMore_skip hskip']
        exact hmore (fuel' + 1) (by rw [List.length_append]; omega)
      · have hbetween := (readBranch_took htakes hchoice).suffix.length_le
        have hrest := (readMore_took htakes hothers).suffix
        simp only [List.length_cons] at hle hbetween hrest
        have hend' : between = [] → ∃ c ∈ ['|', ')'], tail.head? = some c := by
          rintro rfl
          exact hend (List.suffix_nil.mp hrest)
        rcases readBranch_append htail hinner hend' hchoice with ⟨hblank, hnil⟩ | hchoice'
        · simp only at hblank hnil
          subst hnil
          cases (readMore_nil inner fuel middle).symm.trans hothers
          exact .inl ⟨hblank, rfl⟩
        · have hshort : (between ++ tail).length ≤ fuel' := by
            rw [List.length_append]
            omega
          refine (ih (by omega) hshort hothers).imp_right fun hgoes others last final hmore => ?_
          exact readMore_of_branch hskip' hchoice' (hgoes hmore)

/-- Behind an alternation there is nothing to skip, and no bar. -/
theorem readMore_stops (hfuel : source.length ≤ fuel) {choices : List Tree}
    (h : readMore inner fuel progress source = .ok (choices, after, rest))
    (htakes : ∀ read ∈ inner, Takes read) :
    skip after rest = .ok rest ∧ rest.head? ≠ some '|' := by
  induction fuel generalizing progress source choices with
  | zero =>
    cases List.length_eq_zero_iff.mp (Nat.le_zero.mp hfuel)
    cases h
    exact ⟨rfl, by simp⟩
  | succ fuel ih =>
    obtain ⟨skipped, hskip, hends⟩ := readMore_eq_ok h
    rcases hends with ⟨hbar, -, rfl, rfl⟩ | ⟨inside, choice, middle, between, others, rfl, hchoice,
      hothers, -⟩
    · exact ⟨skip_skip hskip, hbar⟩
    · have hle := (skip_suffix hskip).length_le
      have hbetween := (readBranch_took htakes hchoice).suffix.length_le
      simp only [List.length_cons] at hle hbetween
      exact ih (by omega) hothers

/-! ## Expressions -/

/-- Whether numbered references stand next to names. -/
def mixesReferences (progress : Progress) : Bool :=
  progress.hasNumbered && !progress.names.isEmpty

theorem readChoice_eq_ok_iff :
    readChoice inner progress source = .ok (tree, after, rest) ↔
      ∃ first middle between choices,
        readBranch inner progress source = .ok (first, middle, between) ∧
          readMore inner between.length middle between = .ok (choices, after, rest) ∧
          tree = ofChoices (first :: choices) ∧ (choices = [] → mixesReferences after = false) := by
  constructor
  · intro h
    obtain ⟨⟨first, middle, between⟩, hfirst, h⟩ := ok_of_bind_eq_ok h
    obtain ⟨⟨choices, last, final⟩, hchoices, h⟩ := ok_of_bind_eq_ok h
    refine ⟨first, middle, between, choices, hfirst, ?_⟩
    cases choices with
    | nil =>
      simp only [List.isEmpty_nil, if_true] at h
      split at h
      · cases h
      · next hmix =>
        cases h
        exact ⟨hchoices, rfl, fun _ => by simpa [mixesReferences] using hmix⟩
    | cons second choices =>
      cases h
      exact ⟨hchoices, rfl, fun hnil => by cases hnil⟩
  · rintro ⟨first, middle, between, choices, hfirst, hchoices, rfl, hmix⟩
    refine (bind_eq_of_ok hfirst).trans ((bind_eq_of_ok hchoices).trans ?_)
    cases choices with
    | nil =>
      have hmix : (after.hasNumbered && !after.names.isEmpty) = false := hmix rfl
      simp only [List.isEmpty_nil, if_true, hmix, Bool.false_eq_true, if_false]
      rfl
    | cons second choices => rfl

theorem readChoice_goesOn (htail : Follows tail) (hinner : ∀ read ∈ inner, GoesOn tail read) :
    GoesOn tail (readChoice inner) where
  takes := readChoice_took fun read hread => (hinner read hread).takes
  append := by
    intro progress after source rest tree h hrest
    have htakes : ∀ read ∈ inner, Takes read := fun read hread => (hinner read hread).takes
    obtain ⟨first, middle, between, choices, hfirst, hmore, rfl, hmix⟩ := readChoice_eq_ok_iff.mp h
    have hbetween : between ≠ [] := by
      rintro rfl
      exact hrest (List.suffix_nil.mp (readMore_took htakes hmore).suffix)
    have hfirst' := (readBranch_append htail hinner (fun hnil => absurd hnil hbetween)
      hfirst).resolve_left fun hlost => hbetween hlost.2
    obtain ⟨hskip, hbar⟩ := readMore_stops (Nat.le_refl _) hmore htakes
    have hstop : ∀ fuel, readMore inner fuel after (rest ++ tail) = .ok ([], after, rest ++ tail) := by
      refine readMore_of_stop (skip_append_of_ne htail hskip hrest) ?_
      obtain ⟨c, following, rfl⟩ := List.exists_cons_of_ne_nil hrest
      exact hbar
    have hmore' := ((readMore_append htail hinner (fun hnil => absurd hnil hrest) (Nat.le_refl _)
      (Nat.le_refl _) hmore).resolve_left fun hlost => hrest hlost.2) fun fuel _ => hstop fuel
    rw [List.append_nil] at hmore'
    exact readChoice_eq_ok_iff.mpr ⟨first, middle, _, choices, hfirst', hmore', rfl, hmix⟩

/-- Expressions that stop early do not see what follows, however deep their parentheses are
nested. -/
theorem readExpression_goesOn (htail : Follows tail) (levels : Nat) :
    GoesOn tail (readExpression levels) := by
  rw [readExpression_eq]
  induction levels with
  | zero => exact readChoice_goesOn htail fun read hread => by cases hread
  | succ levels ih =>
    refine readChoice_goesOn htail fun read hread => ?_
    cases hread
    rwa [readExpression_eq]

theorem innerReader_goesOn (htail : Follows tail) (levels : Nat) :
    ∀ read ∈ innerReader levels, GoesOn tail read := by
  intro read hread
  cases levels with
  | zero => cases hread
  | succ levels =>
    cases hread
    exact readExpression_goesOn htail levels

end Highlighter.Regex.Tree
