import Highlighter.Proofs.Regex.Reader

/-!
# Expressions in groups of their own

A source that reads on its own also reads in a group of its own behind other groups, where its
references are moved up by the number of that group. Its groups get higher numbers there, and it
leaves the same flags in force.
-/

namespace Highlighter.Regex.Tree

open Pattern (Renumbers)

variable {levels levels' : Nat} {progress progress' after after' : Progress} {tree tree' : Tree}
  {source source' moved rest rest' tail : List Char}

/-- No expression starts with a mark, since there is nothing that it could make optional. -/
theorem head?_ne_mark (h : readExpression levels progress source = .ok (tree, after, rest)) :
    ∃ skipped, skip progress source = .ok skipped ∧ skipped.head? ≠ some '?' := by
  rw [readExpression_eq] at h
  obtain ⟨first, middle, between, choices, hfirst, -⟩ := readChoice_eq_ok h
  obtain ⟨⟨items, last, final⟩, hitems, -⟩ := ok_of_bind_eq_ok hfirst
  obtain ⟨skipped, hskip⟩ := skip_of_readItems (Nat.le_refl _) hitems
  refine ⟨skipped, hskip, fun hhead => ?_⟩
  obtain ⟨inside, rfl⟩ := List.head?_eq_some_iff.mp hhead
  have hsource : source ≠ [] := by
    rintro rfl
    cases hskip
  have hpositive := List.length_pos_iff.mpr hsource
  obtain ⟨fuel, hfuel⟩ := Nat.exists_eq_succ_of_ne_zero (by omega : source.length ≠ 0)
  rw [hfuel] at hitems
  obtain ⟨item, last, final, hpiece, -⟩ := readItems_eq_ok hsource hitems
  rw [readPiece_skip hskip, readPiece_eq, readAtom_eq] at hpiece
  have hagain : skip progress ('?' :: inside) = .ok ('?' :: inside) := skip_skip hskip
  obtain ⟨⟨atom, middle', inside'⟩, hatom, hpiece⟩ := ok_of_bind_eq_ok hpiece
  obtain ⟨taken, htaken, hatom⟩ := ok_of_bind_eq_ok hatom
  cases hagain.symm.trans htaken
  cases hatom
  obtain ⟨final', hfinal, hpiece⟩ := ok_of_bind_eq_ok hpiece
  cases hagain.symm.trans hfinal
  cases hpiece

theorem readExpression_lost (hblank : progress.flags.ignoreBlank = true)
    (hskip : skip progress source = .ok [])
    (h : readExpression levels progress source = .ok (tree, after, rest)) :
    Place.Lost ⟨after, rest⟩ := by
  rw [readExpression_eq] at h
  obtain ⟨first, middle, between, choices, hfirst, hmore, -⟩ := readChoice_eq_ok h
  obtain ⟨⟨items, last, final⟩, hitems, hpure⟩ := ok_of_bind_eq_ok hfirst
  cases hpure
  obtain ⟨hlast, hnil⟩ := readItems_lost hblank hskip (Nat.le_refl _) hitems
  simp only at hlast hnil
  subst hnil
  cases (readMore_nil _ _ middle).symm.trans hmore
  exact ⟨hlast, rfl⟩

/-- Before a source in a group of its own, its reader has opened the groups of other sources. -/
theorem Aligned.start (hmoved : Renumbers (progress.groups + 1) source moved) (tail : List Char) :
    Aligned (progress.groups + 1) progress.referenced tail
      ⟨{ flags := progress.flags }, source⟩
      ⟨{ progress with groups := progress.groups + 1 }, moved ++ ')' :: tail⟩ where
  source := ⟨moved, rfl, hmoved⟩
  flags := rfl
  groups := (Nat.zero_add _).symm
  referenced := rfl
  known _ hmem := by cases hmem

/-- What is known after a source in a group of its own. -/
structure Wraps (progress after after' : Progress) (tree tree' : Tree) : Prop where
  shifted : tree' = .group (progress.groups + 1) (tree.shift (progress.groups + 1))
  flags : after'.flags = after.flags
  groups : after'.groups = progress.groups + 1 + after.groups
  referenced : after'.referenced =
    after.referenced.map (· + (progress.groups + 1)) ++ progress.referenced
  known : ∀ number ∈ after.referenced, 0 < number ∧ number ≤ after.groups
  numbers : ∀ number ∈ tree.groupNumbers, 0 < number ∧ number ≤ after.groups

theorem readParenthesis_wrapped
    (hread : readExpression levels { flags := progress.flags } source = .ok (tree, after, []))
    (hblank : after.flags.ignoreBlank = false)
    (hmoved : Renumbers (progress.groups + 1) source moved)
    (hread' : readParenthesis (readExpression levels') progress (moved ++ ')' :: tail) =
      .ok (tree', after', rest')) :
    rest' = tail ∧ Wraps progress after after' tree tree' := by
  have haligned := Aligned.start hmoved tail
  rw [readParenthesis_eq] at hread'
  obtain ⟨skipped', hskip', hread'⟩ := ok_of_bind_eq_ok hread'
  obtain ⟨skipped, hskip, hmark⟩ := head?_ne_mark hread
  have hplain : skipped'.head? ≠ some '?' := by
    rcases haligned.skip hskip with ⟨hlost, hnil⟩ | ⟨again, hagain, hsame, -⟩
    · simp only at hnil
      subst hnil
      have hgone := (readExpression_lost hlost hskip hread).1
      rw [hblank] at hgone
      cases hgone
    · cases hskip'.symm.trans hagain
      rwa [Ne, hsame.head?_eq_some_iff (by decide)]
  have hopening : opening skipped' = (.plain, skipped') := by
    rw [opening, if_neg hplain]
  rw [hopening] at hread'
  obtain ⟨⟨body, last, final⟩, hbody, hpure⟩ := ok_of_bind_eq_ok hread'
  cases hpure
  obtain ⟨⟨inner, between, middle⟩, hinner, hbody⟩ := ok_of_bind_eq_ok hbody
  obtain ⟨⟨⟨⟩, _, _⟩, hclose, hpure⟩ := ok_of_bind_eq_ok hbody
  cases hpure
  obtain ⟨rfl, hparen⟩ := readClose_eq_ok hclose
  rcases (readExpression_mirrors _ _ _ levels levels').mirror haligned (.inr hskip') hread hinner
    with ⟨hlost, -⟩ | ⟨rfl, hmirror⟩
  · rw [hblank] at hlost
    cases hlost
  · have hflags := hmirror.aligned.flags
    have hgroups := hmirror.aligned.groups
    have hreferenced := hmirror.aligned.referenced
    have hknown := hmirror.aligned.known
    obtain ⟨inside, hinside, hend⟩ := hmirror.aligned.source
    simp only at hflags hgroups hreferenced hknown hinside hend
    cases hend
    obtain rfl := hinside
    cases (skipIgnored_close _ _ _).symm.trans hparen
    exact ⟨rfl, rfl, hflags, by rw [hgroups, Nat.add_comm], hreferenced, hknown, hmirror.numbers⟩

/-- A group of its own around a source is no comment. -/
theorem skip_wrapped
    (hread : readExpression levels { flags := progress.flags } source = .ok (tree, after, []))
    {offset : Nat} (hmoved : Renumbers offset source moved) (tail : List Char) :
    skip progress ('(' :: (moved ++ ')' :: tail)) = .ok ('(' :: (moved ++ ')' :: tail)) := by
  refine skipIgnored_id (by decide) (fun _ hcomment => ?_) (by decide) _ _
  obtain ⟨rest, rfl⟩ := (hmoved.prefix_append_iff tail (by decide) (by decide)).mp hcomment
  obtain ⟨skipped, hskip, hmark⟩ := head?_ne_mark hread
  have hsame : skip { flags := progress.flags } ('?' :: ('#' :: rest)) =
      .ok ('?' :: ('#' :: rest)) :=
    skipIgnored_id (by decide) (fun heq => absurd heq (by decide)) (by decide) _ _
  cases hsame.symm.trans hskip
  exact hmark rfl

/-! ## Branches that are one group -/

section

variable {read : Reader Tree} {inside : List Char}

theorem ofItems_consItem (tree : Tree) : ofItems (consItem tree []) = tree := by
  cases tree <;> rfl

/-- In front of a bar, and at the end, nothing more belongs to a branch. -/
theorem readPiece_stops (hrest : ∀ c, rest.head? = some c → c = '|') (progress : Progress) :
    skip progress rest = .ok rest ∧
      (∀ atom, readRepeated progress atom rest = .ok (atom, progress, rest)) ∧
      ∀ inner fuel, readItems inner fuel progress rest = .ok ([], progress, rest) := by
  cases rest with
  | nil => exact ⟨rfl, fun _ => rfl, fun inner fuel => readItems_nil inner fuel progress⟩
  | cons c more =>
    obtain rfl := hrest c rfl
    exact ⟨(readPiece_end (by decide) none progress more).1, fun _ => rfl,
      fun inner fuel => readItems_end (by decide) inner fuel progress more⟩

/-- A construct that starts with a group is the group, unless something is ignored or repeats it
behind it. -/
theorem group_of_readPiece (hskip : skip progress ('(' :: inside) = .ok ('(' :: inside))
    (hread : readPiece (some read) progress ('(' :: inside) = .ok (tree, after, rest)) :
    ∃ tree' after' rest', readParenthesis read progress inside = .ok (tree', after', rest') ∧
      (skip after' rest' = .ok rest' →
        readRepeated after' tree' rest' = .ok (tree', after', rest') →
        tree = tree' ∧ after = after' ∧ rest = rest') := by
  rw [readPiece_eq, readAtom_eq] at hread
  obtain ⟨⟨atom, between, beyond⟩, hatom, hafter⟩ := ok_of_bind_eq_ok hread
  obtain ⟨taken, htaken, hparen⟩ := ok_of_bind_eq_ok hatom
  cases hskip.symm.trans htaken
  refine ⟨atom, between, beyond, hparen, fun hstop hrepeat => ?_⟩
  obtain ⟨skipped, hskipped, hrepeated⟩ := ok_of_bind_eq_ok hafter
  cases hstop.symm.trans hskipped
  cases hrepeat.symm.trans hrepeated
  exact ⟨rfl, rfl, rfl⟩

/-- A branch starts with the group that it starts with, and it ends there in front of a bar. -/
theorem group_of_readBranch (hskip : skip progress ('(' :: inside) = .ok ('(' :: inside))
    (hread : readBranch (some read) progress ('(' :: inside) = .ok (tree, after, rest)) :
    ∃ tree' after' rest', readParenthesis read progress inside = .ok (tree', after', rest') ∧
      ((∀ c, rest'.head? = some c → c = '|') → rest'.length ≤ inside.length →
        tree = tree' ∧ after = after' ∧ rest = rest') := by
  obtain ⟨⟨items, last, final⟩, hitems, hpure⟩ := ok_of_bind_eq_ok hread
  cases hpure
  obtain ⟨item, middle, behind, hpiece, hends⟩ := readItems_eq_ok (List.cons_ne_nil _ _) hitems
  obtain ⟨atom, between, beyond, hparen, hgroup⟩ := group_of_readPiece hskip hpiece
  refine ⟨atom, between, beyond, hparen, fun hrest hless => ?_⟩
  obtain ⟨hstop, hrepeat, hnone⟩ := readPiece_stops hrest between
  obtain ⟨rfl, rfl, rfl⟩ := hgroup hstop (hrepeat atom)
  rcases hends with ⟨hsame, -⟩ | ⟨-, others, hothers, rfl⟩
  · simp only [List.length_cons] at hsame
    omega
  · cases (hnone _ _).symm.trans hothers
    exact ⟨ofItems_consItem _, rfl, rfl⟩

end

/-- Behind a source in a group of its own, the branch ends. -/
theorem readBranch_wrapped
    (hread : readExpression levels { flags := progress.flags } source = .ok (tree, after, []))
    (hblank : after.flags.ignoreBlank = false)
    (hmoved : Renumbers (progress.groups + 1) source moved)
    (htail : ∀ c, tail.head? = some c → c = '|')
    (hread' : readBranch (some (readExpression levels')) progress ('(' :: (moved ++ ')' :: tail)) =
      .ok (tree', after', rest')) :
    rest' = tail ∧ Wraps progress after after' tree tree' := by
  obtain ⟨inner, last, final, hparen, hends⟩ :=
    group_of_readBranch (skip_wrapped hread hmoved tail) hread'
  obtain ⟨rfl, hwraps⟩ := readParenthesis_wrapped hread hblank hmoved hparen
  obtain ⟨rfl, rfl, rfl⟩ := hends htail (by simp only [List.length_append, List.length_cons]; omega)
  exact ⟨rfl, hwraps⟩

end Highlighter.Regex.Tree
