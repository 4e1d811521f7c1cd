import Highlighter.Proofs.Regex.Choice
import Highlighter.Proofs.Regex.Tiles

/-!
# Expressions joined one after the other

Sources that are joined without anything between them, each in a group of its own, read as these
groups one after the other. So a match of them falls into the stretches of the groups, which lie
next to each other and cover it.
-/

namespace Highlighter.Regex.Tree

variable {flags : Flags} {levels fuel groups : Nat} {progress after : Progress} {rest : List Char}
  {source : String} {sources : List String} {reads : List Source} {items : List Tree}

/-- Each source in a group of its own, one after the other. -/
def enclosed (groups : Nat) (sources : List String) : List Char :=
  (Pattern.wrapFrom groups sources).flatten

theorem enclosed_cons (groups : Nat) (source : String) (sources : List String) :
    enclosed groups (source :: sources) =
      '(' :: (Pattern.shiftReferences (groups + 1) source ++
        ')' :: enclosed (groups + 1 + Pattern.countGroups source) sources) := by
  simp [enclosed, Pattern.wrapFrom]

theorem intercalate_nothing {α : Type} (parts : List (List α)) :
    List.intercalate [] parts = parts.flatten := by
  induction parts with
  | nil => rfl
  | cons part parts ih =>
    cases parts with
    | nil => simp
    | cons second parts =>
      rw [List.intercalate_cons_cons, ih, List.append_nil]
      rfl

theorem toList_joinGroups_nothing (sources : List String) :
    (Pattern.joinGroups "" sources).toList = enclosed 0 sources := by
  rw [Pattern.joinGroups, String.toList_ofList]
  exact intercalate_nothing _

/-- In front of sources in groups of their own, nothing is ignored and nothing is repeated. -/
theorem enclosed_stops (hreads : ReadInTurn progress.flags sources reads) (groups : Nat) :
    skip progress (enclosed groups sources) = .ok (enclosed groups sources) ∧
      ∀ atom, readRepeated progress atom (enclosed groups sources) =
        .ok (atom, progress, enclosed groups sources) := by
  cases hreads with
  | nil => exact ⟨rfl, fun _ => rfl⟩
  | cons hclear hread =>
    rw [enclosed_cons]
    exact ⟨skip_wrapped hread (.of_isClear hclear) _, fun _ => rfl⟩

theorem readItems_enclosed (hreads : ReadInTurn progress.flags sources reads)
    (hfuel : (enclosed progress.groups sources).length ≤ fuel)
    (hread : readItems (some (readExpression levels)) fuel progress
      (enclosed progress.groups sources) = .ok (items, after, rest)) :
    rest = [] ∧ (∀ read ∈ reads, read.Closed) ∧ items = wrap progress.groups reads := by
  generalize hflags : progress.flags = flags at hreads
  induction hreads generalizing progress fuel items with
  | nil =>
    cases (readItems_nil _ fuel progress).symm.trans hread
    exact ⟨rfl, List.forall_mem_nil _, rfl⟩
  | @cons flags source sources tree alone reads hclear halone hcount hblank hrest ih =>
    subst hflags
    rw [enclosed_cons] at hread hfuel
    simp only [List.length_cons, List.length_append] at hfuel
    obtain ⟨fuel, rfl⟩ := Nat.exists_eq_succ_of_ne_zero (by omega : fuel ≠ 0)
    obtain ⟨item, middle, inside, hpiece, hends⟩ := readItems_eq_ok (List.cons_ne_nil _ _) hread
    have hmoved : Pattern.Renumbers (progress.groups + 1) source.toList
        (Pattern.shiftReferences (progress.groups + 1) source) := .of_isClear hclear
    obtain ⟨group, between, beyond, hparen, hgroup⟩ :=
      group_of_readPiece (skip_wrapped halone hmoved _) hpiece
    obtain ⟨rfl, hwraps⟩ := readParenthesis_wrapped halone hblank hmoved hparen
    rw [← hwraps.flags] at hrest
    obtain ⟨hstop, hrepeat⟩ :=
      enclosed_stops hrest (progress.groups + 1 + Pattern.countGroups source)
    obtain ⟨rfl, rfl, rfl⟩ := hgroup hstop (hrepeat group)
    have hgroups : middle.groups = progress.groups + 1 + alone.groups := hwraps.groups
    rcases hends with ⟨hsame, -⟩ | ⟨-, others, hothers, rfl⟩
    · simp only [List.length_cons, List.length_append] at hsame
      omega
    · rw [hcount, ← hgroups] at hothers hfuel
      obtain ⟨hnil, hclosed, rfl⟩ := ih (by omega) hothers hwraps.flags
      refine ⟨hnil, List.forall_mem_cons.mpr ⟨⟨hwraps.numbers, hwraps.known⟩, hclosed⟩, ?_⟩
      rw [wrap, hwraps.shifted, hgroups]
      rfl

/-- Sources that are joined without anything between them read as groups one after the other. -/
theorem read_joinGroups_nothing (hreads : ReadInTurn flags sources reads) {joined : Source}
    (hread : read flags (Pattern.joinGroups "" sources) = .ok joined) :
    (∀ read ∈ reads, read.Closed) ∧ joined.tree = ofItems (wrap 0 reads) := by
  obtain ⟨⟨tree, after, rest⟩, hexpression, hjoined⟩ := ok_of_bind_eq_ok hread
  rw [readExpression_eq, toList_joinGroups_nothing] at hexpression
  obtain ⟨first, middle, between, choices, hfirst, hmore, rfl⟩ := readChoice_eq_ok hexpression
  obtain ⟨⟨items, last, final⟩, hitems, hpure⟩ := ok_of_bind_eq_ok hfirst
  cases hpure
  obtain ⟨rfl, hclosed, rfl⟩ :=
    @readItems_enclosed _ _ { flags := flags } _ _ _ _ _ hreads (Nat.le_refl _) hitems
  cases (readMore_nil _ _ middle).symm.trans hmore
  cases hjoined
  exact ⟨hclosed, rfl⟩

/-! ## Running -/

/-- The numbers of the groups in which sources stand, when `groups` groups precede them. -/
def wrapNumbers (groups : Nat) : List Source → List Nat
  | [] => []
  | read :: reads => (groups + 1) :: wrapNumbers (groups + 1 + read.groups) reads

theorem lt_of_mem_wrapNumbers {number : Nat} (h : number ∈ wrapNumbers groups reads) :
    groups < number := by
  induction reads generalizing groups with
  | nil => cases h
  | cons read reads ih =>
    rcases List.mem_cons.mp h with rfl | h
    · exact Nat.lt_succ_self groups
    · have hless := ih h
      omega

theorem row_wrap (hclosed : ∀ read ∈ reads, read.Closed) :
    Row (wrap groups reads) (wrapNumbers groups reads) := by
  induction reads generalizing groups with
  | nil => exact .nil
  | cons read reads ih =>
    obtain ⟨hfirst, hrest⟩ := List.forall_mem_cons.mp hclosed
    refine .cons (fun inner hinner => ?_) (fun other hother => ?_) (ih hrest)
    · rw [groupNumbers_shift] at hinner
      obtain ⟨number, -, rfl⟩ := List.mem_map.mp hinner
      exact Nat.le_add_left _ _
    · have hless := lt_of_mem_wrapNumbers hother
      omega

/-- A match of sources that are joined without anything between them consists of their groups, one
after the other. -/
theorem tiles_of_matchAt? (hreads : ReadInTurn flags sources reads) {joined : Source}
    (hread : read flags (Pattern.joinGroups "" sources) = .ok joined) {regex : Regex}
    (hregex : joined.regex = .ok regex) {text : Array Char} {position : Nat} {hit : Match}
    (hhit : regex.matchAt? text position = some hit) :
    Tiles hit.group? (wrapNumbers 0 reads) hit.span.start hit.span.stop := by
  obtain ⟨hclosed, htree⟩ := read_joinGroups_nothing hreads hread
  obtain ⟨program, hprogram, hpure⟩ := ok_of_bind_eq_ok hregex
  cases hpure
  rw [htree] at hprogram
  have hlays : Program.Lays text (wrapNumbers 0 reads) program :=
    (row_wrap hclosed).lays_plan hprogram
  obtain ⟨after, hrun, rfl⟩ := Option.map_eq_some_iff.mp hhit
  rw [Program.run_some] at hrun
  obtain ⟨htiles, -⟩ := hlays _ after (List.mem_of_head? hrun)
  refine htiles.congr fun number hnumber => ?_
  exact Match.group?_of_state _ _ (lt_of_mem_wrapNumbers hnumber)

end Highlighter.Regex.Tree
