import Highlighter.Proofs.Lexer.Terminators

/-!
# Plain grammars

A plain grammar has modes that begin and end by their own patterns only: no hook is asked, no text
is given back, no mode ends with the mode around it, and none follows another one. Outlining keeps
it that way, since only the shorthands that a plain grammar does without bring hooks and modes that
follow. So the modes of its lexer are plain as well.
-/

namespace Highlighter

/-- A mode says about itself that it begins and ends by its own patterns only. -/
structure ModeFields.IsPlain (fields : ModeFields) : Prop where
  beforePattern : fields.beforePattern = none
  beginKeywords : fields.beginKeywords = none
  returnBegin : fields.returnBegin = false
  returnEnd : fields.returnEnd = false
  endsWithParent : fields.endsWithParent = false
  onBegin : fields.onBegin = none
  onEnd : fields.onEnd = none

mutual
/-- A mode and all modes below it begin and end by their own patterns only, and none of them is
followed by another one. -/
def Mode.IsPlain {κ : Type} : Mode κ → Prop
  | .mk fields contains variants next => fields.IsPlain ∧ Mode.ChildrenPlain contains ∧
      Mode.VariantsPlain variants ∧ next = .nothing

/-- The children of a mode are plain. -/
def Mode.ChildrenPlain {κ : Type} : List (Child κ) → Prop
  | [] => True
  | .itself :: children => Mode.ChildrenPlain children
  | .mode _ mode :: children => mode.IsPlain ∧ Mode.ChildrenPlain children

/-- The variants of a mode are plain. -/
def Mode.VariantsPlain {κ : Type} : List (Mode κ) → Prop
  | [] => True
  | mode :: modes => mode.IsPlain ∧ Mode.VariantsPlain modes
end

/-- A mode of a lexer that begins and ends by its own patterns only. -/
structure LexerMode.IsPlain (mode : LexerMode) : Prop where
  beforeBegin : mode.beforeBegin = none
  onBegin : mode.onBegin = none
  onEnd : mode.onEnd = none
  returnBegin : mode.returnBegin = false
  returnEnd : mode.returnEnd = false
  endsWithParent : mode.endsWithParent = false
  next : mode.next = none

/-! ## Outlines of plain modes -/

namespace ModeFields.IsPlain

variable {fields variant : ModeFields}

theorem inherit (h : fields.IsPlain) (hvariant : variant.IsPlain) :
    (fields.inherit variant).IsPlain where
  beforePattern := by simp [ModeFields.inherit, h.beforePattern, hvariant.beforePattern]
  beginKeywords := by simp [ModeFields.inherit, h.beginKeywords, hvariant.beginKeywords]
  returnBegin := by simp [ModeFields.inherit, h.returnBegin, hvariant.returnBegin]
  returnEnd := by simp [ModeFields.inherit, h.returnEnd, hvariant.returnEnd]
  endsWithParent := by simp [ModeFields.inherit, h.endsWithParent, hvariant.endsWithParent]
  onBegin := by simp [ModeFields.inherit, h.onBegin, hvariant.onBegin]
  onEnd := by simp [ModeFields.inherit, h.onEnd, hvariant.onEnd]

theorem expandWhole (h : fields.IsPlain) (hwhole : Outline.expandWhole fields = .ok variant) :
    variant.IsPlain := by
  unfold Outline.expandWhole at hwhole
  split at hwhole
  · cases hwhole
    exact h
  · split at hwhole
    · cases hwhole
    · cases hwhole
      exact ⟨h.beforePattern, h.beginKeywords, h.returnBegin, h.returnEnd, h.endsWithParent,
        h.onBegin, h.onEnd⟩

theorem expandKeywords (h : fields.IsPlain) (atTop : Bool) :
    Outline.expandKeywords atTop fields = (fields, none) := by
  cases atTop <;> simp [Outline.expandKeywords, h.beginKeywords]

end ModeFields.IsPlain

namespace Outline

variable {κ : Type} {part variant : Part}

/-- A mode of an outline that asks no hook before it begins, is plain, and is not followed by
another one. -/
def IsPlain : Outline → Prop
  | .mk _ _ hook fields _ next =>
    hook = none ∧ (∀ sound, fields = .ok sound → sound.IsPlain) ∧ next = none

/-- A mode with its children outlined is plain, and so are the modes below it. -/
structure Part.IsPlain (part : Part) : Prop where
  fields : part.fields.IsPlain
  contains : EveryChild Outline.IsPlain part.contains
  next : part.next = none

theorem Part.IsPlain.inherit (h : part.IsPlain) (hvariant : variant.IsPlain) :
    (part.inherit variant).IsPlain where
  fields := h.fields.inherit hvariant.fields
  contains := by
    unfold Part.inherit
    split
    · exact h.contains
    · exact hvariant.contains
  next := by simp [Part.inherit, h.next, hvariant.next]

theorem refuse_plain (place : Option Place) (isTied : Bool) (misuse : Misuse) :
    (Outline.mk place isTied none (.error misuse) [] none).Every IsPlain :=
  every_mk.mpr ⟨⟨rfl, fun _ herror => (by cases herror), rfl⟩, everyChild_nil, everyNext_none⟩

/-- A plain mode has no shorthands that bring other modes or hooks. -/
theorem Part.IsPlain.single (h : part.IsPlain) (atTop : Bool) (depth : Nat)
    (place : Option Place) (variants : List Part) :
    (single atTop depth place part variants).Every Outline.IsPlain := by
  unfold Outline.single
  cases hwhole : expandWhole part.fields with
  | error misuse => exact refuse_plain _ _ _
  | ok fields =>
    have hfields := h.fields.expandWhole hwhole
    simp only
    cases checkSegments fields with
    | error misuse => exact refuse_plain _ _ _
    | ok _ =>
      simp only [hfields.beforePattern, hfields.expandKeywords, h.next]
      refine every_mk.mpr ⟨⟨rfl, fun sound hsound => ?_, rfl⟩, h.contains, everyNext_none⟩
      cases hsound
      exact hfields

theorem Part.IsPlain.formsWith (h : part.IsPlain) {variants : List Part}
    (hvariants : ∀ variant ∈ variants, variant.IsPlain) (atTop : Bool) (depth : Nat)
    (place : Option Place) :
    ∀ outline ∈ formsWith (Outline.single atTop depth) place part variants,
      outline.Every Outline.IsPlain := by
  intro outline hmem
  unfold Outline.formsWith at hmem
  split at hmem
  · cases List.mem_singleton.mp hmem
    exact h.single _ _ _ _
  · obtain ⟨⟨index, variant⟩, hentry, rfl⟩ := List.mem_map.mp hmem
    exact (h.inherit (hvariants variant (mem_enumerateFrom hentry))).single _ _ _ _

mutual
theorem bareParts_plain {mode : Mode κ} (h : mode.IsPlain) :
    (bareParts mode).1.IsPlain ∧ ∀ variant ∈ (bareParts mode).2, variant.IsPlain := by
  match mode with
  | .mk fields contains variants next =>
    rw [Mode.IsPlain] at h
    obtain ⟨hfields, hcontains, hvariants, rfl⟩ := h
    rw [bareParts]
    exact ⟨⟨hfields, bareChildren_plain hcontains, by rw [bareFollowing]⟩,
      bareVariants_plain hvariants⟩

theorem bareVariants_plain {modes : List (Mode κ)} (h : Mode.VariantsPlain modes) :
    ∀ variant ∈ bareVariants modes, variant.IsPlain := by
  match modes with
  | [] => simp [bareVariants]
  | mode :: modes =>
    rw [Mode.VariantsPlain] at h
    rw [bareVariants, List.forall_mem_cons]
    exact ⟨(bareParts_plain h.1).1, bareVariants_plain h.2⟩

theorem bareChildren_plain {children : List (Child κ)} (h : Mode.ChildrenPlain children) :
    EveryChild IsPlain (bareChildren children) := by
  match children with
  | [] => simp [bareChildren]
  | .itself :: children =>
    rw [Mode.ChildrenPlain] at h
    rw [bareChildren, everyChild_cons]
    exact ⟨everyNext_none, bareChildren_plain h⟩
  | .mode _ mode :: children =>
    rw [Mode.ChildrenPlain] at h
    obtain ⟨hpart, hvariants⟩ := bareParts_plain h.1
    rw [bareChildren, everyChild_append]
    exact ⟨everyChild_map_some.mpr (hpart.formsWith hvariants false 2 none),
      bareChildren_plain h.2⟩
end

/-- All modes in the outline of a plain mode are plain. -/
theorem ofRoot_plain {root : RawMode} (h : root.IsPlain) : (ofRoot root).bare.Every IsPlain := by
  rw [bare_ofRoot, bareParts_unfold]
  exact (bareParts_plain h).1.single true 2 none _

end Outline

/-! ## Lexers of plain grammars -/

namespace Lexer

variable {grammar : Grammar} {lexer : Lexer} {modes : Array LexerMode} {isDone : Nat → Prop}
  {owner number : Nat} {outer : Option (Option String)} {outline : Outline}

/-- A number stands for a mode of a plain outline. -/
def StandsPlain (grammar : Grammar) (lexer : Lexer) (number : Nat) : Prop :=
  ∃ outer outline, lexer.Stands grammar outer outline number ∧ outline.Every Outline.IsPlain

theorem RepresentsChildren.exists_plain {terminator : Option String}
    {children : List (Option Outline)} {numbers : List Nat}
    (h : RepresentsChildren grammar modes isDone owner terminator children numbers)
    (hplain : Outline.EveryChild Outline.IsPlain children) (hmem : number ∈ numbers) :
    number = owner ∨ ∃ child, Represents grammar modes isDone (some terminator) child number ∧
      child.Every Outline.IsPlain := by
  induction children generalizing numbers with
  | nil =>
    rw [RepresentsChildren] at h
    subst h
    cases hmem
  | cons child children ih =>
    obtain ⟨hchild, hrest⟩ := Outline.everyChild_cons.mp hplain
    cases child with
    | none =>
      rw [RepresentsChildren] at h
      obtain ⟨rest, rfl, hnumbers⟩ := h
      exact (List.mem_cons.mp hmem).elim .inl (ih hnumbers hrest)
    | some child =>
      rw [RepresentsChildren] at h
      obtain ⟨first, rest, rfl, hrepresents, hnumbers⟩ := h
      rcases List.mem_cons.mp hmem with rfl | hmem
      · exact .inr ⟨child, hrepresents, Outline.everyNext_some.mp hchild⟩
      · exact ih hnumbers hrest hmem

/-- A mode of a plain outline is plain, and so are the modes inside it. -/
theorem StandsPlain.mode (h : lexer.StandsPlain grammar number) :
    (lexer.mode number).IsPlain ∧
      ∀ inner ∈ (lexer.mode number).contains, lexer.StandsPlain grammar inner := by
  obtain ⟨outer, ⟨place, isTied, hook, fields, contains, next⟩, hstands, hplain⟩ := h
  obtain ⟨⟨hhook, hfields, hnext⟩, hcontains, -⟩ := Outline.every_mk.mp hplain
  have hrepresents := hstands
  obtain ⟨-, base, numbers, following, rules, hsurvey, hmode, -, hchildren, hfollowing⟩ :=
    represents_mk.mp hrepresents
  obtain ⟨sound, hsound, hbase⟩ := modeOf_of_survey hsurvey
  obtain ⟨-, -, -, -, -, hreturnBegin, hreturnEnd, honBegin, honEnd, hbefore, hends⟩ :=
    modeOf_eq_ok hbase
  have hfields := hfields sound hsound
  have heq : lexer.mode number =
      { base with contains := numbers, next := following, rules := rules } := hmode
  subst hnext
  rw [RepresentsNext] at hfollowing
  rw [heq]
  refine ⟨⟨hbefore.trans hhook, honBegin.trans hfields.onBegin, honEnd.trans hfields.onEnd,
    hreturnBegin.trans hfields.returnBegin, hreturnEnd.trans hfields.returnEnd,
    hends.trans hfields.endsWithParent, hfollowing⟩, fun inner hinner => ?_⟩
  rcases hchildren.exists_plain hcontains hinner with rfl | ⟨child, hchild, hplain⟩
  · exact ⟨_, _, hstands, hplain⟩
  · exact ⟨_, child, hchild, hplain⟩

end Lexer

end Highlighter
