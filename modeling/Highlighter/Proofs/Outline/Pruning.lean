import Highlighter.Proofs.Outline.Bare
import Mathlib.Data.List.Forall2

/-!
# Pruned trees of modes

A mode is idle when its hook ignores every begin match, in whichever of its forms. A tree of modes
is pruned by leaving idle modes out of the modes that may start inside others. Shorthands are
expanded in a pruned tree as they are in the whole one, so that its outline is pruned in the same
places. -/

namespace Highlighter

/-- A hook that ignores every match. -/
def Hook.Ignores (hook : Hook) : Prop :=
  ∀ info data, (hook.call info data).1 = .ignore

/-- The begin matches of a mode are ignored, and nothing else may start in their place. -/
structure ModeFields.IsIdle (fields : ModeFields) : Prop where
  hook : ∃ hook, fields.onBegin = some hook ∧ hook.Ignores
  noBefore : fields.beforePattern = none

namespace Mode

variable {κ : Type}

/-- All forms of a mode are idle. -/
structure IsIdle (mode : Mode κ) : Prop where
  own : mode.variants = [] → mode.fields.IsIdle
  variants : ∀ variant ∈ mode.variants, (mode.fields.inherit variant.fields).IsIdle

mutual
/-- A tree of modes, and the same one without some of the idle modes inside others. -/
inductive Pruned : Mode κ → Mode κ → Prop where
  | mk {fields : ModeFields} {contains contains' : List (Child κ)}
      {variants variants' : List (Mode κ)} {next next' : Next κ} (hcontains : ChildrenPruned contains contains')
      (hvariants : VariantsPruned variants variants') (hnext : NextPruned next next') :
      Pruned (.mk fields contains variants next) (.mk fields contains' variants' next')

/-- The modes that may start inside a mode, without some idle ones. -/
inductive ChildrenPruned : List (Child κ) → List (Child κ) → Prop where
  | nil : ChildrenPruned [] []
  | itself {children children' : List (Child κ)} (hrest : ChildrenPruned children children') :
      ChildrenPruned (.itself :: children) (.itself :: children')
  | kept {key key' : κ} {mode mode' : Mode κ} {children children' : List (Child κ)}
      (hmode : Pruned mode mode') (hrest : ChildrenPruned children children') :
      ChildrenPruned (.mode key mode :: children) (.mode key' mode' :: children')
  | dropped {key : κ} {mode : Mode κ} {children children' : List (Child κ)} (hidle : mode.IsIdle)
      (hrest : ChildrenPruned children children') :
      ChildrenPruned (.mode key mode :: children) children'

/-- Pruned variants. One that has modes inside it keeps some of them, since a variant without any
has those of the mode itself. -/
inductive VariantsPruned : List (Mode κ) → List (Mode κ) → Prop where
  | nil : VariantsPruned [] []
  | cons {mode mode' : Mode κ} {modes modes' : List (Mode κ)} (hmode : Pruned mode mode')
      (hempty : mode.contains = [] ↔ mode'.contains = []) (hrest : VariantsPruned modes modes') :
      VariantsPruned (mode :: modes) (mode' :: modes')

/-- The mode that starts right after a mode, pruned. -/
inductive NextPruned : Next κ → Next κ → Prop where
  | nothing : NextPruned .nothing .nothing
  | mode {key key' : κ} {mode mode' : Mode κ} (hmode : Pruned mode mode') :
      NextPruned (.mode key mode) (.mode key' mode')
end

end Mode

namespace Outline

/-- What a mode says about itself. -/
def fields : Outline → Except Misuse ModeFields
  | .mk _ _ _ fields _ _ => fields

/-- The begin matches of a mode are ignored. -/
def IsIdle (outline : Outline) : Prop :=
  ∀ fields, outline.fields = .ok fields → ∃ hook, fields.onBegin = some hook ∧ hook.Ignores

mutual
/-- An outline, and the same one without some of the idle modes inside others. -/
inductive Pruned : Outline → Outline → Prop where
  | mk {place place' : Option Place} {isTied isTied' : Bool} {hook : Option Hook}
      {fields : Except Misuse ModeFields} {contains contains' : List (Option Outline)}
      {next next' : Option Outline} (hcontains : ChildrenPruned contains contains')
      (hnext : NextPruned next next') :
      Pruned (.mk place isTied hook fields contains next)
        (.mk place' isTied' hook fields contains' next')

/-- The modes inside a mode, without some idle ones. -/
inductive ChildrenPruned : List (Option Outline) → List (Option Outline) → Prop where
  | nil : ChildrenPruned [] []
  | itself {children children' : List (Option Outline)}
      (hrest : ChildrenPruned children children') :
      ChildrenPruned (none :: children) (none :: children')
  | kept {child child' : Outline} {children children' : List (Option Outline)}
      (hchild : Pruned child child') (hrest : ChildrenPruned children children') :
      ChildrenPruned (some child :: children) (some child' :: children')
  | dropped {child : Outline} {children children' : List (Option Outline)} (hidle : child.IsIdle)
      (hrest : ChildrenPruned children children') :
      ChildrenPruned (some child :: children) children'

/-- The mode that follows a mode, pruned. -/
inductive NextPruned : Option Outline → Option Outline → Prop where
  | none : NextPruned none none
  | some {next next' : Outline} (hnext : Pruned next next') : NextPruned (some next) (some next')
end

variable {outlines outlines' : List Outline} {children children' : List (Option Outline)}

theorem ChildrenPruned.kept_append (h : List.Forall₂ Pruned outlines outlines')
    (hrest : ChildrenPruned children children') :
    ChildrenPruned (outlines.map some ++ children) (outlines'.map some ++ children') := by
  induction h with
  | nil => exact hrest
  | cons houtline _ ih => exact .kept houtline ih

theorem ChildrenPruned.dropped_append (h : ∀ outline ∈ outlines, outline.IsIdle)
    (hrest : ChildrenPruned children children') :
    ChildrenPruned (outlines.map some ++ children) children' := by
  induction outlines with
  | nil => exact hrest
  | cons outline outlines ih =>
    obtain ⟨houtline, hothers⟩ := List.forall_mem_cons.mp h
    exact .dropped houtline (ih hothers)

/-! ## Shorthands in pruned trees -/

/-- A mode with pruned outlines below it. -/
structure Part.Pruned (part part' : Part) : Prop where
  fields : part.fields = part'.fields
  contains : ChildrenPruned part.contains part'.contains
  next : NextPruned part.next part'.next

/-- A variant with pruned outlines below it, which has some where it had some before. -/
structure Part.VariantPruned (part part' : Part) : Prop where
  pruned : part.Pruned part'
  empty : part.contains = [] ↔ part'.contains = []

variable {part part' variant variant' : Part} {variants variants' : List Part}

theorem Part.Pruned.inherit (h : part.Pruned part') (hvariant : variant.VariantPruned variant') :
    (part.inherit variant).Pruned (part'.inherit variant') := by
  obtain ⟨hpruned, hempty⟩ := hvariant
  refine ⟨?_, ?_, ?_⟩
  · simp only [Part.inherit, h.fields, hpruned.fields]
  · simp only [Part.inherit, List.isEmpty_iff, hempty]
    split
    · exact h.contains
    · exact hpruned.contains
  · have hnext := hpruned.next
    simp only [Part.inherit]
    generalize variant.next = next at hnext ⊢
    generalize variant'.next = next' at hnext ⊢
    cases hnext with
    | none => exact h.next
    | some hnext => exact .some hnext

theorem Part.Pruned.isSome_next (h : part.Pruned part') : part.next.isSome = part'.next.isSome := by
  have hnext := h.next
  generalize part.next = next at hnext ⊢
  generalize part'.next = next' at hnext ⊢
  cases hnext <;> rfl

theorem pruned_formsWith {single : Option Place → Part → List Part → Outline}
    (hsingle : ∀ {part part' : Part}, part.Pruned part' →
      (single none part []).Pruned (single none part' []))
    (hpart : part.Pruned part') (hvariants : List.Forall₂ Part.VariantPruned variants variants') :
    List.Forall₂ Pruned (formsWith single none part variants)
      (formsWith single none part' variants') := by
  have hempty : variants.isEmpty = variants'.isEmpty := by
    cases hvariants <;> rfl
  have hforms : ∀ (index : Nat) {variants variants' : List Part},
      List.Forall₂ Part.VariantPruned variants variants' →
      List.Forall₂ Pruned
        ((enumerateFrom index variants).map fun entry => single none (part.inherit entry.2) [])
        ((enumerateFrom index variants').map fun entry =>
          single none (part'.inherit entry.2) []) := by
    intro index variants variants' h
    induction h generalizing index with
    | nil => exact .nil
    | cons hvariant _ ih => exact .cons (hsingle (hpart.inherit hvariant)) (ih _)
  unfold formsWith
  rw [hempty]
  split
  · exact .cons (hsingle hpart) .nil
  · exact hforms 0 hvariants

theorem pruned_single (atTop : Bool) (depth : Nat) (hpart : part.Pruned part')
    (hvariants : List.Forall₂ Part.VariantPruned variants variants') :
    (single atTop depth none part variants).Pruned (single atTop depth none part' variants') := by
  have hfields := hpart.fields
  induction depth generalizing atTop part part' variants variants' with
  | zero =>
    unfold single
    rw [hfields]
    split
    · exact .mk .nil .none
    · split
      · exact .mk .nil .none
      · exact .mk hpart.contains hpart.next
  | succ depth ih =>
    unfold single
    rw [hfields]
    split
    · exact .mk .nil .none
    · next fields _ =>
      split
      · exact .mk .nil .none
      · cases hbefore : fields.beforePattern with
        | none => exact .mk hpart.contains hpart.next
        | some before =>
          simp only [hpart.isSome_next]
          split
          · exact .mk .nil .none
          · -- the forms of the mode move inside a bare mode, which follows
            have hinner : Part.Pruned
                { fields := { fields with beforePattern := none, endsParent := true }
                  contains := part.contains }
                { fields := { fields with beforePattern := none, endsParent := true }
                  contains := part'.contains } := ⟨rfl, hpart.contains, .none⟩
            have hforms := pruned_formsWith
              (fun hpart => ih false hpart .nil hpart.fields) hinner hvariants
            have hchildren := ChildrenPruned.kept_append hforms .nil
            rw [List.append_nil, List.append_nil] at hchildren
            exact .mk .nil (.some (.mk hchildren .none))

/-- The forms of an idle mode are idle. -/
theorem isIdle_single (h : part.fields.IsIdle) (place : Option Place) :
    (single false 2 place part []).IsIdle := by
  obtain ⟨hook, hhook⟩ := h.hook
  have hwhole : ∀ {fields}, expandWhole part.fields = .ok fields →
      fields.onBegin = part.fields.onBegin ∧ fields.beforePattern = none := by
    intro fields hfields
    unfold expandWhole at hfields
    split at hfields
    · cases hfields
      exact ⟨rfl, h.noBefore⟩
    · split at hfields
      · cases hfields
      · cases hfields
        exact ⟨rfl, h.noBefore⟩
  have hkeywords : ∀ fields : ModeFields,
      (expandKeywords false fields).1.onBegin = fields.onBegin := by
    intro fields
    unfold expandKeywords
    split <;> rfl
  intro fields hfields
  unfold single at hfields
  cases hexpand : expandWhole part.fields with
  | error misuse =>
    rw [hexpand] at hfields
    cases hfields
  | ok expanded =>
    obtain ⟨hsame, hbefore⟩ := hwhole hexpand
    simp only [hexpand] at hfields
    cases hcheck : checkSegments expanded with
    | error misuse =>
      rw [hcheck] at hfields
      cases hfields
    | ok =>
      simp only [hcheck, hbefore] at hfields
      cases hfields
      rw [hkeywords, hsame]
      exact ⟨hook, hhook⟩

theorem isIdle_formsWith (hown : variants = [] → part.fields.IsIdle)
    (hvariants : ∀ variant ∈ variants, (part.inherit variant).fields.IsIdle) :
    ∀ outline ∈ formsWith (single false 2) none part variants, outline.IsIdle := by
  intro outline hmem
  unfold formsWith at hmem
  split at hmem
  · next hempty =>
    cases List.mem_singleton.mp hmem
    exact isIdle_single (hown (List.isEmpty_iff.mp hempty)) _
  · obtain ⟨⟨index, variant⟩, hentry, rfl⟩ := List.mem_map.mp hmem
    exact isIdle_single (hvariants variant (mem_enumerateFrom hentry)) _

variable {κ : Type}

theorem formsWith_ne_nil {single : Option Place → Part → List Part → Outline}
    {place : Option Place} : formsWith single place part variants ≠ [] := by
  unfold formsWith
  cases variants <;> simp [enumerateFrom]

theorem bareChildren_eq_nil_iff {children : List (Child κ)} :
    bareChildren children = [] ↔ children = [] := by
  match children with
  | [] => simp [bareChildren]
  | .itself :: children => simp [bareChildren]
  | .mode _ mode :: children => simp [bareChildren, formsWith_ne_nil]

theorem fields_bareParts (mode : Mode κ) : (bareParts mode).1.fields = mode.fields := by
  cases mode
  simp only [bareParts, Mode.fields]

theorem contains_bareParts (mode : Mode κ) :
    (bareParts mode).1.contains = bareChildren mode.contains := by
  cases mode
  simp only [bareParts, Mode.contains]

theorem variants_bareParts (mode : Mode κ) :
    (bareParts mode).2 = mode.variants.map fun variant => (bareParts variant).1 := by
  have hvariants : ∀ modes : List (Mode κ),
      bareVariants modes = modes.map fun variant => (bareParts variant).1 := by
    intro modes
    induction modes with
    | nil => simp [bareVariants]
    | cons mode modes ih => rw [bareVariants, ih, List.map_cons]
  cases mode
  simp only [bareParts, Mode.variants, hvariants]

theorem isIdle_forms {mode : Mode κ} (h : mode.IsIdle) :
    ∀ outline ∈ formsWith (single false 2) none (bareParts mode).1 (bareParts mode).2,
      outline.IsIdle := by
  rw [variants_bareParts]
  refine isIdle_formsWith (fun hnil => ?_) fun variant hmem => ?_
  · rw [fields_bareParts]
    exact h.own (List.map_eq_nil_iff.mp hnil)
  · obtain ⟨variant, hvariant, rfl⟩ := List.mem_map.mp hmem
    simp only [Part.inherit, fields_bareParts]
    exact h.variants variant hvariant

mutual
/-- The parts of a pruned mode are pruned. -/
theorem pruned_parts {mode mode' : Mode κ} (h : mode.Pruned mode') :
    (bareParts mode).1.Pruned (bareParts mode').1 ∧
      List.Forall₂ Part.VariantPruned (bareParts mode).2 (bareParts mode').2 := by
  cases h with
  | mk hcontains hvariants hnext =>
    simp only [bareParts]
    exact ⟨⟨rfl, pruned_children hcontains, pruned_following hnext⟩, pruned_variants hvariants⟩
termination_by sizeOf mode

theorem pruned_variants {modes modes' : List (Mode κ)} (h : Mode.VariantsPruned modes modes') :
    List.Forall₂ Part.VariantPruned (bareVariants modes) (bareVariants modes') := by
  cases h with
  | nil =>
    rw [bareVariants]
    exact .nil
  | cons hmode hempty hrest =>
    rw [bareVariants, bareVariants]
    refine .cons ⟨(pruned_parts hmode).1, ?_⟩ (pruned_variants hrest)
    rw [contains_bareParts, contains_bareParts, bareChildren_eq_nil_iff, bareChildren_eq_nil_iff]
    exact hempty
termination_by sizeOf modes

theorem pruned_children {children children' : List (Child κ)}
    (h : Mode.ChildrenPruned children children') :
    ChildrenPruned (bareChildren children) (bareChildren children') := by
  cases h with
  | nil =>
    rw [bareChildren]
    exact .nil
  | itself hrest =>
    rw [bareChildren, bareChildren]
    exact .itself (pruned_children hrest)
  | kept hmode hrest =>
    obtain ⟨hpart, hvariants⟩ := pruned_parts hmode
    rw [bareChildren, bareChildren]
    exact .kept_append (pruned_formsWith (fun hpart => pruned_single false 2 hpart .nil) hpart
      hvariants) (pruned_children hrest)
  | dropped hidle hrest =>
    rw [bareChildren]
    exact .dropped_append (isIdle_forms hidle) (pruned_children hrest)
termination_by sizeOf children

theorem pruned_following {next next' : Next κ} (h : Mode.NextPruned next next') :
    NextPruned (bareFollowing next) (bareFollowing next') := by
  cases h with
  | nothing =>
    rw [bareFollowing]
    exact .none
  | mode hmode =>
    obtain ⟨hpart, hvariants⟩ := pruned_parts hmode
    rw [bareFollowing, bareFollowing]
    exact .some (pruned_single false 2 hpart hvariants)
termination_by sizeOf next
end

/-- The outline of a pruned tree is the outline of the whole one, pruned. -/
theorem pruned_ofRoot {root root' : RawMode} (h : root.Pruned root') :
    (ofRoot root).bare.Pruned (ofRoot root').bare := by
  have hbare : ∀ root : RawMode, (ofRoot root).bare =
      single true 2 none (bareParts root).1 (bareParts root).2 := fun root => by
    rw [bare_ofRoot, bareParts_unfold]
  obtain ⟨hpart, hvariants⟩ := pruned_parts h
  rw [hbare, hbare]
  exact pruned_single true 2 hpart hvariants

end Outline

end Highlighter
