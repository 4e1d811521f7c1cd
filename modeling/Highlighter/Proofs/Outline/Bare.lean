import Highlighter.Proofs.Outline

/-!
# Outlines without places

Where a mode is written down says which modes are the same one, and nothing else. Without the
places, the outline of a grammar depends on its tree of modes only, and not on which of them are
shared. -/

namespace Highlighter

mutual
/-- The tree of a raw mode with every shared mode written down as a mode of its own. -/
def RawMode.unfold : RawMode → RawMode
  | .mk fields contains variants next =>
    .mk fields (RawMode.unfoldChildren contains) (RawMode.unfoldVariants variants)
      (RawMode.unfoldNext next)

/-- Children with every shared mode written down as a mode of its own. -/
def RawMode.unfoldChildren : List RawChild → List RawChild
  | [] => []
  | .itself :: children => .itself :: RawMode.unfoldChildren children
  | .mode _ mode :: children =>
    .mode none (RawMode.unfold mode) :: RawMode.unfoldChildren children

/-- Variants with every shared mode written down as a mode of its own. -/
def RawMode.unfoldVariants : List RawMode → List RawMode
  | [] => []
  | mode :: modes => RawMode.unfold mode :: RawMode.unfoldVariants modes

/-- The mode that follows, with every shared mode written down as a mode of its own. -/
def RawMode.unfoldNext : Next (Option String) → Next (Option String)
  | .nothing => .nothing
  | .mode _ mode => .mode none (RawMode.unfold mode)
end

namespace Outline

mutual
/-- An outline without places. -/
def bare : Outline → Outline
  | .mk _ isTied hook fields contains next =>
    .mk none isTied hook fields (bareAll contains) (bareNext next)

/-- Outlines without places. -/
def bareAll : List (Option Outline) → List (Option Outline)
  | [] => []
  | none :: children => none :: bareAll children
  | some child :: children => some child.bare :: bareAll children

/-- The outline that follows, without places. -/
def bareNext : Option Outline → Option Outline
  | none => none
  | some next => some next.bare
end

@[simp] theorem bare_mk (place : Option Place) (isTied : Bool) (hook : Option Hook)
    (fields : Except Misuse ModeFields) (contains : List (Option Outline))
    (next : Option Outline) :
    (Outline.mk place isTied hook fields contains next).bare =
      .mk none isTied hook fields (bareAll contains) (bareNext next) :=
  rfl

@[simp] theorem bareAll_nil : bareAll [] = [] :=
  rfl

@[simp] theorem bareNext_none : bareNext none = none :=
  rfl

@[simp] theorem bareNext_some (next : Outline) : bareNext (some next) = some next.bare :=
  rfl

@[simp] theorem bareAll_cons (child : Option Outline) (children : List (Option Outline)) :
    bareAll (child :: children) = bareNext child :: bareAll children := by
  cases child <;> rfl

theorem bareAll_eq_map (children : List (Option Outline)) :
    bareAll children = children.map bareNext := by
  induction children with
  | nil => exact bareAll_nil
  | cons child children ih => rw [bareAll_cons, ih, List.map_cons]

theorem bareAll_append (first second : List (Option Outline)) :
    bareAll (first ++ second) = bareAll first ++ bareAll second := by
  simp only [bareAll_eq_map, List.map_append]

theorem bareAll_map_some (outlines : List Outline) :
    bareAll (outlines.map some) = (outlines.map bare).map some := by
  simp only [bareAll_eq_map, List.map_map]
  exact List.map_congr_left fun outline _ => bareNext_some outline

theorem isTied_bare (outline : Outline) : outline.bare.isTied = outline.isTied := by
  cases outline
  rw [bare_mk]
  rfl

/-- A mode whose children are outlined without places. -/
def Part.bare (part : Part) : Part :=
  ⟨part.fields, bareAll part.contains, bareNext part.next⟩

theorem Part.isTied_bare (part : Part) : part.bare.isTied = part.isTied := by
  obtain ⟨fields, contains, next⟩ := part
  cases next with
  | none => simp [Part.bare, Part.isTied]
  | some next => simp [Part.bare, Part.isTied, Outline.isTied_bare]

theorem Part.bare_inherit (base variant : Part) :
    (base.inherit variant).bare = base.bare.inherit variant.bare := by
  obtain ⟨fields, contains, next⟩ := base
  obtain ⟨fields', contains', next'⟩ := variant
  simp only [Part.inherit, Part.bare, Part.mk.injEq, true_and]
  constructor
  · cases contains' with
    | nil => simp
    | cons child children => simp
  · cases next' <;> simp

theorem enumerateFrom_map {α β : Type} (f : α → β) (index : Nat) (elements : List α) :
    enumerateFrom index (elements.map f) =
      (enumerateFrom index elements).map fun entry => (entry.1, f entry.2) := by
  induction elements generalizing index with
  | nil => rfl
  | cons a elements ih => simp [enumerateFrom, ih]

theorem bare_formsWith {single : Option Place → Part → List Part → Outline}
    (hsingle : ∀ place part variants,
      (single place part variants).bare = single none part.bare (variants.map Part.bare))
    (place : Option Place) (part : Part) (variants : List Part) :
    (formsWith single place part variants).map bare =
      formsWith single none part.bare (variants.map Part.bare) := by
  cases variants with
  | nil => simp [formsWith, hsingle]
  | cons variant variants =>
    simp only [formsWith, List.map_cons, List.isEmpty_cons, Bool.false_eq_true, if_false,
      Option.map_none]
    rw [← List.map_cons, enumerateFrom_map, List.map_map, List.map_map]
    refine List.map_congr_left fun entry _ => ?_
    simp [hsingle, Part.bare_inherit]

theorem Part.isSome_next_bare (part : Part) : part.bare.next.isSome = part.next.isSome := by
  obtain ⟨fields, contains, next⟩ := part
  cases next <;> simp [Part.bare]

/-- Shorthands are expanded in the same way at every place. -/
theorem bare_single (atTop : Bool) (depth : Nat) (place : Option Place) (part : Part)
    (variants : List Part) :
    (single atTop depth place part variants).bare =
      single atTop depth none part.bare (variants.map Part.bare) := by
  induction depth generalizing atTop place part variants with
  | zero =>
    unfold single
    simp only [Part.isTied_bare]
    split
    · next hwhole => simp [Part.bare, hwhole]
    · next fields hwhole =>
      simp only [Part.bare, hwhole]
      split <;> simp
  | succ depth ih =>
    unfold single
    simp only [Part.isTied_bare, Part.isSome_next_bare]
    split
    · next hwhole => simp [Part.bare, hwhole]
    · next fields hwhole =>
      simp only [Part.bare, hwhole]
      split
      · simp
      · cases hbefore : fields.beforePattern with
        | none => simp
        | some before =>
          simp only
          split
          · simp
          · -- the forms of the mode move inside a bare mode, without a place of their own
            rw [bare_mk, bareAll_nil, bareNext_some, bare_mk, bareNext_none, bareAll_map_some,
              bare_formsWith fun place part variants => ih false place part variants]
            simp [Part.bare]

mutual
/-- A mode and its variants with their children outlined, without places. -/
def bareParts {κ : Type} : Mode κ → Part × List Part
  | .mk fields contains variants next =>
    (⟨fields, bareChildren contains, bareFollowing next⟩, bareVariants variants)

/-- Variants with their children outlined, without places. -/
def bareVariants {κ : Type} : List (Mode κ) → List Part
  | [] => []
  | mode :: modes => (bareParts mode).1 :: bareVariants modes

/-- The outlines of the children of a mode, without places. -/
def bareChildren {κ : Type} : List (Child κ) → List (Option Outline)
  | [] => []
  | .itself :: children => none :: bareChildren children
  | .mode _ mode :: children =>
    (formsWith (single false 2) none (bareParts mode).1 (bareParts mode).2).map some ++
      bareChildren children

/-- The outline of the mode that follows a mode, without places. -/
def bareFollowing {κ : Type} : Next κ → Option Outline
  | .nothing => none
  | .mode _ mode => some (single false 2 none (bareParts mode).1 (bareParts mode).2)
end

mutual
/-- The places of modes do not show in their outlines without places. -/
theorem bare_parts (mode : Mode Place) :
    (parts mode).1.bare = (bareParts mode).1 ∧
      (parts mode).2.map Part.bare = (bareParts mode).2 := by
  match mode with
  | .mk fields contains variants next =>
    simp only [parts, bareParts, Part.bare]
    exact ⟨by rw [bare_ofChildren, bare_ofNext], bare_variantParts variants⟩

theorem bare_variantParts (modes : List (Mode Place)) :
    (variantParts modes).map Part.bare = bareVariants modes := by
  match modes with
  | [] => simp [variantParts, bareVariants]
  | mode :: modes =>
    rw [variantParts, bareVariants, List.map_cons, (bare_parts mode).1, bare_variantParts modes]

theorem bare_ofChildren (children : List (Child Place)) :
    bareAll (ofChildren children) = bareChildren children := by
  match children with
  | [] => simp [ofChildren, bareChildren]
  | .itself :: children =>
    rw [ofChildren, bareChildren, bareAll_cons, bareNext_none, bare_ofChildren children]
  | .mode place mode :: children =>
    obtain ⟨hpart, hvariants⟩ := bare_parts mode
    rw [ofChildren, bareChildren, bareAll_append, bare_ofChildren children, bareAll_map_some, forms,
      bare_formsWith (bare_single false 2), hpart, hvariants]

theorem bare_ofNext (next : Next Place) : bareNext (ofNext next) = bareFollowing next := by
  match next with
  | .nothing => simp [ofNext, bareFollowing]
  | .mode place mode =>
    obtain ⟨hpart, hvariants⟩ := bare_parts mode
    rw [ofNext, bareFollowing, bareNext_some, bare_single, hpart, hvariants]
end

mutual
theorem bareParts_locate (place : Place) (mode : RawMode) :
    bareParts (Place.locate place mode) = bareParts mode := by
  match mode with
  | .mk fields contains variants next =>
    rw [Place.locate, bareParts, bareParts, bareChildren_locate, bareVariants_locate,
      bareFollowing_locate]

theorem bareVariants_locate (owner : Place) (index : Nat) (modes : List RawMode) :
    bareVariants (Place.locateVariants owner index modes) = bareVariants modes := by
  match modes with
  | [] => rw [Place.locateVariants, bareVariants, bareVariants]
  | mode :: modes =>
    rw [Place.locateVariants, bareVariants, bareVariants, bareParts_locate, bareVariants_locate]

theorem bareChildren_locate (owner : Place) (index : Nat) (children : List RawChild) :
    bareChildren (Place.locateChildren owner index children) = bareChildren children := by
  match children with
  | [] => rw [Place.locateChildren, bareChildren, bareChildren]
  | .itself :: children =>
    rw [Place.locateChildren, bareChildren, bareChildren, bareChildren_locate]
  | .mode none mode :: children =>
    rw [Place.locateChildren, bareChildren, bareChildren, bareChildren_locate, bareParts_locate]
  | .mode (some name) mode :: children =>
    rw [Place.locateChildren, bareChildren, bareChildren, bareChildren_locate, bareParts_locate]

theorem bareFollowing_locate (owner : Place) (next : Next (Option String)) :
    bareFollowing (Place.locateNext owner next) = bareFollowing next := by
  match next with
  | .nothing => rw [Place.locateNext, bareFollowing, bareFollowing]
  | .mode none mode => rw [Place.locateNext, bareFollowing, bareFollowing, bareParts_locate]
  | .mode (some name) mode => rw [Place.locateNext, bareFollowing, bareFollowing, bareParts_locate]
end

mutual
theorem bareParts_unfold (mode : RawMode) : bareParts mode.unfold = bareParts mode := by
  match mode with
  | .mk fields contains variants next =>
    rw [RawMode.unfold, bareParts, bareParts, bareChildren_unfold, bareVariants_unfold,
      bareFollowing_unfold]

theorem bareVariants_unfold (modes : List RawMode) :
    bareVariants (RawMode.unfoldVariants modes) = bareVariants modes := by
  match modes with
  | [] => rw [RawMode.unfoldVariants, bareVariants]
  | mode :: modes =>
    rw [RawMode.unfoldVariants, bareVariants, bareVariants, bareParts_unfold, bareVariants_unfold]

theorem bareChildren_unfold (children : List RawChild) :
    bareChildren (RawMode.unfoldChildren children) = bareChildren children := by
  match children with
  | [] => rw [RawMode.unfoldChildren, bareChildren]
  | .itself :: children =>
    rw [RawMode.unfoldChildren, bareChildren, bareChildren, bareChildren_unfold]
  | .mode key mode :: children =>
    rw [RawMode.unfoldChildren, bareChildren, bareChildren, bareChildren_unfold, bareParts_unfold]

theorem bareFollowing_unfold (next : Next (Option String)) :
    bareFollowing (RawMode.unfoldNext next) = bareFollowing next := by
  match next with
  | .nothing => rw [RawMode.unfoldNext, bareFollowing]
  | .mode key mode => rw [RawMode.unfoldNext, bareFollowing, bareFollowing, bareParts_unfold]
end

/-- The outline of a top mode, without places, depends on the unfolded tree of modes only. -/
theorem bare_ofRoot (root : RawMode) :
    (ofRoot root).bare =
      single true 2 none (bareParts root.unfold).1 (bareParts root.unfold).2 := by
  obtain ⟨hpart, hvariants⟩ := bare_parts (Place.locate .root root)
  rw [ofRoot, bare_single, hpart, hvariants, bareParts_locate, bareParts_unfold]

end Outline

end Highlighter
