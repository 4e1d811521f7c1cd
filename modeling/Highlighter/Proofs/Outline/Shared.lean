import Highlighter.Proofs.Outline.Bare

/-!
# Shared modes in outlines

Where children with one name are one mode, a place determines the outline of the mode that is
written down there, without the places in it. A mode that is not tied takes nothing from the mode
around it: neither it nor a mode that follows it ends with the mode around them.
-/

namespace Highlighter

mutual
/-- Whatever stands under a name in the tree is the mode that `meaning` gives for it. -/
def RawMode.Shares (meaning : String → RawMode) : RawMode → Prop
  | .mk _ contains variants next =>
    RawMode.SharesChildren meaning contains ∧ RawMode.SharesVariants meaning variants ∧
      RawMode.SharesNext meaning next

/-- Whatever stands under a name among children, or below them, is what `meaning` gives for it. -/
def RawMode.SharesChildren (meaning : String → RawMode) : List RawChild → Prop
  | [] => True
  | .itself :: children => RawMode.SharesChildren meaning children
  | .mode key mode :: children =>
    (∀ name, key = some name → mode = meaning name) ∧ RawMode.Shares meaning mode ∧
      RawMode.SharesChildren meaning children

/-- Whatever stands under a name below variants is what `meaning` gives for it. -/
def RawMode.SharesVariants (meaning : String → RawMode) : List RawMode → Prop
  | [] => True
  | mode :: modes => RawMode.Shares meaning mode ∧ RawMode.SharesVariants meaning modes

/-- If the mode that follows has a name, it is what `meaning` gives for it. -/
def RawMode.SharesNext (meaning : String → RawMode) : Next (Option String) → Prop
  | .nothing => True
  | .mode key mode =>
    (∀ name, key = some name → mode = meaning name) ∧ RawMode.Shares meaning mode
end

/-- The mode that is written down at a place of a tree. -/
def Place.modeAt (meaning : String → RawMode) (root : RawMode) : Place → RawMode
  | .root => root
  | .shared name => meaning name
  | .child owner index =>
    match (Place.modeAt meaning root owner).contains[index]? with
    | some (.mode _ mode) => mode
    | _ => default
  | .variant owner index => ((Place.modeAt meaning root owner).variants[index]?).getD default
  | .next owner =>
    match (Place.modeAt meaning root owner).next with
    | .mode _ mode => mode
    | .nothing => default

namespace Outline

/-- The outline of the mode at a place, without places. -/
def outlineAt (meaning : String → RawMode) (root : RawMode) (place : Place) : Outline :=
  match place with
  | .variant owner index =>
    let (part, variants) := bareParts (Place.modeAt meaning root owner)
    single false 2 none (part.inherit ((variants[index]?).getD ⟨{}, [], none⟩)) []
  | place =>
    let (part, variants) := bareParts (Place.modeAt meaning root place)
    single (place == .root) 2 none part variants

mutual
/-- Every mode of an outline has a property. -/
def Every (property : Outline → Prop) : Outline → Prop
  | .mk place isTied hook fields contains next =>
    property (.mk place isTied hook fields contains next) ∧ EveryChild property contains ∧
      EveryNext property next

/-- Every mode in a list of outlines has a property. -/
def EveryChild (property : Outline → Prop) : List (Option Outline) → Prop
  | [] => True
  | none :: children => EveryChild property children
  | some child :: children => child.Every property ∧ EveryChild property children

/-- If a mode follows, every mode of its outline has a property. -/
def EveryNext (property : Outline → Prop) : Option Outline → Prop
  | none => True
  | some next => next.Every property
end

/-- A mode without shorthands that its place determines. If it is not tied, then neither it nor a
mode that follows it ends with the mode around it. -/
structure Settled (table : Place → Outline) (outline : Outline) : Prop where
  placed : ∀ place, outline.place = some place → outline.bare = table place
  untied : ∀ place hook fields contains next, outline = .mk place false hook fields contains next →
    (∀ sound, fields = .ok sound → sound.endsWithParent = false) ∧
      ∀ following, next = some following → following.isTied = false

variable {property : Outline → Prop} {table : Place → Outline}

@[simp] theorem everyChild_nil : EveryChild property [] :=
  trivial

@[simp] theorem everyNext_none : EveryNext property none :=
  trivial

@[simp] theorem everyNext_some {next : Outline} :
    EveryNext property (some next) ↔ next.Every property :=
  Iff.rfl

@[simp] theorem everyChild_cons {child : Option Outline} {children : List (Option Outline)} :
    EveryChild property (child :: children) ↔
      EveryNext property child ∧ EveryChild property children := by
  cases child with
  | none => exact (iff_of_eq (true_and _)).symm
  | some child => exact Iff.rfl

theorem everyChild_iff {children : List (Option Outline)} :
    EveryChild property children ↔ ∀ child ∈ children, EveryNext property child := by
  induction children with
  | nil => simp
  | cons child children ih => rw [everyChild_cons, ih, List.forall_mem_cons]

theorem everyChild_map_some {outlines : List Outline} :
    EveryChild property (outlines.map some) ↔ ∀ outline ∈ outlines, outline.Every property := by
  simp [everyChild_iff]

theorem every_mk {place : Option Place} {isTied : Bool} {hook : Option Hook}
    {fields : Except Misuse ModeFields} {contains : List (Option Outline)}
    {next : Option Outline} :
    (Outline.mk place isTied hook fields contains next).Every property ↔
      property (.mk place isTied hook fields contains next) ∧ EveryChild property contains ∧
        EveryNext property next :=
  Iff.rfl

theorem everyChild_append {first second : List (Option Outline)} :
    EveryChild property (first ++ second) ↔
      EveryChild property first ∧ EveryChild property second := by
  simp only [everyChild_iff, List.forall_mem_append]

variable {property' : Outline → Prop}

mutual
/-- A property that follows from what all modes of an outline satisfy is one of all its modes. -/
theorem Every.imp {outline : Outline} (h : outline.Every property)
    (himp : ∀ outline, outline.Every property → property' outline) : outline.Every property' := by
  match outline with
  | .mk place isTied hook fields contains next =>
    obtain ⟨-, hcontains, hnext⟩ := every_mk.mp h
    exact every_mk.mpr ⟨himp _ h, hcontains.imp himp, hnext.imp himp⟩

theorem EveryChild.imp {children : List (Option Outline)} (h : EveryChild property children)
    (himp : ∀ outline, outline.Every property → property' outline) :
    EveryChild property' children := by
  match children with
  | [] => exact everyChild_nil
  | child :: children =>
    obtain ⟨hchild, hrest⟩ := everyChild_cons.mp h
    exact everyChild_cons.mpr ⟨hchild.imp himp, hrest.imp himp⟩

theorem EveryNext.imp {next : Option Outline} (h : EveryNext property next)
    (himp : ∀ outline, outline.Every property → property' outline) :
    EveryNext property' next := by
  match next with
  | none => exact everyNext_none
  | some next => exact everyNext_some.mpr ((everyNext_some.mp h).imp himp)
end

/-- The modes below a mode all have a property. -/
structure Part.Every (property : Outline → Prop) (part : Part) : Prop where
  contains : EveryChild property part.contains
  next : EveryNext property part.next

theorem Part.Every.inherit {base variant : Part} (hbase : base.Every property)
    (hvariant : variant.Every property) : (base.inherit variant).Every property where
  contains := by
    unfold Part.inherit
    split
    · exact hbase.contains
    · exact hvariant.contains
  next := by
    unfold Part.inherit
    cases hnext : variant.next with
    | none => exact hbase.next
    | some next =>
      have := hvariant.next
      rwa [hnext] at this

theorem expandWhole_endsWithParent {fields fields' : ModeFields}
    (h : expandWhole fields = .ok fields') : fields'.endsWithParent = fields.endsWithParent := by
  unfold expandWhole at h
  split at h
  · cases h
    rfl
  · split at h
    · cases h
    · cases h
      rfl

theorem expandKeywords_endsWithParent (atTop : Bool) (fields : ModeFields) :
    (expandKeywords atTop fields).1.endsWithParent = fields.endsWithParent := by
  unfold expandKeywords
  split <;> rfl

theorem Part.isTied_eq_false {part : Part} (h : part.isTied = false) :
    part.fields.endsWithParent = false ∧
      ∀ following, part.next = some following → following.isTied = false := by
  simp only [Part.isTied, Bool.or_eq_false_iff] at h
  refine ⟨h.1, fun following hnext => ?_⟩
  have hrest := h.2
  rwa [hnext] at hrest

theorem refuse_settled {place : Option Place} {isTied : Bool} {misuse : Misuse}
    (hplace : ∀ p, place = some p →
      (Outline.mk place isTied none (.error misuse) [] none).bare = table p) :
    (Outline.mk place isTied none (.error misuse) [] none).Every (Settled table) := by
  refine every_mk.mpr ⟨⟨hplace, ?_⟩, everyChild_nil, everyNext_none⟩
  intro place hook fields contains next heq
  cases heq
  exact ⟨fun sound hsound => (by cases hsound), fun following hnext => (by cases hnext)⟩

theorem plain_settled {place : Option Place} {isTied : Bool} {hook : Option Hook}
    {fields : ModeFields} {contains : List (Option Outline)} {next : Option Outline}
    (huntied : isTied = false → fields.endsWithParent = false ∧
      ∀ following, next = some following → following.isTied = false)
    (hcontains : EveryChild (Settled table) contains) (hnext : EveryNext (Settled table) next)
    (hplace : ∀ p, place = some p →
      (Outline.mk place isTied hook (.ok fields) contains next).bare = table p) :
    (Outline.mk place isTied hook (.ok fields) contains next).Every (Settled table) := by
  refine every_mk.mpr ⟨⟨hplace, ?_⟩, hcontains, hnext⟩
  intro place hook fields contains next heq
  cases heq
  obtain ⟨hfields, hfollowing⟩ := huntied rfl
  refine ⟨fun sound hsound => ?_, hfollowing⟩
  cases hsound
  exact hfields

theorem formsWith_settled (single : Option Place → Part → List Part → Outline)
    (place : Option Place) {part : Part} {variants : List Part}
    (hpart : part.Every (Settled table))
    (hvariants : ∀ variant ∈ variants, variant.Every (Settled table))
    (hsingle : ∀ place part, part.Every (Settled table) →
      (∀ p, place = some p → (single place part []).bare = table p) →
      (single place part []).Every (Settled table))
    (hown : variants = [] → ∀ p, place = some p → (single place part []).bare = table p)
    (hvariant : ∀ p index variant, place = some p → variants[index]? = some variant →
      (single (some (.variant p index)) (part.inherit variant) []).bare =
        table (.variant p index)) :
    ∀ outline ∈ formsWith single place part variants, outline.Every (Settled table) := by
  have hnumbered : ∀ (start index : Nat) (variant : Part) (elements : List Part),
      (index, variant) ∈ enumerateFrom start elements →
        start ≤ index ∧ elements[index - start]? = some variant := by
    intro start index variant elements
    induction elements generalizing start with
    | nil => simp [enumerateFrom]
    | cons element elements ih =>
      rw [enumerateFrom, List.mem_cons]
      rintro (heq | hmem)
      · cases heq
        simp
      · obtain ⟨hle, hget⟩ := ih _ hmem
        refine ⟨by omega, ?_⟩
        rw [show index - start = (index - (start + 1)) + 1 by omega, List.getElem?_cons_succ]
        exact hget
  intro outline hmem
  unfold formsWith at hmem
  split at hmem
  · next hempty =>
    cases List.mem_singleton.mp hmem
    exact hsingle _ _ hpart (hown (List.isEmpty_iff.mp hempty))
  · obtain ⟨⟨index, variant⟩, hentry, rfl⟩ := List.mem_map.mp hmem
    obtain ⟨-, hget⟩ := hnumbered 0 index variant variants hentry
    refine hsingle _ _ (hpart.inherit (hvariants _ (List.mem_of_getElem? hget))) fun p hp => ?_
    obtain ⟨owner, rfl, rfl⟩ := Option.map_eq_some_iff.mp hp
    exact hvariant owner index variant rfl hget

theorem expanded_untied {atTop : Bool} {part : Part} {fields : ModeFields}
    (hwhole : expandWhole part.fields = .ok fields) (htied : part.isTied = false) :
    (expandKeywords atTop fields).1.endsWithParent = false ∧
      ∀ following, part.next = some following → following.isTied = false := by
  obtain ⟨hends, hnext⟩ := Part.isTied_eq_false htied
  rw [expandKeywords_endsWithParent, expandWhole_endsWithParent hwhole]
  exact ⟨hends, hnext⟩

/-- Every mode in the outline of a mode is settled when the modes below it are, and it stands at a
place that determines it. -/
theorem single_settled (atTop : Bool) (depth : Nat) (place : Option Place) {part : Part}
    {variants : List Part} (hpart : part.Every (Settled table))
    (hvariants : ∀ variant ∈ variants, variant.Every (Settled table))
    (hplace : ∀ p, place = some p → (single atTop depth place part variants).bare = table p) :
    (single atTop depth place part variants).Every (Settled table) := by
  unfold single at hplace ⊢
  cases hwhole : expandWhole part.fields with
  | error misuse =>
    simp only [hwhole] at hplace ⊢
    exact refuse_settled hplace
  | ok fields =>
    simp only [hwhole] at hplace ⊢
    cases hsegments : checkSegments fields with
    | error misuse =>
      simp only [hsegments] at hplace ⊢
      exact refuse_settled hplace
    | ok _ =>
      simp only [hsegments] at hplace ⊢
      cases depth with
      | zero => exact plain_settled (expanded_untied hwhole) hpart.contains hpart.next hplace
      | succ depth =>
        cases hbefore : fields.beforePattern with
        | none =>
          simp only [hbefore] at hplace ⊢
          exact plain_settled (expanded_untied hwhole) hpart.contains hpart.next hplace
        | some before =>
          simp only [hbefore] at hplace ⊢
          split at hplace
          · next hnext =>
            rw [if_pos hnext]
            exact refuse_settled hplace
          · next hnext =>
            rw [if_neg hnext]
            -- the forms of the mode move inside a bare mode, and none of these has a place
            have hinner : Part.Every (Settled table) {
                fields := { fields with beforePattern := none, endsParent := true }
                contains := part.contains } := ⟨hpart.contains, everyNext_none⟩
            have hforms := formsWith_settled (single false depth) none hinner hvariants
              (fun place _ hpart hplace =>
                single_settled false depth place hpart (fun _ hnil => by cases hnil) hplace)
              (fun _ p hp => by cases hp) (fun p _ _ hp => by cases hp)
            have hbare : (Outline.mk none false none (.ok { relevance := some 0 })
                (List.map some _) none).Every (Settled table) :=
              plain_settled (fun _ => ⟨rfl, fun _ hnone => by cases hnone⟩)
                (everyChild_map_some.mpr hforms) everyNext_none (fun p hp => by cases hp)
            refine plain_settled (fun _ => ⟨rfl, fun following hfollowing => ?_⟩) everyChild_nil
              (everyNext_some.mpr hbare) hplace
            cases hfollowing
            rfl

variable {meaning : String → RawMode} {root : RawMode}

/-- The outline at a place is that of the mode itself, unless it is a variant. -/
theorem outlineAt_eq {place : Place} (hroot : place ≠ .root)
    (hvariant : ∀ owner index, place ≠ .variant owner index) :
    outlineAt meaning root place =
      single false 2 none (bareParts (Place.modeAt meaning root place)).1
        (bareParts (Place.modeAt meaning root place)).2 := by
  cases place with
  | root => exact absurd rfl hroot
  | variant owner index => exact absurd rfl (hvariant owner index)
  | child owner index => rfl
  | next owner => rfl
  | shared name => rfl

/-- The forms of the mode at a place are settled when the modes below it are. -/
theorem forms_settled {place : Place} {mode : RawMode} (hroot : place ≠ .root)
    (hvariant : ∀ owner index, place ≠ .variant owner index)
    (hmode : Place.modeAt meaning root place = mode)
    (hpart : (parts (Place.locate place mode)).1.Every (Settled (outlineAt meaning root)))
    (hvariants : ∀ variant ∈ (parts (Place.locate place mode)).2,
      variant.Every (Settled (outlineAt meaning root))) :
    (∀ outline ∈ forms place (parts (Place.locate place mode)).1
        (parts (Place.locate place mode)).2, outline.Every (Settled (outlineAt meaning root))) ∧
      (single false 2 (some place) (parts (Place.locate place mode)).1
        (parts (Place.locate place mode)).2).Every (Settled (outlineAt meaning root)) := by
  have hparts := bare_parts (Place.locate place mode)
  rw [bareParts_locate] at hparts
  have hown : ∀ p, some place = some p →
      (single false 2 (some place) (parts (Place.locate place mode)).1
        (parts (Place.locate place mode)).2).bare = outlineAt meaning root p := by
    intro p hp
    cases hp
    rw [bare_single, outlineAt_eq hroot hvariant, hmode, hparts.1, hparts.2]
  refine ⟨?_, single_settled false 2 (some place) hpart hvariants hown⟩
  refine formsWith_settled (single false 2) (some place) hpart hvariants
    (fun place _ hpart hplace =>
      single_settled false 2 place hpart (fun _ hnil => by cases hnil) hplace) ?_ ?_
  · intro hempty
    rwa [hempty] at hown
  · intro p index variant hp hget
    cases hp
    have hbare : (bareParts mode).2[index]? = some variant.bare := by
      rw [← hparts.2, List.getElem?_map, hget, Option.map_some]
    rw [bare_single, Part.bare_inherit, outlineAt, hmode, hparts.1]
    simp only [hbare, Option.getD_some, List.map_nil]

theorem drop_eq_cons {α : Type} {elements rest : List α} {a : α} {index : Nat}
    (h : elements.drop index = a :: rest) :
    elements[index]? = some a ∧ elements.drop (index + 1) = rest := by
  constructor
  · rw [← List.head?_drop, h, List.head?_cons]
  · rw [← List.drop_drop, h, List.drop_succ_cons, List.drop_zero]

mutual
theorem parts_settled {mode : RawMode} {place : Place}
    (hmode : Place.modeAt meaning root place = mode) (hshares : mode.Shares meaning) :
    (parts (Place.locate place mode)).1.Every (Settled (outlineAt meaning root)) ∧
      ∀ variant ∈ (parts (Place.locate place mode)).2,
        variant.Every (Settled (outlineAt meaning root)) := by
  match mode with
  | .mk fields contains variants next =>
    rw [RawMode.Shares] at hshares
    obtain ⟨hcontains, hvariants, hnext⟩ := hshares
    rw [Place.locate, parts]
    refine ⟨⟨ofChildren_settled ?_ hcontains, ofNext_settled ?_ hnext⟩,
      variantParts_settled ?_ hvariants⟩ <;> rw [hmode] <;> rfl

theorem variantParts_settled {modes : List RawMode} {owner : Place} {index : Nat}
    (hmodes : (Place.modeAt meaning root owner).variants.drop index = modes)
    (hshares : RawMode.SharesVariants meaning modes) :
    ∀ variant ∈ variantParts (Place.locateVariants owner index modes),
      variant.Every (Settled (outlineAt meaning root)) := by
  match modes with
  | [] => simp [Place.locateVariants, variantParts]
  | mode :: modes =>
    obtain ⟨hmode, hrest⟩ := drop_eq_cons hmodes
    rw [RawMode.SharesVariants] at hshares
    have hat : Place.modeAt meaning root (.variant owner index) = mode := by
      rw [Place.modeAt, hmode, Option.getD_some]
    rw [Place.locateVariants, variantParts, List.forall_mem_cons]
    exact ⟨(parts_settled hat hshares.1).1, variantParts_settled hrest hshares.2⟩

theorem ofChildren_settled {children : List RawChild} {owner : Place} {index : Nat}
    (hchildren : (Place.modeAt meaning root owner).contains.drop index = children)
    (hshares : RawMode.SharesChildren meaning children) :
    EveryChild (Settled (outlineAt meaning root))
      (ofChildren (Place.locateChildren owner index children)) := by
  match children with
  | [] => simp [Place.locateChildren, ofChildren]
  | .itself :: children =>
    rw [RawMode.SharesChildren] at hshares
    rw [Place.locateChildren, ofChildren, everyChild_cons]
    exact ⟨everyNext_none, ofChildren_settled (drop_eq_cons hchildren).2 hshares⟩
  | .mode none mode :: children =>
    obtain ⟨hchild, hrest⟩ := drop_eq_cons hchildren
    rw [RawMode.SharesChildren] at hshares
    have hat : Place.modeAt meaning root (.child owner index) = mode := by
      rw [Place.modeAt, hchild]
    obtain ⟨hpart, hvariants⟩ := parts_settled hat hshares.2.1
    have hforms := (forms_settled (by simp) (by simp) hat hpart hvariants).1
    rw [Place.locateChildren, ofChildren, everyChild_append]
    exact ⟨everyChild_map_some.mpr hforms, ofChildren_settled hrest hshares.2.2⟩
  | .mode (some name) mode :: children =>
    obtain ⟨-, hrest⟩ := drop_eq_cons hchildren
    rw [RawMode.SharesChildren] at hshares
    have hat : Place.modeAt meaning root (.shared name) = mode := by
      rw [Place.modeAt, hshares.1 name rfl]
    obtain ⟨hpart, hvariants⟩ := parts_settled hat hshares.2.1
    have hforms := (forms_settled (by simp) (by simp) hat hpart hvariants).1
    rw [Place.locateChildren, ofChildren, everyChild_append]
    exact ⟨everyChild_map_some.mpr hforms, ofChildren_settled hrest hshares.2.2⟩

theorem ofNext_settled {next : Next (Option String)} {owner : Place}
    (hnext : (Place.modeAt meaning root owner).next = next)
    (hshares : RawMode.SharesNext meaning next) :
    EveryNext (Settled (outlineAt meaning root)) (ofNext (Place.locateNext owner next)) := by
  match next with
  | .nothing => simp [Place.locateNext, ofNext]
  | .mode none mode =>
    rw [RawMode.SharesNext] at hshares
    have hat : Place.modeAt meaning root (.next owner) = mode := by
      rw [Place.modeAt, hnext]
    obtain ⟨hpart, hvariants⟩ := parts_settled hat hshares.2
    rw [Place.locateNext, ofNext, everyNext_some]
    exact (forms_settled (by simp) (by simp) hat hpart hvariants).2
  | .mode (some name) mode =>
    rw [RawMode.SharesNext] at hshares
    have hat : Place.modeAt meaning root (.shared name) = mode := by
      rw [Place.modeAt, hshares.1 name rfl]
    obtain ⟨hpart, hvariants⟩ := parts_settled hat hshares.2
    rw [Place.locateNext, ofNext, everyNext_some]
    exact (forms_settled (by simp) (by simp) hat hpart hvariants).2
end

/-- Every mode in the outline of a tree in which names stand for modes is settled. -/
theorem ofRoot_settled (hshares : root.Shares meaning) :
    (ofRoot root).Every (Settled (outlineAt meaning root)) := by
  obtain ⟨hpart, hvariants⟩ := @parts_settled meaning root root .root rfl hshares
  have hparts := bare_parts (Place.locate .root root)
  rw [bareParts_locate] at hparts
  refine single_settled true 2 (some .root) hpart hvariants fun p hp => ?_
  cases hp
  rw [bare_single, hparts.1, hparts.2]
  rfl

end Outline

end Highlighter
