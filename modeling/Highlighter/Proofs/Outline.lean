import Highlighter.Outline

/-!
# What outlines have been checked for

The flags that cannot go with arrays of segments are refused mode by mode. Outlining keeps it that
way: a begin pattern that is made out of a shorthand is never an array, and a mode that is made for
what stands before another one has no flags at all.
-/

namespace Highlighter

/-- The flags of a mode go with its patterns: an array of segments is neither left out of the mode
nor given back. -/
structure ModeFields.Checked (fields : ModeFields) : Prop where
  begin : Outline.hasSegments fields.beginPattern = true →
    fields.skip = false ∧ fields.excludeBegin = false ∧ fields.returnBegin = false
  finish : Outline.hasSegments fields.endPattern = true →
    fields.skip = false ∧ fields.excludeEnd = false ∧ fields.returnEnd = false

namespace Outline

theorem checkSegments_eq_ok {fields : ModeFields} (h : checkSegments fields = .ok ()) :
    fields.Checked := by
  unfold checkSegments at h
  split at h
  · cases h
  · next hbegin =>
    split at h
    · cases h
    · next hfinish =>
      constructor
      · intro hsegments
        simpa [hsegments, and_assoc] using hbegin
      · intro hsegments
        simpa [hsegments, and_assoc] using hfinish

mutual
/-- Whatever a mode of the outline says about itself has been checked. -/
def Checked : Outline → Prop
  | .mk _ _ _ fields contains next =>
    (∀ sound, fields = .ok sound → sound.Checked) ∧ AllChecked contains ∧ NextChecked next

/-- Every mode in a list of outlines has been checked. -/
def AllChecked : List (Option Outline) → Prop
  | [] => True
  | none :: children => AllChecked children
  | some child :: children => child.Checked ∧ AllChecked children

/-- The mode that follows has been checked, if there is one. -/
def NextChecked : Option Outline → Prop
  | none => True
  | some next => next.Checked
end

theorem checked_mk {place : Option Place} {isTied : Bool} {hook : Option Hook}
    {fields : Except Misuse ModeFields} {contains : List (Option Outline)}
    {next : Option Outline} :
    (Outline.mk place isTied hook fields contains next).Checked ↔
      (∀ sound, fields = .ok sound → sound.Checked) ∧ AllChecked contains ∧ NextChecked next :=
  Iff.rfl

@[simp] theorem allChecked_nil : AllChecked [] :=
  trivial

@[simp] theorem nextChecked_none : NextChecked none :=
  trivial

@[simp] theorem nextChecked_some {next : Outline} : NextChecked (some next) ↔ next.Checked :=
  Iff.rfl

@[simp] theorem allChecked_cons {child : Option Outline} {children : List (Option Outline)} :
    AllChecked (child :: children) ↔ NextChecked child ∧ AllChecked children := by
  cases child with
  | none => exact (iff_of_eq (true_and _)).symm
  | some child => exact Iff.rfl

theorem allChecked_append {first second : List (Option Outline)} (hfirst : AllChecked first)
    (hsecond : AllChecked second) : AllChecked (first ++ second) := by
  induction first with
  | nil => exact hsecond
  | cons child children ih =>
    obtain ⟨hchild, hchildren⟩ := allChecked_cons.mp hfirst
    exact allChecked_cons.mpr ⟨hchild, ih hchildren⟩

theorem allChecked_map_some {outlines : List Outline} (h : ∀ outline ∈ outlines, outline.Checked) :
    AllChecked (outlines.map some) := by
  induction outlines with
  | nil => exact allChecked_nil
  | cons outline outlines ih =>
    have hrest := ih fun other hmem => h other (List.mem_cons_of_mem _ hmem)
    exact allChecked_cons.mpr ⟨nextChecked_some.mpr (h outline List.mem_cons_self), hrest⟩

/-- The modes below a mode have been checked. -/
structure Part.Checked (part : Part) : Prop where
  contains : AllChecked part.contains
  next : NextChecked part.next

theorem Part.Checked.inherit {base variant : Part} (hbase : base.Checked)
    (hvariant : variant.Checked) : (base.inherit variant).Checked where
  contains := by
    unfold Part.inherit
    split
    · exact hbase.contains
    · exact hvariant.contains
  next := by
    unfold Part.inherit
    cases hnext : variant.next with
    | none => exact hbase.next
    | some next =>
      have := hvariant.next
      rwa [hnext] at this

theorem mem_enumerateFrom {α : Type} {index place : Nat} {a : α} {elements : List α}
    (h : (place, a) ∈ enumerateFrom index elements) : a ∈ elements := by
  induction elements generalizing index with
  | nil => simp [enumerateFrom] at h
  | cons b elements ih =>
    simp only [enumerateFrom, List.mem_cons, Prod.mk.injEq] at h
    rcases h with ⟨_, rfl⟩ | h
    · exact List.mem_cons_self
    · exact List.mem_cons_of_mem _ (ih h)

theorem formsWith_checked (single : Option Place → Part → List Part → Outline)
    (hsingle : ∀ place part variants, part.Checked → (∀ variant ∈ variants, variant.Checked) →
      (single place part variants).Checked)
    (place : Option Place) {part : Part} {variants : List Part} (hpart : part.Checked)
    (hvariants : ∀ variant ∈ variants, variant.Checked) :
    ∀ outline ∈ formsWith single place part variants, outline.Checked := by
  intro outline hmem
  unfold formsWith at hmem
  split at hmem
  · cases List.mem_singleton.mp hmem
    exact hsingle _ _ _ hpart (fun _ hnil => by cases hnil)
  · obtain ⟨⟨index, variant⟩, hvariant, rfl⟩ := List.mem_map.mp hmem
    have hchecked := hvariants variant (mem_enumerateFrom hvariant)
    exact hsingle _ _ _ (hpart.inherit hchecked) (fun _ hnil => by cases hnil)

theorem expandKeywords_checked {atTop : Bool} {fields : ModeFields} (h : fields.Checked) :
    (expandKeywords atTop fields).1.Checked := by
  unfold expandKeywords
  split
  · exact ⟨fun hsegments => by simp [hasSegments, Pattern.isSegments, Pattern.parts?] at hsegments,
      h.finish⟩
  · exact h

theorem beforeFields_checked (before : Pattern) (fields : ModeFields) :
    (beforeFields before fields).Checked :=
  ⟨fun _ => ⟨rfl, rfl, rfl⟩, fun _ => ⟨rfl, rfl, rfl⟩⟩

theorem refuse_checked {place : Option Place} {isTied : Bool} (misuse : Misuse) :
    (Outline.mk place isTied none (.error misuse) [] none).Checked :=
  checked_mk.mpr ⟨fun _ hok => (by cases hok), allChecked_nil, nextChecked_none⟩

theorem checked_mk_ok {fields : ModeFields} {contains : List (Option Outline)}
    {next : Option Outline} (hfields : fields.Checked) (hcontains : AllChecked contains)
    (hnext : NextChecked next) (place : Option Place) (isTied : Bool) (hook : Option Hook) :
    (Outline.mk place isTied hook (.ok fields) contains next).Checked := by
  refine checked_mk.mpr ⟨fun sound hsound => ?_, hcontains, hnext⟩
  cases hsound
  exact hfields

theorem single_checked (atTop : Bool) (depth : Nat) (place : Option Place) {part : Part}
    {variants : List Part} (hpart : part.Checked)
    (hvariants : ∀ variant ∈ variants, variant.Checked) :
    (single atTop depth place part variants).Checked := by
  induction depth generalizing atTop place part variants with
  | zero =>
    unfold single
    split
    · exact refuse_checked _
    · split
      · exact refuse_checked _
      · next hchecked =>
        exact checked_mk_ok (expandKeywords_checked (checkSegments_eq_ok hchecked)) hpart.contains
          hpart.next _ _ _
  | succ depth ih =>
    unfold single
    split
    · exact refuse_checked _
    · next fields _ =>
      split
      · exact refuse_checked _
      · next hchecked =>
        simp only
        split
        · next hdepth _ =>
          cases hdepth
          split
          · exact refuse_checked _
          · -- the mode itself moves inside a bare mode
            have hinner : Part.Checked {
                fields := { fields with beforePattern := none, endsParent := true }
                contains := part.contains } := ⟨hpart.contains, nextChecked_none⟩
            have hforms := formsWith_checked (single false depth)
              (fun place _ _ hpart hvariants => ih false place hpart hvariants)
              none hinner hvariants
            have hbare : ModeFields.Checked { relevance := some 0 } :=
              ⟨fun _ => ⟨rfl, rfl, rfl⟩, fun _ => ⟨rfl, rfl, rfl⟩⟩
            have hnext := checked_mk_ok hbare (allChecked_map_some hforms) nextChecked_none
              none false none
            exact checked_mk_ok (beforeFields_checked _ fields) allChecked_nil
              (nextChecked_some.mpr hnext) _ _ _
        · exact checked_mk_ok (expandKeywords_checked (checkSegments_eq_ok hchecked))
            hpart.contains hpart.next _ _ _

mutual
theorem parts_checked (mode : Mode Place) :
    (parts mode).1.Checked ∧ ∀ variant ∈ (parts mode).2, variant.Checked := by
  match mode with
  | .mk fields contains variants next =>
    simp only [parts]
    exact ⟨⟨ofChildren_checked contains, ofNext_checked next⟩, variantParts_checked variants⟩

theorem variantParts_checked (modes : List (Mode Place)) :
    ∀ variant ∈ variantParts modes, variant.Checked := by
  match modes with
  | [] => simp [variantParts]
  | mode :: modes =>
    simp only [variantParts, List.mem_cons, forall_eq_or_imp]
    exact ⟨(parts_checked mode).1, variantParts_checked modes⟩

theorem ofChildren_checked (children : List (Child Place)) : AllChecked (ofChildren children) := by
  match children with
  | [] => simp [ofChildren]
  | .itself :: children =>
    simp only [ofChildren, allChecked_cons, nextChecked_none, true_and]
    exact ofChildren_checked children
  | .mode place mode :: children =>
    obtain ⟨hpart, hvariants⟩ := parts_checked mode
    have hforms := formsWith_checked (single false 2)
      (fun place _ _ hpart hvariants => single_checked false 2 place hpart hvariants)
      (some place) hpart hvariants
    simp only [ofChildren]
    exact allChecked_append (allChecked_map_some hforms) (ofChildren_checked children)

theorem ofNext_checked (next : Next Place) : NextChecked (ofNext next) := by
  match next with
  | .nothing => simp [ofNext]
  | .mode place mode =>
    obtain ⟨hpart, hvariants⟩ := parts_checked mode
    simp only [ofNext, nextChecked_some]
    exact single_checked false 2 (some place) hpart hvariants
end

/-- Everything in the outline of a grammar has been checked. -/
theorem ofRoot_checked (root : RawMode) : (ofRoot root).Checked := by
  obtain ⟨hpart, hvariants⟩ := parts_checked (Place.locate .root root)
  exact single_checked true 2 (some .root) hpart hvariants

end Outline

end Highlighter
