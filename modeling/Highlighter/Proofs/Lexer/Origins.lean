import Highlighter.Proofs.Lexer.Construction
import Highlighter.Proofs.Lexer.Numbers
import Highlighter.Proofs.Lexer.Terminators
import Highlighter.Proofs.Outline.Pruning

/-!
# Where the modes of a lexer come from

Every mode of a lexer has been built once, from an outline and inside a mode that got its number
before. The history of the construction keeps these origins by number. While some modes are open,
all that have numbers begin and end as their origins say, and those that are complete list the modes
that stand for the outlines inside theirs. At the end no mode is open, so that this holds of all of
them.
-/

namespace Highlighter

namespace Outline

/-- What an outline has inside it; a missing child is the mode itself. -/
def contains : Outline → List (Option Outline)
  | .mk _ _ _ _ contains _ => contains

/-- What follows an outline. -/
def next : Outline → Option Outline
  | .mk _ _ _ _ _ next => next

/-- A mode that ends with the mode around it is built anew for each of these. -/
def TiesEnding (outline : Outline) : Prop :=
  ∀ fields, outline.fields = .ok fields → fields.endsWithParent = true → outline.isTied = true

theorem tiesEnding_bare {outline : Outline} : outline.bare.TiesEnding ↔ outline.TiesEnding := by
  obtain ⟨place, isTied, hook, fields, contains, next⟩ := outline
  rw [bare_mk]
  exact Iff.rfl

mutual
/-- A property that does not depend on places holds of all modes of an outline if it does without
the places. -/
theorem every_bare {property : Outline → Prop}
    (hproperty : ∀ outline : Outline, property outline.bare ↔ property outline)
    {outline : Outline} : outline.bare.Every property ↔ outline.Every property := by
  match outline with
  | .mk place isTied hook fields contains next =>
    have hself := hproperty (.mk place isTied hook fields contains next)
    rw [bare_mk] at hself ⊢
    rw [every_mk, every_mk, hself, everyChild_bare hproperty, everyNext_bare hproperty]

theorem everyChild_bare {property : Outline → Prop}
    (hproperty : ∀ outline : Outline, property outline.bare ↔ property outline)
    {children : List (Option Outline)} :
    EveryChild property (bareAll children) ↔ EveryChild property children := by
  match children with
  | [] => rw [bareAll_nil]
  | child :: children =>
    rw [bareAll_cons, everyChild_cons, everyChild_cons, everyNext_bare hproperty,
      everyChild_bare hproperty]

theorem everyNext_bare {property : Outline → Prop}
    (hproperty : ∀ outline : Outline, property outline.bare ↔ property outline)
    {next : Option Outline} : EveryNext property (bareNext next) ↔ EveryNext property next := by
  match next with
  | none => rw [bareNext_none]
  | some next => rw [bareNext_some, everyNext_some, everyNext_some, every_bare hproperty]
end

end Outline

mutual
/-- In a tree without names, names stand for whatever one likes. -/
theorem RawMode.shares_unfold (meaning : String → RawMode) (mode : RawMode) :
    mode.unfold.Shares meaning := by
  match mode with
  | .mk fields contains variants next =>
    rw [RawMode.unfold, RawMode.Shares]
    exact ⟨RawMode.sharesChildren_unfold meaning contains,
      RawMode.sharesVariants_unfold meaning variants, RawMode.sharesNext_unfold meaning next⟩

theorem RawMode.sharesChildren_unfold (meaning : String → RawMode) (children : List RawChild) :
    RawMode.SharesChildren meaning (RawMode.unfoldChildren children) := by
  match children with
  | [] => simp [RawMode.unfoldChildren, RawMode.SharesChildren]
  | .itself :: children =>
    rw [RawMode.unfoldChildren, RawMode.SharesChildren]
    exact RawMode.sharesChildren_unfold meaning children
  | .mode key mode :: children =>
    rw [RawMode.unfoldChildren, RawMode.SharesChildren]
    exact ⟨nofun, RawMode.shares_unfold meaning mode,
      RawMode.sharesChildren_unfold meaning children⟩

theorem RawMode.sharesVariants_unfold (meaning : String → RawMode) (modes : List RawMode) :
    RawMode.SharesVariants meaning (RawMode.unfoldVariants modes) := by
  match modes with
  | [] => simp [RawMode.unfoldVariants, RawMode.SharesVariants]
  | mode :: modes =>
    rw [RawMode.unfoldVariants, RawMode.SharesVariants]
    exact ⟨RawMode.shares_unfold meaning mode, RawMode.sharesVariants_unfold meaning modes⟩

theorem RawMode.sharesNext_unfold (meaning : String → RawMode) (next : Next (Option String)) :
    RawMode.SharesNext meaning (RawMode.unfoldNext next) := by
  match next with
  | .nothing => simp [RawMode.unfoldNext, RawMode.SharesNext]
  | .mode key mode =>
    rw [RawMode.unfoldNext, RawMode.SharesNext]
    exact ⟨nofun, RawMode.shares_unfold meaning mode⟩
end

/-- All modes of a grammar that end with the mode around them are tied. -/
theorem Outline.ofRoot_tiesEnding (root : RawMode) : (ofRoot root).Every TiesEnding := by
  have hbare : (ofRoot root).bare = (ofRoot root.unfold).bare := by
    rw [bare_ofRoot, bare_ofRoot, bareParts_unfold, bareParts_unfold, bareParts_unfold]
  rw [← every_bare fun _ => tiesEnding_bare, hbare, every_bare fun _ => tiesEnding_bare]
  refine (ofRoot_settled (root.shares_unfold fun _ => default)).imp fun outline hevery => ?_
  obtain ⟨place, isTied, hook, fields, contains, next⟩ := outline
  intro sound hsound hends
  cases isTied with
  | true => rfl
  | false =>
    have huntied := ((every_mk.mp hevery).1.untied _ _ _ _ _ rfl).1 sound hsound
    exact absurd (huntied.symm.trans hends) Bool.false_ne_true

namespace Lexer

/-! ## Origins -/

/-- What a mode of a lexer has been built from: its outline, and the number of the mode in which it
has been built, which the top mode does not have. -/
structure Origin where
  parent : Option Nat
  outline : Outline

/-- A number stands for an outline inside mode `owner`: that is what it has been built from there,
or, for an outline that is not tied, what has been built before from the same place. -/
inductive StandsFor (history : List Origin) (owner : Nat) (outline : Outline) (number : Nat) :
    Prop where
  | built (h : history[number]? = some ⟨some owner, outline⟩) :
      StandsFor history owner outline number
  | again {origin : Origin} {place : Place} (h : history[number]? = some origin)
      (hplace : outline.place = some place) (hsame : origin.outline.place = some place)
      (htied : outline.isTied = false) (huntied : origin.outline.isTied = false) :
      StandsFor history owner outline number

/-- A number is listed for a child of mode `owner`: for a missing child, it is that of the mode. -/
def Fills (history : List Origin) (owner : Nat) : Option Outline → Nat → Prop
  | none, number => number = owner
  | some child, number => StandsFor history owner child number

/-- A number is that of the mode that follows a mode which has been built inside `parent`. -/
def Succeeds (history : List Origin) (parent : Option Nat) (following : Outline) (number : Nat) :
    Prop :=
  ∃ owner, parent = some owner ∧ StandsFor history owner following number

variable {grammar : Grammar} {history later : List Origin} {opened : List Nat}
  {draft draft' between : Draft} {owner number : Nat} {outline : Outline} {parent : Option Nat}

theorem StandsFor.lt (h : StandsFor history owner outline number) : number < history.length := by
  cases h with
  | built h => exact (List.getElem?_eq_some_iff.mp h).1
  | again h => exact (List.getElem?_eq_some_iff.mp h).1

theorem getElem?_append_of_some {origin : Origin} (h : history[number]? = some origin) :
    (history ++ later)[number]? = some origin := by
  rw [List.getElem?_append_left (List.getElem?_eq_some_iff.mp h).1, h]

theorem StandsFor.append (h : StandsFor history owner outline number) :
    StandsFor (history ++ later) owner outline number := by
  cases h with
  | built h => exact .built (getElem?_append_of_some h)
  | again h hplace hsame htied huntied =>
    exact .again (getElem?_append_of_some h) hplace hsame htied huntied

theorem Fills.append {child : Option Outline} (h : Fills history owner child number) :
    Fills (history ++ later) owner child number := by
  cases child with
  | none => exact h
  | some child => exact StandsFor.append h

theorem Succeeds.append (h : Succeeds history parent outline number) :
    Succeeds (history ++ later) parent outline number := by
  obtain ⟨owner, hparent, hstands⟩ := h
  exact ⟨owner, hparent, hstands.append⟩

theorem lt_of_fills {children : List (Option Outline)} {numbers : List Nat}
    (h : List.Forall₂ (Fills history owner) children numbers) (howner : owner < history.length) :
    ∀ number ∈ numbers, number < history.length := by
  induction h with
  | nil => exact fun _ hmem => (by cases hmem)
  | @cons child number _ _ hchild _ ih =>
    refine List.forall_mem_cons.mpr ⟨?_, ih⟩
    cases child with
    | none => exact hchild ▸ howner
    | some child => exact StandsFor.lt hchild

/-! ## How modes begin and end -/

/-- The end pattern of a mode itself, unless it is empty. -/
def ownEnd (fields : ModeFields) : Option String :=
  (endSource fields).filter fun source => !source.isEmpty

/-- A mode begins and ends as its fields say, where `outer` is the end rule of the mode around it.
The top mode, which is inside no other one, does neither. -/
structure MadeFrom (fields : ModeFields) (outer : Option (Option String)) (mode : LexerMode) :
    Prop where
  endsWithParent : mode.endsWithParent = fields.endsWithParent
  beginSource : mode.beginSource =
    outer.map fun _ => Outline.sourceOrAnywhere fields.beginPattern
  terminator : mode.terminator = outer.bind fun inherited =>
    if fields.endsWithParent then
      Option.merge (fun own inherited => own ++ "|" ++ inherited) (ownEnd fields) inherited
    else ownEnd fields

/-- A mode that ends with the mode around it ends with either of the two ends. -/
theorem terminatorOf_eq (fields : ModeFields) (own outer : Option String) :
    terminatorOf fields own outer =
      if fields.endsWithParent then
        Option.merge (fun own inherited => own ++ "|" ++ inherited)
          (own.filter fun source => !source.isEmpty) outer
      else own.filter fun source => !source.isEmpty := by
  simp only [terminatorOf]
  cases own.filter fun source => !source.isEmpty <;> cases outer <;> rfl

theorem madeFrom_of_modeOf {fields : ModeFields} {hook : Option Hook} {around : Option LexerMode}
    {mode : LexerMode} (h : modeOf grammar fields hook around = .ok mode) :
    MadeFrom fields (around.map (·.terminator)) mode := by
  obtain ⟨hends, hbegin, hterminator, -⟩ := modeOf_sources h
  refine ⟨hends, ?_, ?_⟩
  · cases around <;> exact hbegin
  · rw [hterminator]
    cases around with
    | none => simp [terminatorOf]
    | some around =>
      rw [if_pos Option.isSome_some, Option.bind_some, terminatorOf_eq]
      rfl

/-- Two modes begin and end alike. -/
structure SameEdges (mode mode' : LexerMode) : Prop where
  endsWithParent : mode.endsWithParent = mode'.endsWithParent
  beginSource : mode.beginSource = mode'.beginSource
  terminator : mode.terminator = mode'.terminator

theorem MadeFrom.of_sameEdges {fields : ModeFields} {outer : Option (Option String)}
    {mode mode' : LexerMode} (h : MadeFrom fields outer mode') (hedges : SameEdges mode mode') :
    MadeFrom fields outer mode where
  endsWithParent := hedges.endsWithParent.trans h.endsWithParent
  beginSource := hedges.beginSource.trans h.beginSource
  terminator := hedges.terminator.trans h.terminator

/-! ## The history of a draft -/

/-- A mode that is complete lists what stands for the outlines inside its own, goes on with what
stands for the one that follows, and has the rules for all of this. -/
structure Draft.Completed (history : List Origin) (draft : Draft) (number : Nat) (origin : Origin) :
    Prop where
  contains : List.Forall₂ (Fills history number) origin.outline.contains
    (draft.modes.getD number default).contains
  next : Option.Rel (Succeeds history origin.parent) origin.outline.next
    (draft.modes.getD number default).next
  rules : (draft.modes.getD number default).rules.rules =
    rulesOf ⟨draft.modes, []⟩ (draft.modes.getD number default)
      (draft.modes.getD number default).contains

/-- The history of a draft in which some modes are open: the modes begin and end as their origins
say, and those that are not open are complete. -/
structure Draft.Recorded (opened : List Nat) (history : List Origin) (draft : Draft) : Prop where
  length : history.length = draft.modes.size
  inside : ∀ (number : Nat) (origin : Origin), history[number]? = some origin →
    (origin.parent = none ↔ number = root) ∧ ∀ owner, origin.parent = some owner → owner < number
  ties : ∀ (number : Nat) (origin : Origin), history[number]? = some origin →
    origin.outline.TiesEnding
  made : ∀ (number : Nat) (origin : Origin), history[number]? = some origin →
    ∃ fields, origin.outline.fields = .ok fields ∧
      MadeFrom fields (draft.outer origin.parent) (draft.modes.getD number default)
  completed : ∀ (number : Nat) (origin : Origin), history[number]? = some origin → number ∉ opened →
    draft.Completed history number origin
  known : ∀ (place : Place) (number : Nat), draft.known.lookup place = some number →
    ∃ origin : Origin, history[number]? = some origin ∧ origin.outline.place = some place ∧
      origin.outline.isTied = false

theorem Draft.outer_of_sameEdges
    (h : ∀ number < draft.modes.size,
      SameEdges (draft'.modes.getD number default) (draft.modes.getD number default))
    (hparent : ∀ owner, parent = some owner → owner < draft.modes.size) :
    draft'.outer parent = draft.outer parent := by
  cases parent with
  | none => rfl
  | some owner =>
    simp only [Draft.outer, Option.map_some]
    rw [(h owner (hparent owner rfl)).terminator]

/-- What is complete stays so, as long as no mode begins or ends in another way. -/
theorem Draft.Completed.mono {origin : Origin} (h : draft.Completed history number origin)
    (hnumber : number < history.length) (hlength : history.length = draft.modes.size)
    (hedges : ∀ number < draft.modes.size,
      SameEdges (draft'.modes.getD number default) (draft.modes.getD number default))
    (hsame : draft'.modes.getD number default = draft.modes.getD number default) :
    draft'.Completed (history ++ later) number origin := by
  have hlisted := lt_of_fills h.contains hnumber
  refine ⟨?_, ?_, ?_⟩
  · rw [hsame]
    exact h.contains.imp fun _ _ => Fills.append
  · rw [hsame]
    have hnext := h.next
    generalize origin.outline.next = next at hnext ⊢
    generalize (draft.modes.getD number default).next = following at hnext ⊢
    cases hnext with
    | none => exact .none
    | some hsucceeds => exact .some hsucceeds.append
  · rw [hsame, h.rules]
    refine rulesOf_congr fun inner hinner => ?_
    exact ((hedges inner (hlength ▸ hlisted inner hinner)).beginSource).symm

theorem Draft.sameEdges_push (draft : Draft) (mode : LexerMode) :
    ∀ number < draft.modes.size, SameEdges ((draft.push mode).modes.getD number default)
      (draft.modes.getD number default) := by
  intro number hnumber
  rw [(draft.push_extends mode).kept number hnumber]
  exact ⟨rfl, rfl, rfl⟩

/-- A mode that has just got its number is open, and begins and ends as its outline says. -/
theorem Draft.Recorded.push {fields : ModeFields} {mode : LexerMode}
    (h : draft.Recorded opened history)
    (hparent : ∀ owner, parent = some owner → owner < draft.modes.size)
    (htop : parent = none ↔ draft.modes.size = root) (hties : outline.TiesEnding)
    (hfields : outline.fields = .ok fields) (hmode : MadeFrom fields (draft.outer parent) mode) :
    (draft.push mode).Recorded (draft.modes.size :: opened) (history ++ [⟨parent, outline⟩]) := by
  have hedges := draft.sameEdges_push mode
  have hcases : ∀ {number : Nat} {origin : Origin},
      (history ++ [⟨parent, outline⟩])[number]? = some origin →
        history[number]? = some origin ∨
          number = draft.modes.size ∧ origin = ⟨parent, outline⟩ := by
    intro number origin horigin
    rw [List.getElem?_append] at horigin
    split at horigin
    · exact .inl horigin
    · next hle =>
      obtain ⟨hlt, heq⟩ := List.getElem?_eq_some_iff.mp horigin
      simp only [List.length_singleton] at hlt
      refine .inr ⟨by rw [← h.length]; omega, ?_⟩
      rw [← heq, List.getElem_singleton]
  have hold : ∀ {number : Nat} {origin : Origin}, history[number]? = some origin →
      number < draft.modes.size := fun horigin =>
    h.length ▸ (List.getElem?_eq_some_iff.mp horigin).1
  refine ⟨?_, ?_, ?_, ?_, ?_, ?_⟩
  · rw [List.length_append, h.length]
    simp [Draft.push]
  · intro number origin horigin
    rcases hcases horigin with hbefore | ⟨rfl, rfl⟩
    · exact h.inside number origin hbefore
    · exact ⟨htop, hparent⟩
  · intro number origin horigin
    rcases hcases horigin with hbefore | ⟨rfl, rfl⟩
    · exact h.ties number origin hbefore
    · exact hties
  · intro number origin horigin
    rcases hcases horigin with hbefore | ⟨rfl, rfl⟩
    · obtain ⟨sound, hsound, hmade⟩ := h.made number origin hbefore
      refine ⟨sound, hsound, ?_⟩
      rw [Draft.outer_of_sameEdges hedges fun owner howner =>
        Nat.lt_trans ((h.inside number origin hbefore).2 owner howner) (hold hbefore)]
      exact hmade.of_sameEdges (hedges number (hold hbefore))
    · refine ⟨fields, hfields, ?_⟩
      rw [Draft.outer_of_sameEdges hedges hparent, draft.getD_push_size]
      exact hmode
  · intro number origin horigin hopened
    rcases hcases horigin with hbefore | ⟨rfl, rfl⟩
    · refine (h.completed number origin hbefore fun hmem =>
        hopened (List.mem_cons_of_mem _ hmem)).mono ?_ h.length hedges ?_
      · exact (List.getElem?_eq_some_iff.mp hbefore).1
      · exact (draft.push_extends mode).kept number (hold hbefore)
    · exact absurd (List.mem_cons_self ..) hopened
  · intro place number hknown
    obtain ⟨origin, horigin, hrest⟩ := h.known place number hknown
    exact ⟨origin, getElem?_append_of_some horigin, hrest⟩

theorem Draft.sameEdges_replace {mode : LexerMode}
    (hmode : SameEdges mode (draft.modes.getD owner default)) :
    ∀ number < draft.modes.size,
      SameEdges ((draft.replace owner mode).modes.getD number default)
        (draft.modes.getD number default) := by
  intro number hnumber
  by_cases heq : number = owner
  · subst heq
    rw [draft.getD_replace_self mode hnumber]
    exact hmode
  · rw [Draft.getD_replace_of_ne mode heq]
    exact ⟨rfl, rfl, rfl⟩

/-- A mode is closed once it is complete. -/
theorem Draft.Recorded.replace {origin : Origin} {numbers : List Nat} {following : Option Nat}
    {rules : RuleSet} {mode : LexerMode} (h : draft.Recorded (owner :: opened) history)
    (horigin : history[owner]? = some origin) (hmode : draft.modes.getD owner default = mode)
    (hcontains : List.Forall₂ (Fills history owner) origin.outline.contains numbers)
    (hnext : Option.Rel (Succeeds history origin.parent) origin.outline.next following)
    (hrules : rules.rules = rulesOf draft mode numbers) :
    (draft.replace owner { mode with contains := numbers, next := following, rules := rules })
      |>.Recorded opened history := by
  have hlt : ∀ {number : Nat} {origin : Origin}, history[number]? = some origin →
      number < draft.modes.size := fun horigin =>
    h.length ▸ (List.getElem?_eq_some_iff.mp horigin).1
  have hedges := @Draft.sameEdges_replace draft owner
    { mode with contains := numbers, next := following, rules := rules } (by
      rw [hmode]; exact ⟨rfl, rfl, rfl⟩)
  refine ⟨?_, h.inside, h.ties, ?_, ?_, h.known⟩
  · rw [h.length]
    simp [Draft.replace]
  · intro number other hother
    obtain ⟨fields, hfields, hmade⟩ := h.made number other hother
    refine ⟨fields, hfields, ?_⟩
    rw [Draft.outer_of_sameEdges hedges fun around haround =>
      Nat.lt_trans ((h.inside number other hother).2 around haround) (hlt hother)]
    exact hmade.of_sameEdges (hedges number (hlt hother))
  · intro number other hother hopened
    by_cases heq : number = owner
    · subst heq
      cases horigin.symm.trans hother
      have hself := draft.getD_replace_self
        { mode with contains := numbers, next := following, rules := rules } (hlt hother)
      refine ⟨by rw [hself]; exact hcontains, by rw [hself]; exact hnext, ?_⟩
      rw [hself]
      refine hrules.trans (rulesOf_congr fun inner hinner => ?_)
      have hinner := lt_of_fills hcontains (List.getElem?_eq_some_iff.mp horigin).1 inner hinner
      exact ((hedges inner (h.length ▸ hinner)).beginSource).symm
    · have hcompleted := h.completed number other hother fun hmem =>
        (List.mem_cons.mp hmem).elim heq hopened
      have hkept := @Draft.Completed.mono history [] draft _ number other hcompleted
        (List.getElem?_eq_some_iff.mp hother).1 h.length hedges (Draft.getD_replace_of_ne _ heq)
      rwa [List.append_nil] at hkept

/-- A number that is known for a place has been given to what was built there. -/
theorem Draft.Recorded.recall (h : draft.Recorded opened history)
    (hrecall : draft.recall outline = some number) (owner : Nat) :
    StandsFor history owner outline number := by
  obtain ⟨place, isTied, hook, fields, contains, next⟩ := outline
  cases isTied with
  | true => cases hrecall
  | false =>
    cases place with
    | none => cases hrecall
    | some place =>
      obtain ⟨origin, horigin, hplace, htied⟩ := h.known place number hrecall
      exact .again horigin rfl hplace rfl htied

theorem Draft.Recorded.note (h : draft.Recorded opened history)
    (horigin : history[number]? = some ⟨some owner, outline⟩) :
    (draft.note outline number).Recorded opened history := by
  obtain ⟨place, isTied, hook, fields, contains, next⟩ := outline
  cases isTied with
  | true => exact h
  | false =>
    cases place with
    | none => exact h
    | some place =>
      refine ⟨h.length, h.inside, h.ties, h.made, fun other origin hother hopened => ?_, ?_⟩
      · obtain ⟨hcontains, hnext, hrules⟩ := h.completed other origin hother hopened
        exact ⟨hcontains, hnext, hrules⟩
      · intro other known hknown
        simp only [Draft.note, Outline.isTied, Outline.place, List.lookup_cons] at hknown
        split at hknown
        · next heq =>
          cases hknown
          exact ⟨_, horigin, congrArg some (beq_iff_eq.mp heq).symm, rfl⟩
        · exact h.known other known hknown

/-! ## The construction keeps its history -/

theorem builds_of_run {α β : Type} {x : Build α} {f : α → Build β} {a : α} {b : β}
    (hx : x.run draft = .ok (a, between)) (h : Builds (x >>= f) draft b draft') :
    Builds (f a) between b draft' := by
  unfold Builds at h ⊢
  rwa [run_bind_of_ok hx] at h

theorem complete_builds {numbers : List Nat} {following : Option Nat} {u : Unit}
    (h : Builds (complete grammar number numbers following) draft u draft') :
    ∃ rules : RuleSet,
      rules.rules = rulesOf draft (draft.modes.getD number default) numbers ∧
      draft' = draft.replace number { draft.modes.getD number default with
        contains := numbers, next := following, rules := rules } := by
  have h := builds_of_run (get_run draft) h
  simp only at h
  split at h
  · exact absurd h not_builds_throw
  · next rules hrules =>
    exact ⟨rules, (RuleSet.build_eq_ok hrules).1, (builds_set_iff.mp h).symm⟩

/-- A mode inside mode `owner` gets a number that stands for it, whether it is found again or built
anew. -/
theorem obtainMode_recorded (hdraft : draft.Recorded opened history)
    (hbuild : ∀ {number : Nat} {draft' : Draft},
      Builds (buildMode grammar (some owner) outline) draft number draft' →
        number = draft.modes.size ∧ ∃ later, draft'.Extends draft ∧
          draft'.Recorded opened (history ++ ⟨some owner, outline⟩ :: later))
    (h : Builds (obtainMode grammar owner outline) draft number draft') :
    ∃ later, draft'.Extends draft ∧ draft'.Recorded opened (history ++ later) ∧
      StandsFor (history ++ later) owner outline number := by
  have h := builds_of_run (known?_run outline draft) h
  cases hrecall : draft.recall outline with
  | some known =>
    rw [hrecall] at h
    obtain ⟨rfl, rfl⟩ := builds_pure_iff.mp h
    refine ⟨[], .refl draft, ?_, ?_⟩ <;> rw [List.append_nil]
    · exact hdraft
    · exact hdraft.recall hrecall owner
  | none =>
    rw [hrecall] at h
    obtain ⟨built, between, hbuilt, h⟩ := builds_bind_iff.mp h
    obtain ⟨rfl, later, hextends, hrecorded⟩ := hbuild hbuilt
    have h := builds_of_run (remember_run outline draft.modes.size between) h
    obtain ⟨rfl, rfl⟩ := builds_pure_iff.mp h
    have horigin : (history ++ ⟨some owner, outline⟩ :: later)[draft.modes.size]? =
        some ⟨some owner, outline⟩ := by
      rw [← hdraft.length, List.getElem?_append_right (Nat.le_refl _)]
      simp
    refine ⟨_, ⟨?_, ?_⟩, hrecorded.note horigin, .built horigin⟩
    · rw [between.modes_note]
      exact hextends.size_le
    · rw [between.modes_note]
      exact hextends.kept

-- The history grows by the origin of a mode before the modes inside it get theirs, so that the
-- mode is there as the parent of these.
mutual
theorem buildMode_recorded {grammar : Grammar} {opened : List Nat} {history : List Origin}
    {draft draft' : Draft} {parent : Option Nat} {outline : Outline} {number : Nat}
    (houtline : outline.Every Outline.TiesEnding)
    (hparent : ∀ owner, parent = some owner → owner < draft.modes.size)
    (htop : parent = none ↔ draft.modes.size = root) (hdraft : draft.Recorded opened history)
    (h : Builds (buildMode grammar parent outline) draft number draft') :
    number = draft.modes.size ∧ ∃ later, draft'.Extends draft ∧
      draft'.Recorded opened (history ++ ⟨parent, outline⟩ :: later) := by
  match outline with
  | .mk place isTied hook fields contains next =>
    obtain ⟨hties, hcontains, hnext⟩ := Outline.every_mk.mp houtline
    rw [buildMode] at h
    have h := builds_of_run (get_run draft) h
    obtain ⟨mode, _, hlift, h⟩ := builds_bind_iff.mp h
    obtain ⟨hok, rfl⟩ := builds_lift_iff.mp hlift
    obtain ⟨sound, hsound, hmode⟩ := ok_of_bind_eq_ok hok
    have h := builds_of_run (add_run mode draft) h
    have hadded := hdraft.push hparent htop hties hsound (madeFrom_of_modeOf hmode)
    have hsize : draft.modes.size < (draft.push mode).modes.size := by simp [Draft.push]
    obtain ⟨numbers, surrounded, hchildren, h⟩ := builds_bind_iff.mp h
    obtain ⟨inner, hsurrounded, hbuilt, hnumbers⟩ :=
      buildChildren_recorded hcontains hsize hadded hchildren
    obtain ⟨following, followed, hfollowing, h⟩ := builds_bind_iff.mp h
    obtain ⟨behind, hfollowed, hgone, hsucceeds⟩ := buildNext_recorded hnext
      (fun owner howner => Nat.lt_of_lt_of_le (Nat.lt_trans (hparent owner howner) hsize)
        hsurrounded.size_le) hbuilt hfollowing
    obtain ⟨_, _, hcomplete, h⟩ := builds_bind_iff.mp h
    obtain ⟨rfl, rfl⟩ := builds_pure_iff.mp h
    obtain ⟨rules, hrules, rfl⟩ := complete_builds hcomplete
    have hextends := (hfollowed.trans hsurrounded).trans (draft.push_extends mode)
    let origin : Origin := ⟨parent, .mk place isTied hook fields contains next⟩
    have horigin : (history ++ [origin] ++ inner ++ behind)[draft.modes.size]? = some origin := by
      rw [List.append_assoc, List.append_assoc, ← hdraft.length,
        List.getElem?_append_right (Nat.le_refl _)]
      simp
    have hclosed := hgone.replace horigin rfl (hnumbers.imp fun _ _ => Fills.append) hsucceeds
      hrules
    refine ⟨rfl, inner ++ behind, hextends.replace (Nat.le_refl _) _, ?_⟩
    rw [List.append_cons, ← List.append_assoc]
    exact hclosed

theorem buildChildren_recorded {grammar : Grammar} {opened : List Nat} {history : List Origin}
    {draft draft' : Draft} {atTop : Bool} {owner : Nat} {children : List (Option Outline)}
    {numbers : List Nat} (hchildren : Outline.EveryChild Outline.TiesEnding children)
    (howner : owner < draft.modes.size) (hdraft : draft.Recorded opened history)
    (h : Builds (buildChildren grammar atTop owner children) draft numbers draft') :
    ∃ later, draft'.Extends draft ∧ draft'.Recorded opened (history ++ later) ∧
      List.Forall₂ (Fills (history ++ later) owner) children numbers := by
  match children with
  | [] =>
    rw [buildChildren] at h
    obtain ⟨rfl, rfl⟩ := builds_pure_iff.mp h
    exact ⟨[], .refl draft, by rwa [List.append_nil], .nil⟩
  | none :: children =>
    rw [buildChildren] at h
    split at h
    · obtain ⟨_, _, hthrow, _⟩ := builds_bind_iff.mp h
      exact absurd hthrow not_builds_throw
    · obtain ⟨rest, _, hrest, h⟩ := builds_bind_iff.mp h
      obtain ⟨rfl, rfl⟩ := builds_pure_iff.mp h
      obtain ⟨-, hchildren⟩ := Outline.everyChild_cons.mp hchildren
      obtain ⟨later, hextends, hrecorded, hnumbers⟩ :=
        buildChildren_recorded hchildren howner hdraft hrest
      exact ⟨later, hextends, hrecorded, .cons rfl hnumbers⟩
  | some child :: children =>
    obtain ⟨hchild, hchildren⟩ := Outline.everyChild_cons.mp hchildren
    rw [buildChildren_some] at h
    obtain ⟨first, between, hobtain, h⟩ := builds_bind_iff.mp h
    obtain ⟨inner, hobtained, hrecorded, hfirst⟩ := obtainMode_recorded hdraft
      (fun hbuild => buildMode_recorded (Outline.everyNext_some.mp hchild)
        (fun _ heq => by cases heq; exact howner)
        ⟨nofun, fun heq => absurd howner (heq ▸ Nat.not_lt_zero _)⟩ hdraft hbuild) hobtain
    obtain ⟨rest, _, hrest, h⟩ := builds_bind_iff.mp h
    obtain ⟨rfl, rfl⟩ := builds_pure_iff.mp h
    obtain ⟨later, hextends, hrecorded, hnumbers⟩ := buildChildren_recorded hchildren
      (Nat.lt_of_lt_of_le howner hobtained.size_le) hrecorded hrest
    rw [List.append_assoc] at hrecorded hnumbers
    refine ⟨inner ++ later, hextends.trans hobtained, hrecorded, .cons ?_ hnumbers⟩
    rw [← List.append_assoc]
    exact StandsFor.append hfirst

theorem buildNext_recorded {grammar : Grammar} {opened : List Nat} {history : List Origin}
    {draft draft' : Draft} {parent : Option Nat} {next : Option Outline} {following : Option Nat}
    (hnext : Outline.EveryNext Outline.TiesEnding next)
    (hparent : ∀ owner, parent = some owner → owner < draft.modes.size)
    (hdraft : draft.Recorded opened history)
    (h : Builds (buildNext grammar parent next) draft following draft') :
    ∃ later, draft'.Extends draft ∧ draft'.Recorded opened (history ++ later) ∧
      Option.Rel (Succeeds (history ++ later) parent) next following := by
  match next with
  | none =>
    rw [buildNext] at h
    obtain ⟨rfl, rfl⟩ := builds_pure_iff.mp h
    exact ⟨[], .refl draft, by rwa [List.append_nil], .none⟩
  | some outline =>
    cases parent with
    | none =>
      rw [buildNext] at h
      exact absurd h not_builds_throw
    | some owner =>
      have howner := hparent owner rfl
      rw [buildNext_some] at h
      obtain ⟨number, between, hobtain, h⟩ := builds_bind_iff.mp h
      obtain ⟨rfl, rfl⟩ := builds_pure_iff.mp h
      obtain ⟨later, hextends, hrecorded, hnumber⟩ := obtainMode_recorded hdraft
        (fun hbuild => buildMode_recorded (Outline.everyNext_some.mp hnext) hparent
          ⟨nofun, fun heq => absurd howner (heq ▸ Nat.not_lt_zero _)⟩ hdraft hbuild) hobtain
      exact ⟨later, hextends, hrecorded, .some ⟨owner, rfl, hnumber⟩⟩
end

/-! ## Complete lexers -/

/-- The modes of a lexer, by number, are what has been built from their origins. -/
structure IsBuilt (grammar : Grammar) (history : List Origin) (lexer : Lexer) : Prop where
  length : history.length = lexer.modeCount
  top : history[root]? = some ⟨none, Outline.ofRoot grammar.root⟩
  /-- The top mode neither begins nor ends. -/
  top_edges : (lexer.mode root).beginSource = none ∧ (lexer.mode root).terminator = none
  /-- Modes refer to modes below the top mode only, and their rules begin such modes. -/
  contains_inner : ∀ number, ∀ inner ∈ (lexer.mode number).contains, IsInner lexer.modeCount inner
  next_inner : ∀ number inner, (lexer.mode number).next = some inner →
    IsInner lexer.modeCount inner
  begins_inner : ∀ number, ∀ rule ∈ (lexer.mode number).rules.rules, ∀ inner,
    rule.kind = .begin inner → IsInner lexer.modeCount inner
  /-- The rules of a mode begin the modes inside it, in their order; its end and what is illegal in
  it come last. -/
  rules : ∀ number < lexer.modeCount, (lexer.mode number).rules.rules =
    (lexer.mode number).contains.map (fun inner =>
      ⟨((lexer.mode inner).beginSource).getD "", .begin inner⟩) ++
    ((lexer.mode number).terminator.map fun source => ⟨source, .finish⟩).toList ++
    ((lexer.mode number).illegal.map fun source => ⟨source, .illegal⟩).toList
  /-- A mode that stands inside itself is listed by its own number. -/
  itself : ∀ (number : Nat) (origin : Origin) (place : Nat), history[number]? = some origin →
    origin.outline.contains[place]? = some none →
    (lexer.mode number).contains[place]? = some number
  contains : ∀ (number : Nat) (origin : Origin), history[number]? = some origin →
    List.Forall₂ (Fills history number) origin.outline.contains (lexer.mode number).contains
  next : ∀ (number : Nat) (origin : Origin), history[number]? = some origin →
    Option.Rel (Succeeds history origin.parent) origin.outline.next (lexer.mode number).next
  /-- A mode below the top mode has been built in one that got its number before. It begins, and it
  ends with its own end pattern or, where it ends with the mode around it, with that one or the end
  of the mode in which it has been built. -/
  edges : ∀ (number : Nat) (origin : Origin), history[number]? = some origin → number ≠ root →
    ∃ owner < number, origin.parent = some owner ∧
      ∃ fields, origin.outline.fields = .ok fields ∧
        (lexer.mode number).endsWithParent = fields.endsWithParent ∧
        (lexer.mode number).beginSource = some (Outline.sourceOrAnywhere fields.beginPattern) ∧
        (lexer.mode number).terminator =
          if fields.endsWithParent then
            Option.merge (fun own inherited => own ++ "|" ++ inherited) (ownEnd fields)
              (lexer.mode owner).terminator
          else ownEnd fields
  /-- A mode that ends with the mode around it has been built in the one mode that lists it, or
  beside the mode that it follows. -/
  ends_in : ∀ number, ∀ inner ∈ (lexer.mode number).contains, inner ≠ number →
    (lexer.mode inner).endsWithParent = true →
      ∃ outline, history[inner]? = some ⟨some number, outline⟩
  ends_behind : ∀ (number inner : Nat) (origin : Origin), history[number]? = some origin →
    (lexer.mode number).next = some inner → (lexer.mode inner).endsWithParent = true →
    ∃ outline, history[inner]? = some ⟨origin.parent, outline⟩

theorem Draft.Recorded.built_of_ends (h : draft.Recorded opened history)
    (hstands : StandsFor history owner outline number)
    (hends : (draft.modes.getD number default).endsWithParent = true) :
    ∃ outline, history[number]? = some ⟨some owner, outline⟩ := by
  cases hstands with
  | built hbuilt => exact ⟨outline, hbuilt⟩
  | again horigin _ _ _ huntied =>
    obtain ⟨fields, hfields, hmade⟩ := h.made _ _ horigin
    have htied := h.ties _ _ horigin fields hfields (hmade.endsWithParent ▸ hends)
    exact absurd (huntied.symm.trans htied) Bool.false_ne_true

theorem exists_child_of_mem {numbers : List Nat} {children : List (Option Outline)}
    (h : List.Forall₂ (Fills history owner) children numbers) (hmem : number ∈ numbers) :
    number = owner ∨ ∃ child, StandsFor history owner child number := by
  induction h with
  | nil => cases hmem
  | @cons child first _ _ hchild _ ih =>
    rcases List.mem_cons.mp hmem with rfl | hmem
    · cases child with
      | none => exact .inl hchild
      | some child => exact .inr ⟨child, hchild⟩
    · exact ih hmem

theorem getElem?_of_missing {numbers : List Nat} {children : List (Option Outline)} {place : Nat}
    (h : List.Forall₂ (Fills history owner) children numbers)
    (hmissing : children[place]? = some none) : numbers[place]? = some owner := by
  induction h generalizing place with
  | nil => cases hmissing
  | @cons child first _ _ hchild _ ih =>
    cases place with
    | zero =>
      cases hmissing
      exact congrArg some hchild
    | succ place => exact ih hmissing

end Lexer

/-- Whatever grammar is compiled, its lexer is built from its outline. -/
theorem Grammar.compile_isBuilt {grammar : Grammar} {lexer : Lexer}
    (h : grammar.compile = .ok lexer) : ∃ history, Lexer.IsBuilt grammar history lexer := by
  have hlinked := grammar.compile_linked h
  obtain ⟨⟨number, draft⟩, hbuild, hlexer⟩ := ok_of_bind_eq_ok h
  cases hlexer
  have hempty : Lexer.Draft.Recorded [] [] {} :=
    ⟨rfl, nofun, nofun, nofun, nofun, fun _ _ hknown => by cases hknown⟩
  obtain ⟨-, later, -, hrecorded⟩ := Lexer.buildMode_recorded
    (Outline.ofRoot_tiesEnding grammar.root) (fun _ heq => by cases heq) (iff_of_true rfl rfl)
    hempty hbuild
  generalize hhistory : ([] ++ (⟨none, Outline.ofRoot grammar.root⟩ : Lexer.Origin) :: later) =
    history at hrecorded
  have htop : history[Lexer.root]? = some ⟨none, Outline.ofRoot grammar.root⟩ := by
    rw [← hhistory]
    rfl
  have hcompleted := fun number (origin : Lexer.Origin) horigin =>
    hrecorded.completed number origin horigin (List.not_mem_nil)
  have hexists : ∀ number < draft.modes.size, ∃ origin, history[number]? = some origin :=
    fun number hnumber => ⟨_, List.getElem?_eq_getElem (hrecorded.length ▸ hnumber)⟩
  refine ⟨history, hrecorded.length, htop, ?_, fun number => (hlinked.modes number).contains,
    fun number => (hlinked.modes number).next, fun number rule hrule inner hkind => ?_,
    fun number hnumber => ?_, fun number origin place horigin hmissing => ?_,
    fun number origin horigin => (hcompleted number origin horigin).contains,
    fun number origin horigin => (hcompleted number origin horigin).next,
    fun number origin horigin hne => ?_, fun number inner hinner hne hends => ?_,
    fun number inner origin horigin hnext hends => ?_⟩
  · obtain ⟨fields, -, hmade⟩ := hrecorded.made _ _ htop
    exact ⟨hmade.beginSource, hmade.terminator⟩
  · exact (hlinked.modes number).contains inner
      ((hlinked.modes number).begins rule hrule inner hkind)
  · obtain ⟨origin, horigin⟩ := hexists number hnumber
    exact (hcompleted number origin horigin).rules
  · exact Lexer.getElem?_of_missing (hcompleted number origin horigin).contains hmissing
  · obtain ⟨fields, hfields, hmade⟩ := hrecorded.made number origin horigin
    obtain ⟨hnone, hbefore⟩ := hrecorded.inside number origin horigin
    obtain ⟨parent, outline⟩ := origin
    cases parent with
    | none => exact absurd (hnone.mp rfl) hne
    | some owner =>
      exact ⟨owner, hbefore owner rfl, rfl, fields, hfields, hmade.endsWithParent,
        hmade.beginSource, hmade.terminator⟩
  · by_cases hnumber : number < draft.modes.size
    · obtain ⟨origin, horigin⟩ := hexists number hnumber
      rcases Lexer.exists_child_of_mem (hcompleted number origin horigin).contains hinner with
        heq | ⟨child, hstands⟩
      · exact absurd heq hne
      · exact hrecorded.built_of_ends hstands hends
    · have hdefault : draft.modes.getD number default = default := by
        simp [Array.getD_eq_getD_getElem?, Array.getElem?_eq_none (Nat.le_of_not_lt hnumber)]
      rw [Lexer.mode, hdefault] at hinner
      cases hinner
  · have hrel := (hcompleted number origin horigin).next
    change (draft.modes.getD number default).next = some inner at hnext
    rw [hnext] at hrel
    generalize origin.outline.next = next at hrel
    cases hrel with
    | some hsucceeds =>
      obtain ⟨owner, hparent, hstands⟩ := hsucceeds
      rw [hparent]
      exact hrecorded.built_of_ends hstands hends

namespace Lexer

/-- What stands between two quotes. -/
def quotedText : RawMode :=
  .of { beginPattern := some (.regex "'"), endPattern := some (.regex "'") }

/-- A grammar in which modes stand inside themselves, are shared, come in variants, follow each
other, end with the mode around them and need something before them. -/
def nestedModes : Grammar where
  name := "nested"
  root := .of {} [
    .shared "string" quotedText,
    .own (.of { beginPattern := some (.regex "\\("), endPattern := some (.regex "\\)") } [
      .itself,
      .shared "string" quotedText,
      .own (.of
        { beginPattern := some (.regex "="), endPattern := some (.regex ",")
          endsWithParent := true }
        [.itself])]),
    .own (.of { scope := some "number" } [] [
      .of { wholePattern := some (.regex "0x") }, .of { wholePattern := some (.regex "1") }]),
    .own (.of { beginPattern := some (.regex "a"), endPattern := some (.regex "b") } [] []
      (some (.of { endPattern := some (.regex "c") }))),
    .own (.of { beforePattern := some (.regex "d"), beginPattern := some (.regex "e") })]

/-- The lexer of that grammar. -/
def nestedLexer : Lexer := nestedModes.compile.toOption.getD default

theorem nestedModes_compiles : nestedModes.compile = .ok nestedLexer := by
  rw [nestedLexer]
  exact eq_ok_of_isOk (by decide +kernel) default

end Lexer

theorem Grammar.compile_isBuilt_nestedModes :
    Lexer.nestedModes.compile = .ok Lexer.nestedLexer ∧
      ∃ history, Lexer.IsBuilt Lexer.nestedModes history Lexer.nestedLexer :=
  ⟨Lexer.nestedModes_compiles, Grammar.compile_isBuilt Lexer.nestedModes_compiles⟩

end Highlighter
