import Highlighter.Proofs.Lexer.Survey

/-!
# What the construction of a lexer leaves

While a lexer is built, some of its modes are open: they have numbers, but the modes inside them are
still missing. All others are done, and stay as they are. Whatever number is known for a place
represents the mode that is written down there, inside whichever mode it is met. So a number that is
found again represents the mode as well as one that is given anew.
-/

namespace Highlighter

namespace Lexer

variable {α β γ δ : Type} {grammar : Grammar} {table : Place → Outline} {opened : List Nat}
  {draft draft' between : Draft} {parent : Option Nat}

/-! ## Drafts -/

/-- A mode that is there and not open. -/
def Draft.IsDone (opened : List Nat) (draft : Draft) (number : Nat) : Prop :=
  number < draft.modes.size ∧ number ∉ opened

/-- The end rule of the mode around a mode, if there is one. -/
def Draft.outer (draft : Draft) (parent : Option Nat) : Option (Option String) :=
  (parent.map fun parent => draft.modes.getD parent default).map (·.terminator)

/-- A draft has all modes of an earlier one. -/
structure Draft.Extends (later earlier : Draft) : Prop where
  size_le : earlier.modes.size ≤ later.modes.size
  kept : ∀ number < earlier.modes.size,
    later.modes.getD number default = earlier.modes.getD number default

/-- The open modes are there, and a number that is known for a place represents what stands there,
whatever mode is around it. -/
structure Draft.Sound (grammar : Grammar) (table : Place → Outline) (opened : List Nat)
    (draft : Draft) : Prop where
  within : ∀ number ∈ opened, number < draft.modes.size
  known : ∀ place number, draft.known.lookup place = some number → ∀ terminator,
    Represents grammar draft.modes (draft.IsDone opened) (some terminator) (table place) number

/-- The construction has gone on from one draft to another one. -/
structure Draft.GoesOn (grammar : Grammar) (table : Place → Outline) (opened : List Nat)
    (draft draft' : Draft) : Prop where
  extend : draft'.Extends draft
  sound : draft'.Sound grammar table opened

theorem Draft.Extends.refl (draft : Draft) : draft.Extends draft :=
  ⟨Nat.le_refl _, fun _ _ => rfl⟩

theorem Draft.Extends.trans (h' : draft'.Extends between) (h : between.Extends draft) :
    draft'.Extends draft where
  size_le := Nat.le_trans h.size_le h'.size_le
  kept number hnumber := by
    rw [h'.kept number (Nat.lt_of_lt_of_le hnumber h.size_le), h.kept number hnumber]

theorem Draft.Extends.outer (h : draft'.Extends draft)
    (hparent : ∀ number, parent = some number → number < draft.modes.size) :
    draft'.outer parent = draft.outer parent := by
  cases parent with
  | none => rfl
  | some number =>
    simp only [Draft.outer, Option.map_some]
    rw [h.kept number (hparent number rfl)]

/-- What is done stays done and keeps its mode. -/
theorem Draft.Extends.done (h : draft'.Extends draft) (number : Nat)
    (hdone : draft.IsDone opened number) : draft'.IsDone opened number ∧
      draft'.modes.getD number default = draft.modes.getD number default :=
  ⟨⟨Nat.lt_of_lt_of_le hdone.1 h.size_le, hdone.2⟩, h.kept number hdone.1⟩

theorem Draft.isNone_outer (draft : Draft) (parent : Option Nat) :
    (draft.outer parent).isNone = parent.isNone := by
  cases parent <;> rfl

/-- A draft with one more mode. -/
def Draft.push (draft : Draft) (mode : LexerMode) : Draft :=
  { draft with modes := draft.modes.push mode }

theorem Draft.getD_push_size (draft : Draft) (mode : LexerMode) :
    (draft.push mode).modes.getD draft.modes.size default = mode := by
  simp [Draft.push, Array.getD_eq_getD_getElem?]

theorem Draft.push_extends (draft : Draft) (mode : LexerMode) :
    (draft.push mode).Extends draft where
  size_le := by simp [Draft.push]
  kept number hnumber := by
    simp [Draft.push, Array.getD_eq_getD_getElem?, Array.getElem?_push, Nat.ne_of_lt hnumber]

/-- A mode that has just been added is open. -/
theorem Draft.Sound.push (h : draft.Sound grammar table opened) (mode : LexerMode) :
    (draft.push mode).Sound grammar table (draft.modes.size :: opened) where
  within := by
    have hsize : (draft.push mode).modes.size = draft.modes.size + 1 := by simp [Draft.push]
    rw [List.forall_mem_cons, hsize]
    exact ⟨Nat.lt_succ_self _, fun number hmem => Nat.lt_succ_of_lt (h.within number hmem)⟩
  known place number hknown terminator := by
    refine (h.known place number hknown terminator).mono fun other hdone => ?_
    obtain ⟨⟨hother, -⟩, hsame⟩ := (draft.push_extends mode).done other hdone
    refine ⟨⟨hother, fun hmem => ?_⟩, hsame⟩
    rcases List.mem_cons.mp hmem with rfl | hmem
    · exact Nat.lt_irrefl _ hdone.1
    · exact hdone.2 hmem

/-- A draft in which one mode is replaced. -/
def Draft.replace (draft : Draft) (number : Nat) (mode : LexerMode) : Draft :=
  { draft with modes := draft.modes.setIfInBounds number mode }

theorem Draft.getD_replace_self {number : Nat} (mode : LexerMode)
    (h : number < draft.modes.size) :
    (draft.replace number mode).modes.getD number default = mode := by
  simp [Draft.replace, Array.getD_eq_getD_getElem?, h]

theorem Draft.getD_replace_of_ne {number other : Nat} (mode : LexerMode) (h : other ≠ number) :
    (draft.replace number mode).modes.getD other default = draft.modes.getD other default := by
  simp [Draft.replace, Array.getD_eq_getD_getElem?, h.symm]

/-- Once a mode is complete it is done, and so are all that have been done before. -/
theorem Draft.IsDone.replace {number other : Nat} {mode : LexerMode}
    (h : draft.IsDone (number :: opened) other) :
    (draft.replace number mode).IsDone opened other ∧
      (draft.replace number mode).modes.getD other default = draft.modes.getD other default := by
  obtain ⟨hother, hopened⟩ := h
  have hne : other ≠ number := fun heq => hopened (List.mem_cons.mpr (.inl heq))
  refine ⟨⟨?_, fun hmem => hopened (List.mem_cons_of_mem _ hmem)⟩,
    Draft.getD_replace_of_ne mode hne⟩
  simpa [Draft.replace] using hother

/-- Replacing a mode that an earlier draft does not have leaves the modes that it has. -/
theorem Draft.Extends.replace {number : Nat} (h : draft'.Extends draft)
    (hnumber : draft.modes.size ≤ number) (mode : LexerMode) :
    (draft'.replace number mode).Extends draft where
  size_le := by
    have hsize := h.size_le
    simpa [Draft.replace] using hsize
  kept other hother := by
    rw [Draft.getD_replace_of_ne mode (Nat.ne_of_lt (Nat.lt_of_lt_of_le hother hnumber)),
      h.kept other hother]

theorem Draft.Sound.replace {number : Nat}
    (h : draft.Sound grammar table (number :: opened)) (mode : LexerMode) :
    (draft.replace number mode).Sound grammar table opened where
  within other hmem := by
    have hother := h.within other (List.mem_cons_of_mem _ hmem)
    simpa [Draft.replace] using hother
  known place known hknown terminator :=
    (h.known place known hknown terminator).mono fun _ hdone => hdone.replace

/-! ## Steps of the construction -/

/-- The construction follows the survey: it fails for the same reason, or both succeed with results
that go together. -/
inductive Follows (good : α → β → Draft → Prop) :
    Except Misuse α → Except Misuse (β × Draft) → Prop where
  | ok {a : α} {b : β} {draft : Draft} (h : good a b draft) : Follows good (.ok a) (.ok (b, draft))
  | error (misuse : Misuse) : Follows good (.error misuse) (.error misuse)

namespace Follows

variable {good : α → β → Draft → Prop} {good' : γ → δ → Draft → Prop} {x : Except Misuse α}
  {y : Build β}

theorem bind {f : α → Except Misuse γ} {g : β → Build δ} (h : Follows good x (y.run draft))
    (hrest : ∀ a b draft', good a b draft' → Follows good' (f a) ((g b).run draft')) :
    Follows good' (x >>= f) ((y >>= g).run draft) := by
  rw [StateT.run_bind]
  generalize y.run draft = outcome at h ⊢
  cases h with
  | ok h => exact hrest _ _ _ h
  | error misuse => exact .error misuse

theorem of_lift (x : Except Misuse α) :
    Follows (fun a b draft' => a = b ∧ draft = draft') x ((liftM x : Build α).run draft) := by
  cases x with
  | ok a => exact .ok ⟨rfl, rfl⟩
  | error misuse => exact .error misuse

/-- What is known of the survey may be used for the construction. -/
theorem mono_of_eq {good' : α → β → Draft → Prop} {outcome : Except Misuse (β × Draft)}
    (h : Follows good x outcome)
    (himp : ∀ a b draft', x = .ok a → good a b draft' → good' a b draft') :
    Follows good' x outcome := by
  cases h with
  | ok h => exact .ok (himp _ _ _ rfl h)
  | error misuse => exact .error misuse

end Follows

theorem run_bind_of_ok {y : Build β} {b : β} (h : y.run draft = .ok (b, between))
    (g : β → Build δ) : (y >>= g).run draft = (g b).run between := by
  rw [StateT.run_bind, h]
  rfl

theorem add_run (mode : LexerMode) (draft : Draft) :
    (add mode).run draft = .ok (draft.modes.size, draft.push mode) :=
  rfl

theorem get_run (draft : Draft) : (get : Build Draft).run draft = .ok (draft, draft) :=
  rfl

/-- The number that is known for a mode. -/
def Draft.recall (draft : Draft) (outline : Outline) : Option Nat :=
  match outline.isTied, outline.place with
  | false, some place => draft.known.lookup place
  | _, _ => none

/-- A draft that knows the number of a mode. -/
def Draft.note (draft : Draft) (outline : Outline) (number : Nat) : Draft :=
  match outline.isTied, outline.place with
  | false, some place => { draft with known := (place, number) :: draft.known }
  | _, _ => draft

theorem known?_run (outline : Outline) (draft : Draft) :
    (known? outline.isTied outline.place).run draft = .ok (draft.recall outline, draft) := by
  obtain ⟨place, isTied, hook, fields, contains, next⟩ := outline
  cases isTied <;> cases place <;> rfl

theorem remember_run (outline : Outline) (number : Nat) (draft : Draft) :
    (remember outline.isTied outline.place number).run draft =
      .ok ((), draft.note outline number) := by
  obtain ⟨place, isTied, hook, fields, contains, next⟩ := outline
  cases isTied <;> cases place <;> rfl

theorem Draft.modes_note (draft : Draft) (outline : Outline) (number : Nat) :
    (draft.note outline number).modes = draft.modes := by
  unfold Draft.note
  split <;> rfl

/-- Only modes that are not tied are known by their places. -/
theorem Draft.Sound.recall {outline : Outline} {number : Nat}
    (h : draft.Sound grammar table opened) (houtline : outline.Every (Outline.Settled table))
    (hrecall : draft.recall outline = some number) (terminator : Option String) :
    Represents grammar draft.modes (draft.IsDone opened) (some terminator) outline.bare number := by
  obtain ⟨place, isTied, hook, fields, contains, next⟩ := outline
  obtain ⟨hsettled, -, -⟩ := Outline.every_mk.mp houtline
  cases isTied with
  | true => cases hrecall
  | false =>
    cases place with
    | none => cases hrecall
    | some place =>
      rw [hsettled.placed place rfl]
      exact h.known place number hrecall terminator

theorem Draft.Sound.note {outline : Outline} {number : Nat} {terminator : Option String}
    (h : draft.Sound grammar table opened) (houtline : outline.Every (Outline.Settled table))
    (hnumber : Represents grammar draft.modes (draft.IsDone opened) (some terminator) outline.bare
      number) : (draft.note outline number).Sound grammar table opened := by
  obtain ⟨place, isTied, hook, fields, contains, next⟩ := outline
  cases isTied with
  | true => exact h
  | false =>
    cases place with
    | none => exact h
    | some place =>
      have huntied := fun terminator' => hnumber.untied terminator' houtline rfl
      refine ⟨h.within, fun other known hknown terminator' => ?_⟩
      simp only [Draft.note, Outline.isTied, Outline.place, List.lookup_cons] at hknown
      split at hknown
      · next heq =>
        cases hknown
        obtain ⟨hsettled, -, -⟩ := Outline.every_mk.mp houtline
        rw [beq_iff_eq.mp heq, ← hsettled.placed place rfl]
        exact huntied terminator'
      · exact h.known other known hknown terminator'

/-! ## The rules of a mode -/

/-- Whether rules can be joined is a matter of their sources. -/
theorem joinSources_eq (ignoreCase : Bool) (rules : List Rule) :
    joinSources ignoreCase (rules.map (·.source)) =
      (RuleSet.build ignoreCase rules).map fun _ => () := by
  unfold joinSources RuleSet.build JoinedRules.build
  rw [List.isEmpty_map]
  split
  · rfl
  · cases Regex.compile ignoreCase (Pattern.joinGroups "|" (rules.map (·.source))) <;> rfl

theorem sources_rulesOf (draft : Draft) (mode : LexerMode) (numbers : List Nat) :
    (rulesOf draft mode numbers).map (·.source) =
      ruleSources mode (numbers.map fun number =>
        ((draft.modes.getD number default).beginSource).getD "") := by
  unfold rulesOf ruleSources
  rw [List.map_append, List.map_append, List.map_map]
  cases mode.terminator <;> cases mode.illegal <;> rfl

/-- A mode is completed if its rules can be joined. -/
theorem complete_follows {number : Nat} {mode : LexerMode} {begins : List String}
    {numbers : List Nat} (next : Option Nat) (hmode : draft.modes.getD number default = mode)
    (hbegins : begins = numbers.map fun number =>
      ((draft.modes.getD number default).beginSource).getD "") :
    Follows (fun base completed draft' => base = mode ∧ completed = number ∧ ∃ rules,
        RuleSet.build grammar.caseInsensitive (rulesOf draft mode numbers) = .ok rules ∧
        draft' =
          draft.replace number { mode with contains := numbers, next := next, rules := rules })
      (match joinSources grammar.caseInsensitive (ruleSources mode begins) with
        | .error error => throw (.badPattern mode.label error)
        | .ok () => pure mode : Except Misuse LexerMode)
      ((complete grammar number numbers next >>= fun _ => pure number : Build Nat).run draft) := by
  rw [hbegins, ← sources_rulesOf, joinSources_eq]
  unfold complete
  rw [bind_assoc, run_bind_of_ok (get_run draft), hmode]
  dsimp only
  cases RuleSet.build grammar.caseInsensitive (rulesOf draft mode numbers) with
  | error error => exact .error _
  | ok rules => exact .ok ⟨rfl, rfl, rules, rfl, rfl⟩

/-! ## The construction follows the survey -/

/-- A mode inside mode `owner`: the number that is known for it, or a new one. -/
def obtainMode (grammar : Grammar) (owner : Nat) (child : Outline) : Build Nat := do
  match ← known? child.isTied child.place with
  | some number => pure number
  | none => do
    let number ← buildMode grammar (some owner) child
    remember child.isTied child.place number
    pure number

theorem buildChildren_some (atTop : Bool) (owner : Nat) (child : Outline)
    (children : List (Option Outline)) :
    buildChildren grammar atTop owner (some child :: children) =
      (do
        let number ← obtainMode grammar owner child
        return number :: (← buildChildren grammar atTop owner children)) := by
  rw [buildChildren, obtainMode, bind_assoc]
  refine bind_congr fun known => ?_
  cases known <;> simp

theorem buildNext_some (owner : Nat) (following : Outline) :
    buildNext grammar (some owner) (some following) =
      (do return some (← obtainMode grammar owner following)) := by
  rw [buildNext, obtainMode, bind_assoc]
  refine bind_congr fun known => ?_
  cases known <;> simp

/-- The construction has gone on to a draft in which a number represents an outline. -/
structure Draft.Gains (grammar : Grammar) (table : Place → Outline) (opened : List Nat)
    (draft : Draft) (outer : Option (Option String)) (outline : Outline) (number : Nat)
    (draft' : Draft) : Prop where
  goesOn : draft.GoesOn grammar table opened draft'
  represents : Represents grammar draft'.modes (draft'.IsDone opened) outer outline.bare number

/-- It makes no difference whether a mode is found again or built anew. -/
theorem obtainMode_follows {owner : Nat} {child : Outline} {terminator : Option String}
    (hchild : child.Every (Outline.Settled table))
    (hdraft : draft.Sound grammar.rootless table opened)
    (hbuild : Follows
      (fun _ => draft.Gains grammar.rootless table opened (some terminator) child)
      (survey grammar.rootless (some terminator) child.bare)
      ((buildMode grammar (some owner) child).run draft)) :
    Follows (fun _ => draft.Gains grammar.rootless table opened (some terminator) child)
      (survey grammar.rootless (some terminator) child.bare)
      ((obtainMode grammar owner child).run draft) := by
  unfold obtainMode
  rw [run_bind_of_ok (known?_run child draft)]
  cases hrecall : draft.recall child with
  | some number =>
    have hrepresents := hdraft.recall hchild hrecall terminator
    obtain ⟨base, hbase, -⟩ := hrepresents.survey
    rw [hbase]
    exact .ok ⟨⟨.refl draft, hdraft⟩, hrepresents⟩
  | none =>
    rw [← bind_pure (survey grammar.rootless (some terminator) child.bare)]
    refine hbuild.bind fun base number between hgains => ?_
    rw [run_bind_of_ok (remember_run child number between)]
    have hmodes := between.modes_note child number
    have hsound := hgains.goesOn.sound.note hchild hgains.represents
    refine .ok ⟨⟨⟨?_, ?_⟩, hsound⟩, ?_⟩
    · rw [hmodes]
      exact hgains.goesOn.extend.size_le
    · rw [hmodes]
      exact hgains.goesOn.extend.kept
    · unfold Draft.IsDone
      rw [hmodes]
      exact hgains.represents

/-- The mode with a number has been completed: it is `base`, with numbers that represent the modes
that it refers to. -/
def Draft.Completes (grammar : Grammar) (opened : List Nat) (outer : Option (Option String))
    (contains : List (Option Outline)) (next : Option Outline) (base : LexerMode) (number : Nat)
    (draft : Draft) : Prop :=
  draft.IsDone opened number ∧ ∃ numbers following rules,
    draft.modes.getD number default =
      { base with contains := numbers, next := following, rules := rules } ∧
    RuleSet.build grammar.caseInsensitive (rulesOf ⟨draft.modes, []⟩ base numbers) = .ok rules ∧
    RepresentsChildren grammar draft.modes (draft.IsDone opened) number base.terminator contains
      numbers ∧
    RepresentsNext grammar draft.modes (draft.IsDone opened) outer next following

/-- A mode is complete once it refers to the modes inside it and to the one that follows it. -/
theorem Draft.completes_replace {outer : Option (Option String)} {contains : List (Option Outline)}
    {next : Option Outline} {base : LexerMode} {number : Nat} {numbers : List Nat}
    {following : Option Nat} {rules : RuleSet} (hnumber : number < draft.modes.size)
    (hopened : number ∉ opened) (hmode : draft.modes.getD number default = base)
    (hrules : RuleSet.build grammar.caseInsensitive (rulesOf draft base numbers) = .ok rules)
    (hchildren : RepresentsChildren grammar draft.modes (draft.IsDone (number :: opened)) number
      base.terminator contains numbers)
    (hnext : RepresentsNext grammar draft.modes (draft.IsDone (number :: opened)) outer next
      following) :
    (draft.replace number { base with contains := numbers, next := following, rules := rules })
      |>.Completes grammar opened outer contains next base number := by
  have hself := draft.getD_replace_self
    { base with contains := numbers, next := following, rules := rules } hnumber
  refine ⟨⟨?_, hopened⟩, numbers, following, rules, hself, ?_,
    hchildren.mono fun _ hdone => hdone.replace, hnext.mono fun _ hdone => hdone.replace⟩
  · simpa [Draft.replace] using hnumber
  · rw [← hrules]
    refine congrArg _ (rulesOf_congr fun inner _ => ?_)
    by_cases heq : inner = number
    · subst heq
      rw [hself, hmode]
    · rw [Draft.getD_replace_of_ne _ heq]

mutual
/-- The construction of a mode fails where the survey does, and otherwise gives the next number to a
mode that represents the outline. -/
theorem buildMode_follows {grammar : Grammar} {table : Place → Outline} {opened : List Nat}
    {draft : Draft} {parent : Option Nat} {outline : Outline}
    (houtline : outline.Every (Outline.Settled table))
    (hparent : ∀ number, parent = some number → number ∈ opened)
    (hdraft : draft.Sound grammar.rootless table opened) :
    Follows (fun _ number draft' => number = draft.modes.size ∧
        draft.Gains grammar.rootless table opened (draft.outer parent) outline number draft')
      (survey grammar.rootless (draft.outer parent) outline.bare)
      ((buildMode grammar parent outline).run draft) := by
  match outline with
  | .mk place isTied hook fields contains next =>
    obtain ⟨-, hcontains, hnext⟩ := Outline.every_mk.mp houtline
    have hmodeOf : ∀ fields : ModeFields,
        modeOf grammar fields hook (parent.map fun parent => draft.modes.getD parent default) =
          modeOf grammar.rootless fields hook (outerMode (draft.outer parent)) :=
      fun fields => modeOf_outer _
    have hcompletes : Follows (fun base number draft' => number = draft.modes.size ∧
          draft.GoesOn grammar.rootless table opened draft' ∧
          draft'.Completes grammar.rootless opened (draft.outer parent) (Outline.bareAll contains)
            (Outline.bareNext next) base number)
        (survey grammar.rootless (draft.outer parent)
          (Outline.mk place isTied hook fields contains next).bare)
        ((buildMode grammar parent (.mk place isTied hook fields contains next)).run draft) := by
      rw [Outline.bare_mk, survey, buildMode, run_bind_of_ok (get_run draft)]
      simp only [hmodeOf]
      refine (Follows.of_lift _).bind ?_
      rintro base _ _ ⟨rfl, rfl⟩
      rw [run_bind_of_ok (add_run base draft), draft.isNone_outer]
      have hadded := hdraft.push base
      have hpushed := draft.push_extends base
      refine (buildChildren_follows hcontains (List.mem_cons_self ..) (draft.getD_push_size base)
        hadded).bind ?_
      rintro begins numbers surrounded ⟨hsurrounded, hchildren, hbegins⟩
      rw [← (hsurrounded.extend.trans hpushed).outer fun number hnumber =>
        hdraft.within number (hparent number hnumber)]
      refine (buildNext_follows hnext
        (fun number hnumber => List.mem_cons_of_mem _ (hparent number hnumber))
        hsurrounded.sound).bind ?_
      rintro ⟨⟩ following followed ⟨hfollowed, hfollowing⟩
      have hextend := hfollowed.extend.trans hsurrounded.extend
      have hnumber : draft.modes.size < followed.modes.size :=
        hfollowed.sound.within _ (List.mem_cons_self ..)
      have hopened : draft.modes.size ∉ opened := fun hmem =>
        Nat.lt_irrefl _ (hdraft.within _ hmem)
      have hmode : followed.modes.getD draft.modes.size default = base := by
        rw [hextend.kept _ (hadded.within _ (List.mem_cons_self ..)), draft.getD_push_size]
      have hkept : begins = numbers.map fun number =>
          ((followed.modes.getD number default).beginSource).getD "" := by
        rw [hbegins]
        refine List.map_congr_left fun number hmem => ?_
        rcases hchildren.mem number hmem with rfl | hdone
        · rw [hfollowed.extend.kept _ (hsurrounded.sound.within _ (List.mem_cons_self ..))]
        · rw [hfollowed.extend.kept _ hdone.1]
      refine (complete_follows following hmode hkept).mono_of_eq ?_
      rintro _ _ _ - ⟨rfl, rfl, rules, hrules, rfl⟩
      exact ⟨rfl, ⟨(hextend.trans hpushed).replace (Nat.le_refl _) _, hfollowed.sound.replace _⟩,
        Draft.completes_replace hnumber hopened hmode hrules
          (hchildren.mono hfollowed.extend.done) hfollowing⟩
    refine hcompletes.mono_of_eq fun base number draft' hsurvey hall => ?_
    obtain ⟨hnumber, hgoes, hdone, numbers, following, rules, hrest⟩ := hall
    refine ⟨hnumber, hgoes, ?_⟩
    rw [Outline.bare_mk] at hsurvey ⊢
    exact represents_mk.mpr ⟨hdone, base, numbers, following, rules, hsurvey, hrest⟩

theorem buildChildren_follows {grammar : Grammar} {table : Place → Outline} {opened : List Nat}
    {draft : Draft} {atTop : Bool} {owner : Nat} {mode : LexerMode}
    {children : List (Option Outline)}
    (hchildren : Outline.EveryChild (Outline.Settled table) children) (howner : owner ∈ opened)
    (hmode : draft.modes.getD owner default = mode)
    (hdraft : draft.Sound grammar.rootless table opened) :
    Follows (fun begins numbers draft' =>
        draft.GoesOn grammar.rootless table opened draft' ∧
        RepresentsChildren grammar.rootless draft'.modes (draft'.IsDone opened) owner
          mode.terminator (Outline.bareAll children) numbers ∧
        begins = numbers.map fun number =>
          ((draft'.modes.getD number default).beginSource).getD "")
      (surveyChildren grammar.rootless atTop mode (Outline.bareAll children))
      ((buildChildren grammar atTop owner children).run draft) := by
  match children with
  | [] =>
    rw [Outline.bareAll_nil, surveyChildren, buildChildren]
    refine .ok ⟨⟨.refl draft, hdraft⟩, ?_, rfl⟩
    rw [RepresentsChildren]
  | none :: children =>
    rw [Outline.bareAll_cons, Outline.bareNext_none, surveyChildren, buildChildren]
    cases atTop with
    | true => exact .error _
    | false =>
      obtain ⟨-, hrest⟩ := Outline.everyChild_cons.mp hchildren
      refine (buildChildren_follows hrest howner hmode hdraft).bind ?_
      rintro begins numbers draft' ⟨hgoes, hnumbers, rfl⟩
      refine .ok ⟨hgoes, ?_, ?_⟩
      · rw [RepresentsChildren]
        exact ⟨numbers, rfl, hnumbers⟩
      · rw [List.map_cons, hgoes.extend.kept owner (hdraft.within owner howner), hmode]
  | some child :: children =>
    obtain ⟨hchild, hrest⟩ := Outline.everyChild_cons.mp hchildren
    rw [Outline.everyNext_some] at hchild
    have houter : draft.outer (some owner) = some mode.terminator := by
      rw [← hmode]
      rfl
    have hbuild := @buildMode_follows grammar table opened draft (some owner) child hchild
      (fun number hnumber => by cases hnumber; exact howner) hdraft
    rw [houter] at hbuild
    have hobtain := obtainMode_follows hchild hdraft
      (hbuild.mono_of_eq fun _ _ _ _ hgains => hgains.2)
    rw [Outline.bareAll_cons, Outline.bareNext_some, surveyChildren, buildChildren_some]
    refine (hobtain.mono_of_eq fun base number draft' heq hgains => And.intro heq hgains).bind ?_
    rintro base number between ⟨hbase, hgains⟩
    have hmode' : between.modes.getD owner default = mode := by
      rw [hgains.goesOn.extend.kept owner (hdraft.within owner howner), hmode]
    refine (buildChildren_follows hrest howner hmode' hgains.goesOn.sound).bind ?_
    rintro begins numbers draft' ⟨hgoes, hnumbers, rfl⟩
    have hnumber := hgains.represents.mono (hgoes.extend.done)
    refine .ok ⟨⟨hgoes.extend.trans hgains.goesOn.extend, hgoes.sound⟩, ?_, ?_⟩
    · rw [RepresentsChildren]
      exact ⟨number, numbers, rfl, hnumber, hnumbers⟩
    · obtain ⟨base', hbase', hsource⟩ := hnumber.survey
      cases hbase.symm.trans hbase'
      rw [List.map_cons, hsource]

theorem buildNext_follows {grammar : Grammar} {table : Place → Outline} {opened : List Nat}
    {draft : Draft} {parent : Option Nat} {next : Option Outline}
    (hnext : Outline.EveryNext (Outline.Settled table) next)
    (hparent : ∀ number, parent = some number → number ∈ opened)
    (hdraft : draft.Sound grammar.rootless table opened) :
    Follows (fun _ following draft' =>
        draft.GoesOn grammar.rootless table opened draft' ∧
        RepresentsNext grammar.rootless draft'.modes (draft'.IsDone opened) (draft.outer parent)
          (Outline.bareNext next) following)
      (surveyNext grammar.rootless (draft.outer parent) (Outline.bareNext next))
      ((buildNext grammar parent next).run draft) := by
  match next with
  | none =>
    rw [Outline.bareNext_none, surveyNext, buildNext]
    refine .ok ⟨⟨.refl draft, hdraft⟩, ?_⟩
    rw [RepresentsNext]
  | some following =>
    rw [Outline.everyNext_some] at hnext
    cases parent with
    | none =>
      rw [Outline.bareNext_some, buildNext]
      simp only [Draft.outer, Option.map_none, surveyNext]
      exact .error _
    | some owner =>
      have houter : draft.outer (some owner) = some (draft.modes.getD owner default).terminator :=
        rfl
      have hbuild := @buildMode_follows grammar table opened draft (some owner) following hnext
        hparent hdraft
      rw [houter] at hbuild ⊢
      have hobtain := obtainMode_follows hnext hdraft
        (hbuild.mono_of_eq fun _ _ _ _ hgains => hgains.2)
      rw [Outline.bareNext_some, surveyNext, buildNext_some]
      refine hobtain.bind fun base number draft' hgains => .ok ⟨hgains.goesOn, ?_⟩
      rw [RepresentsNext]
      exact ⟨number, _, rfl, rfl, hgains.represents⟩
end

/-- In a lexer, a number represents an outline. -/
def Stands (grammar : Grammar) (lexer : Lexer) : Option (Option String) → Outline → Nat → Prop :=
  Represents grammar lexer.modes (· < lexer.modeCount)

end Lexer

/-- A grammar cannot be compiled where the survey fails. Otherwise the top mode of its lexer
represents its outline. -/
theorem Grammar.compile_follows {grammar : Grammar} {meaning : String → RawMode}
    (hshares : grammar.root.Shares meaning) :
    (∃ misuse,
      Lexer.survey grammar.rootless none (Outline.ofRoot grammar.root).bare = .error misuse ∧
      grammar.compile = .error misuse) ∨
    ∃ base lexer,
      Lexer.survey grammar.rootless none (Outline.ofRoot grammar.root).bare = .ok base ∧
      grammar.compile = .ok lexer ∧
      lexer.name = grammar.name ∧ lexer.ignoreCase = grammar.caseInsensitive ∧
      lexer.scopeAliases = grammar.scopeAliases ∧
      lexer.Stands grammar.rootless none (Outline.ofRoot grammar.root).bare Lexer.root := by
  have hempty : Lexer.Draft.Sound grammar.rootless (Outline.outlineAt meaning grammar.root) [] {} :=
    ⟨fun _ hmem => (by cases hmem), fun _ _ hknown => (by cases hknown)⟩
  have hbuild := @Lexer.buildMode_follows grammar _ [] {} none _ (Outline.ofRoot_settled hshares)
    (fun _ hnone => by cases hnone) hempty
  have houter : Lexer.Draft.outer {} none = none := rfl
  rw [houter] at hbuild
  unfold Grammar.compile
  generalize Lexer.survey grammar.rootless none (Outline.ofRoot grammar.root).bare = x at hbuild ⊢
  generalize (Lexer.buildMode grammar none (Outline.ofRoot grammar.root)).run {} = y at hbuild ⊢
  cases hbuild with
  | error misuse => exact .inl ⟨misuse, rfl, rfl⟩
  | ok hgains =>
    obtain ⟨rfl, -, hrepresents⟩ := hgains
    refine .inr ⟨_, _, rfl, rfl, rfl, rfl, rfl, hrepresents.mono fun number hdone => ?_⟩
    exact ⟨hdone.1, rfl⟩

/-- What the lexer of a grammar has from it, where there is a lexer. -/
theorem Grammar.compile_stands {grammar : Grammar} {meaning : String → RawMode} {lexer : Lexer}
    (hshares : grammar.root.Shares meaning) (hcompile : grammar.compile = .ok lexer) :
    lexer.ignoreCase = grammar.caseInsensitive ∧ lexer.scopeAliases = grammar.scopeAliases ∧
      lexer.Stands grammar.rootless none (Outline.ofRoot grammar.root).bare Lexer.root := by
  obtain ⟨_, -, hrefused⟩ | ⟨_, built, -, hbuilt, -, hcase, haliases, hroot⟩ :=
    grammar.compile_follows hshares
  · cases hrefused.symm.trans hcompile
  · obtain rfl : built = lexer := Except.ok.inj (hbuilt.symm.trans hcompile)
    exact ⟨hcase, haliases, hroot⟩

end Highlighter
