import Highlighter.Proofs.Lexer.Build
import Highlighter.Proofs.Outline.Shared

/-!
# What a lexer is built from

Building a lexer gives numbers to modes and keeps those that are met again. Apart from the numbers,
what a mode becomes is a function of its outline and of the end rule around it: a survey computes
it, or finds the first misuse. A mode number represents an outline when the mode and the modes that
it refers to are what the survey says. By induction on the outline, the construction fails where the
survey does, and otherwise ends with a number that represents the outline.
-/

namespace Highlighter

/-- A grammar without its tree of modes. -/
def Grammar.rootless (grammar : Grammar) : Grammar :=
  { grammar with root := default }

namespace Lexer

variable {α β γ δ : Type}

/-! ## Surveys -/

/-- A mode around another one, of which nothing is known but its end rule. -/
def outerMode (outer : Option (Option String)) : Option LexerMode :=
  outer.map fun terminator => { (default : LexerMode) with terminator := terminator }

/-- The sources of the rules of a mode, from the sources of the modes inside it. -/
def ruleSources (mode : LexerMode) (begins : List String) : List String :=
  begins ++ mode.terminator.toList ++ mode.illegal.toList

/-- Whether sources can be joined. -/
def joinSources (ignoreCase : Bool) (sources : List String) : Except Regex.Error Unit :=
  if sources.isEmpty then .ok ()
  else (Regex.compile ignoreCase (Pattern.joinGroups "|" sources)).map fun _ => ()

mutual
/-- What a mode becomes, without the modes that it refers to. -/
def survey (grammar : Grammar) (outer : Option (Option String)) :
    Outline → Except Misuse LexerMode
  | .mk _ _ hook fields contains next => do
    let mode ← (do modeOf grammar (← fields) hook (outerMode outer) : Except Misuse LexerMode)
    let begins ← surveyChildren grammar outer.isNone mode contains
    surveyNext grammar outer next
    match joinSources grammar.caseInsensitive (ruleSources mode begins) with
    | .error error => throw (.badPattern mode.label error)
    | .ok () => return mode

/-- The sources of the begin rules of the modes inside a mode. -/
def surveyChildren (grammar : Grammar) (atTop : Bool) (owner : LexerMode) :
    List (Option Outline) → Except Misuse (List String)
  | [] => return []
  | none :: children => do
    if atTop then throw .itselfAtTop
    return owner.beginSource.getD "" :: (← surveyChildren grammar atTop owner children)
  | some child :: children => do
    let mode ← survey grammar (some owner.terminator) child
    return mode.beginSource.getD "" :: (← surveyChildren grammar atTop owner children)

/-- Whether the mode that follows can be built. -/
def surveyNext (grammar : Grammar) (outer : Option (Option String)) :
    Option Outline → Except Misuse Unit
  | none => return ()
  | some following =>
    match outer with
    | none => throw .nextAtTop
    | some terminator => do
      let _ ← survey grammar (some terminator) following
      return ()
end

/-! ## Representation -/

mutual
/-- The mode with a number is what an outline becomes, and so are the modes that it refers to. All
of them are done. -/
def Represents (grammar : Grammar) (modes : Array LexerMode) (isDone : Nat → Prop)
    (outer : Option (Option String)) : Outline → Nat → Prop
  | .mk place isTied hook fields contains next, number =>
    isDone number ∧ ∃ base numbers following rules,
      survey grammar outer (.mk place isTied hook fields contains next) = .ok base ∧
      modes.getD number default =
        { base with contains := numbers, next := following, rules := rules } ∧
      RuleSet.build grammar.caseInsensitive (rulesOf ⟨modes, []⟩ base numbers) = .ok rules ∧
      RepresentsChildren grammar modes isDone number base.terminator contains numbers ∧
      RepresentsNext grammar modes isDone outer next following

/-- Numbers represent the modes inside mode `owner`, which may be that mode itself. -/
def RepresentsChildren (grammar : Grammar) (modes : Array LexerMode) (isDone : Nat → Prop)
    (owner : Nat) (terminator : Option String) : List (Option Outline) → List Nat → Prop
  | [], numbers => numbers = []
  | none :: children, numbers => ∃ rest, numbers = owner :: rest ∧
      RepresentsChildren grammar modes isDone owner terminator children rest
  | some child :: children, numbers => ∃ number rest, numbers = number :: rest ∧
      Represents grammar modes isDone (some terminator) child number ∧
      RepresentsChildren grammar modes isDone owner terminator children rest

/-- A number represents the mode that follows, if one does. -/
def RepresentsNext (grammar : Grammar) (modes : Array LexerMode) (isDone : Nat → Prop)
    (outer : Option (Option String)) : Option Outline → Option Nat → Prop
  | none, following => following = none
  | some next, following => ∃ number terminator, following = some number ∧
      outer = some terminator ∧ Represents grammar modes isDone (some terminator) next number
end

variable {grammar : Grammar} {modes modes' : Array LexerMode} {isDone isDone' : Nat → Prop}
  {outer : Option (Option String)} {table : Place → Outline}

theorem represents_mk {place : Option Place} {isTied : Bool} {hook : Option Hook}
    {fields : Except Misuse ModeFields} {contains : List (Option Outline)} {next : Option Outline}
    {number : Nat} :
    Represents grammar modes isDone outer (.mk place isTied hook fields contains next) number ↔
      isDone number ∧ ∃ base numbers following rules,
        survey grammar outer (.mk place isTied hook fields contains next) = .ok base ∧
        modes.getD number default =
          { base with contains := numbers, next := following, rules := rules } ∧
        RuleSet.build grammar.caseInsensitive (rulesOf ⟨modes, []⟩ base numbers) = .ok rules ∧
        RepresentsChildren grammar modes isDone number base.terminator contains numbers ∧
        RepresentsNext grammar modes isDone outer next following := by
  simp only [Represents]

theorem Represents.done {outline : Outline} {number : Nat}
    (h : Represents grammar modes isDone outer outline number) : isDone number := by
  cases outline
  exact (represents_mk.mp h).1

/-- A mode contains the numbers of the modes inside it. -/
theorem Represents.children {place : Option Place} {isTied : Bool} {hook : Option Hook}
    {fields : Except Misuse ModeFields} {contains : List (Option Outline)} {next : Option Outline}
    {number : Nat} {numbers : List Nat}
    (h : Represents grammar modes isDone outer (.mk place isTied hook fields contains next) number)
    (hnumbers : (modes.getD number default).contains = numbers) :
    ∃ terminator, RepresentsChildren grammar modes isDone number terminator contains numbers := by
  obtain ⟨-, base, _, _, _, -, hmode, -, hchildren, -⟩ := represents_mk.mp h
  rw [hmode] at hnumbers
  cases hnumbers
  exact ⟨base.terminator, hchildren⟩

/-- A number that represents an outline has the mode that the survey gives. -/
theorem Represents.survey {outline : Outline} {number : Nat}
    (h : Represents grammar modes isDone outer outline number) :
    ∃ base, Lexer.survey grammar outer outline = .ok base ∧
      (modes.getD number default).beginSource = base.beginSource := by
  cases outline
  obtain ⟨-, base, numbers, following, rules, hsurvey, hmode, -⟩ := represents_mk.mp h
  exact ⟨base, hsurvey, by rw [hmode]⟩

theorem RepresentsChildren.mem {owner : Nat} {terminator : Option String}
    {children : List (Option Outline)} {numbers : List Nat}
    (h : RepresentsChildren grammar modes isDone owner terminator children numbers) :
    ∀ number ∈ numbers, number = owner ∨ isDone number := by
  induction children generalizing numbers with
  | nil =>
    rw [RepresentsChildren] at h
    subst h
    simp
  | cons child children ih =>
    cases child with
    | none =>
      rw [RepresentsChildren] at h
      obtain ⟨rest, rfl, hrest⟩ := h
      rw [List.forall_mem_cons]
      exact ⟨.inl rfl, ih hrest⟩
    | some child =>
      rw [RepresentsChildren] at h
      obtain ⟨number, rest, rfl, hchild, hrest⟩ := h
      rw [List.forall_mem_cons]
      exact ⟨.inr hchild.done, ih hrest⟩

/-- The rules of a mode depend on where the modes inside it begin only. -/
theorem rulesOf_congr {draft draft' : Draft} {base : LexerMode} {numbers : List Nat}
    (h : ∀ number ∈ numbers, (draft'.modes.getD number default).beginSource =
      (draft.modes.getD number default).beginSource) :
    rulesOf draft' base numbers = rulesOf draft base numbers := by
  unfold rulesOf
  rw [List.map_congr_left fun number hmem => by rw [h number hmem]]

mutual
/-- Modes that are done stay what they are, so that they represent the same. -/
theorem Represents.mono {outer : Option (Option String)} {outline : Outline} {number : Nat}
    (h : Represents grammar modes isDone outer outline number)
    (hdone : ∀ number, isDone number →
      isDone' number ∧ modes'.getD number default = modes.getD number default) :
    Represents grammar modes' isDone' outer outline number := by
  match outline with
  | .mk place isTied hook fields contains next =>
    obtain ⟨hnumber, base, numbers, following, rules, hsurvey, hmode, hrules, hchildren, hnext⟩ :=
      represents_mk.mp h
    have hbegins : ∀ inner ∈ numbers, (modes'.getD inner default).beginSource =
        (modes.getD inner default).beginSource := by
      intro inner hmem
      rcases hchildren.mem inner hmem with rfl | hinner
      · rw [(hdone _ hnumber).2]
      · rw [(hdone _ hinner).2]
    refine represents_mk.mpr ⟨(hdone _ hnumber).1, base, numbers, following, rules, hsurvey, ?_, ?_,
      hchildren.mono hdone, hnext.mono hdone⟩
    · rw [(hdone _ hnumber).2, hmode]
    · rw [@rulesOf_congr ⟨modes, []⟩ ⟨modes', []⟩ base numbers hbegins, hrules]

theorem RepresentsChildren.mono {owner : Nat} {terminator : Option String}
    {children : List (Option Outline)} {numbers : List Nat}
    (h : RepresentsChildren grammar modes isDone owner terminator children numbers)
    (hdone : ∀ number, isDone number →
      isDone' number ∧ modes'.getD number default = modes.getD number default) :
    RepresentsChildren grammar modes' isDone' owner terminator children numbers := by
  match children with
  | [] =>
    rw [RepresentsChildren] at h ⊢
    exact h
  | none :: children =>
    rw [RepresentsChildren] at h ⊢
    obtain ⟨rest, hnumbers, hrest⟩ := h
    exact ⟨rest, hnumbers, hrest.mono hdone⟩
  | some child :: children =>
    rw [RepresentsChildren] at h ⊢
    obtain ⟨number, rest, hnumbers, hchild, hrest⟩ := h
    exact ⟨number, rest, hnumbers, hchild.mono hdone, hrest.mono hdone⟩

theorem RepresentsNext.mono {outer : Option (Option String)} {next : Option Outline}
    {following : Option Nat}
    (h : RepresentsNext grammar modes isDone outer next following)
    (hdone : ∀ number, isDone number →
      isDone' number ∧ modes'.getD number default = modes.getD number default) :
    RepresentsNext grammar modes' isDone' outer next following := by
  match next with
  | none =>
    rw [RepresentsNext] at h ⊢
    exact h
  | some next =>
    rw [RepresentsNext] at h ⊢
    obtain ⟨number, terminator, hfollowing, houter, hrest⟩ := h
    exact ⟨number, terminator, hfollowing, houter, hrest.mono hdone⟩
end

/-! ## Modes that are not tied -/

/-- What flows from the mode around a mode is its end rule, and only into a mode that ends with
it. -/
theorem modeOf_outer {fields : ModeFields} {hook : Option Hook} (parent : Option LexerMode) :
    modeOf grammar fields hook parent =
      modeOf grammar fields hook (outerMode (parent.map (·.terminator))) := by
  have hsome : (outerMode (parent.map (·.terminator))).isSome = parent.isSome := by
    cases parent <;> rfl
  have hterminator : (outerMode (parent.map (·.terminator))).bind (·.terminator) =
      parent.bind (·.terminator) := by
    cases parent <;> rfl
  rw [modeOf, modeOf, hsome, hterminator]

theorem modeOf_untied {fields : ModeFields} {hook : Option Hook} {terminator : Option String}
    (terminator' : Option String) (h : fields.endsWithParent = false) :
    modeOf grammar fields hook (outerMode (some terminator)) =
      modeOf grammar fields hook (outerMode (some terminator')) := by
  have hterminator : ∀ own outer outer' : Option String,
      terminatorOf fields own outer = terminatorOf fields own outer' := by
    intro own outer outer'
    simp only [terminatorOf, h, Bool.false_eq_true, if_false]
  simp only [modeOf, outerMode, Option.map_some, Option.isSome_some, if_true, Option.bind_some,
    hterminator _ terminator terminator']

mutual
/-- A mode that is not tied becomes the same inside any other one. -/
theorem survey_untied {outline : Outline} {terminator : Option String}
    (terminator' : Option String) (h : outline.Every (Outline.Settled table))
    (htied : outline.isTied = false) :
    survey grammar (some terminator) outline.bare =
      survey grammar (some terminator') outline.bare := by
  match outline with
  | .mk place isTied hook fields contains next =>
    obtain ⟨hsettled, -, hnext⟩ := Outline.every_mk.mp h
    obtain rfl : isTied = false := htied
    obtain ⟨hends, hfollowing⟩ := hsettled.untied _ _ _ _ _ rfl
    rw [Outline.bare_mk, survey, survey, surveyNext_untied terminator' hnext hfollowing,
      Option.isNone_some, Option.isNone_some]
    cases fields with
    | error misuse => exact Eq.refl (Except.error misuse)
    | ok sound =>
      change (modeOf grammar sound hook (outerMode (some terminator)) >>= fun mode => _) =
        (modeOf grammar sound hook (outerMode (some terminator')) >>= fun mode => _)
      rw [modeOf_untied terminator' (hends sound rfl)]

theorem surveyNext_untied {next : Option Outline} {terminator : Option String}
    (terminator' : Option String) (h : Outline.EveryNext (Outline.Settled table) next)
    (htied : ∀ following, next = some following → following.isTied = false) :
    surveyNext grammar (some terminator) (Outline.bareNext next) =
      surveyNext grammar (some terminator') (Outline.bareNext next) := by
  match next with
  | none => simp [surveyNext]
  | some following =>
    simp only [Outline.bareNext_some, surveyNext]
    rw [survey_untied terminator' (Outline.everyNext_some.mp h) (htied following rfl)]
end

mutual
/-- A number represents a mode that is not tied inside any other one. -/
theorem Represents.untied {outline : Outline} {terminator : Option String} {number : Nat}
    (hrepresents : Represents grammar modes isDone (some terminator) outline.bare number)
    (terminator' : Option String) (h : outline.Every (Outline.Settled table))
    (htied : outline.isTied = false) :
    Represents grammar modes isDone (some terminator') outline.bare number := by
  match outline with
  | .mk place isTied hook fields contains next =>
    obtain ⟨hsettled, -, hnext⟩ := Outline.every_mk.mp h
    have hsurvey := @survey_untied grammar table (.mk place isTied hook fields contains next)
      terminator terminator' h htied
    obtain rfl : isTied = false := htied
    obtain ⟨-, hfollowing⟩ := hsettled.untied _ _ _ _ _ rfl
    rw [Outline.bare_mk] at hrepresents hsurvey ⊢
    rw [represents_mk, ← hsurvey]
    obtain ⟨hdone, base, numbers, following, rules, hbase, hmode, hrules, hchildren, hrest⟩ :=
      represents_mk.mp hrepresents
    exact ⟨hdone, base, numbers, following, rules, hbase, hmode, hrules, hchildren,
      hrest.untied terminator' hnext hfollowing⟩

theorem RepresentsNext.untied {next : Option Outline} {terminator : Option String}
    {following : Option Nat}
    (hrepresents : RepresentsNext grammar modes isDone (some terminator) (Outline.bareNext next)
      following)
    (terminator' : Option String) (h : Outline.EveryNext (Outline.Settled table) next)
    (htied : ∀ following, next = some following → following.isTied = false) :
    RepresentsNext grammar modes isDone (some terminator') (Outline.bareNext next) following := by
  match next with
  | none =>
    rw [Outline.bareNext_none, RepresentsNext] at hrepresents ⊢
    exact hrepresents
  | some next =>
    rw [Outline.bareNext_some, RepresentsNext] at hrepresents ⊢
    obtain ⟨number, _, hfollowing, houter, hrest⟩ := hrepresents
    cases houter
    exact ⟨number, terminator', hfollowing, rfl,
      hrest.untied terminator' (Outline.everyNext_some.mp h) (htied next rfl)⟩
end

end Lexer

end Highlighter
