import Highlighter.Lexer.Build
import Highlighter.Proofs.Outcome
import Highlighter.Proofs.Outline
import Mathlib

/-!
# What every mode of a lexer satisfies

A lexer is built mode by mode, and a mode is completed only in what follows from the modes inside
it. What the fields of a mode have been checked for therefore holds of all modes of a lexer.
-/

namespace Highlighter

/-- The flags of a mode go with its segments: where the begin or the end match is cut into
segments, it is neither left out of the mode nor given back. -/
structure LexerMode.Checked (mode : LexerMode) : Prop where
  begin : ∀ segments, mode.beginScope = some (.segments segments) →
    mode.skip = false ∧ mode.excludeBegin = false ∧ mode.returnBegin = false
  finish : ∀ segments, mode.endScope = some (.segments segments) →
    mode.skip = false ∧ mode.excludeEnd = false ∧ mode.returnEnd = false

namespace Lexer

variable {α β : Type} {draft draft' : Draft}

/-- From one draft, the construction succeeds with a result and leaves another draft. -/
def Builds (x : Build α) (draft : Draft) (a : α) (draft' : Draft) : Prop :=
  x.run draft = .ok (a, draft')

theorem builds_pure_iff {a b : α} :
    Builds (pure a) draft b draft' ↔ a = b ∧ draft = draft' := by
  simp [Builds, pure, StateT.pure, Except.pure, StateT.run]

theorem builds_bind_iff {x : Build α} {f : α → Build β} {b : β} :
    Builds (x >>= f) draft b draft' ↔
      ∃ a between, Builds x draft a between ∧ Builds (f a) between b draft' := by
  unfold Builds
  rw [StateT.run_bind]
  cases hx : x.run draft with
  | error misuse => simp [bind, Except.bind]
  | ok outcome =>
    obtain ⟨a, between⟩ := outcome
    constructor
    · intro h
      exact ⟨a, between, rfl, h⟩
    · rintro ⟨_, _, heq, h⟩
      cases heq
      exact h

theorem builds_lift_iff {x : Except Misuse α} {a : α} :
    Builds (liftM x) draft a draft' ↔ x = .ok a ∧ draft = draft' := by
  cases x with
  | error misuse => simp [Builds, liftM, monadLift, MonadLift.monadLift, StateT.lift, StateT.run,
      bind, Except.bind]
  | ok b => simp [Builds, liftM, monadLift, MonadLift.monadLift, StateT.lift, StateT.run,
      bind, Except.bind, pure, Except.pure]

theorem builds_get_iff {found : Draft} :
    Builds get draft found draft' ↔ draft = found ∧ draft = draft' := by
  simp [Builds, get, getThe, MonadStateOf.get, StateT.get, StateT.run, pure, Except.pure]

theorem builds_set_iff {next : Draft} {u : PUnit} :
    Builds (set next) draft u draft' ↔ next = draft' := by
  simp [Builds, set, MonadStateOf.set, StateT.set, StateT.run, pure, Except.pure]

theorem not_builds_throw {misuse : Misuse} {a : α} : ¬ Builds (throw misuse) draft a draft' := by
  intro h
  cases h

/-- Every mode of a draft has been checked. -/
def Draft.Checked (draft : Draft) : Prop :=
  ∀ mode ∈ draft.modes, mode.Checked

/-- Only an array of segments gives the scopes of segments. -/
theorem edgeScope_segments {edge : Edge} {spec : Option ScopeSpec} {pattern : Option Pattern}
    {segments : List SegmentScope}
    (h : edgeScope edge spec pattern = .ok (some (.segments segments))) :
    Outline.hasSegments pattern = true := by
  unfold edgeScope at h
  split at h
  all_goals cases h
  next parts _ hparts =>
    obtain ⟨pattern, rfl, hpattern⟩ := Option.bind_eq_some_iff.mp hparts
    simp [Outline.hasSegments, Pattern.isSegments, hpattern]

/-- A mode has the flags and the hooks of its fields, and its edges get their scopes from the
patterns. -/
theorem modeOf_eq_ok {grammar : Grammar} {fields : ModeFields} {hook : Option Hook}
    {parent : Option LexerMode} {mode : LexerMode}
    (h : modeOf grammar fields hook parent = .ok mode) :
    edgeScope .begin fields.beginScope fields.beginPattern = .ok mode.beginScope ∧
      edgeScope .finish fields.endScope fields.endPattern = .ok mode.endScope ∧
      mode.skip = fields.skip ∧
      mode.excludeBegin = fields.excludeBegin ∧ mode.excludeEnd = fields.excludeEnd ∧
      mode.returnBegin = fields.returnBegin ∧ mode.returnEnd = fields.returnEnd ∧
      mode.onBegin = fields.onBegin ∧ mode.onEnd = fields.onEnd ∧ mode.beforeBegin = hook ∧
      mode.endsWithParent = fields.endsWithParent := by
  simp only [modeOf, pure_bind] at h
  obtain ⟨beginScope, hbegin, h⟩ := ok_of_bind_eq_ok h
  obtain ⟨endScope, hend, h⟩ := ok_of_bind_eq_ok h
  split at h
  · obtain ⟨endRegex, -, h⟩ := ok_of_bind_eq_ok h
    split at h
    · obtain ⟨keywords, -, h⟩ := ok_of_bind_eq_ok h
      cases h
      exact ⟨hbegin, hend, rfl, rfl, rfl, rfl, rfl, rfl, rfl, rfl, rfl⟩
    · cases h
      exact ⟨hbegin, hend, rfl, rfl, rfl, rfl, rfl, rfl, rfl, rfl, rfl⟩
  · split at h
    · obtain ⟨keywords, -, h⟩ := ok_of_bind_eq_ok h
      cases h
      exact ⟨hbegin, hend, rfl, rfl, rfl, rfl, rfl, rfl, rfl, rfl, rfl⟩
    · cases h
      exact ⟨hbegin, hend, rfl, rfl, rfl, rfl, rfl, rfl, rfl, rfl, rfl⟩

theorem modeOf_checked {grammar : Grammar} {fields : ModeFields} {hook : Option Hook}
    {parent : Option LexerMode} {mode : LexerMode} (hfields : fields.Checked)
    (h : modeOf grammar fields hook parent = .ok mode) : mode.Checked := by
  obtain ⟨hbegin, hend, hskip, hexcludeBegin, hexcludeEnd, hreturnBegin, hreturnEnd, -⟩ :=
    modeOf_eq_ok h
  constructor
  · intro segments hsegments
    rw [hsegments] at hbegin
    rw [hskip, hexcludeBegin, hreturnBegin]
    exact hfields.begin (edgeScope_segments hbegin)
  · intro segments hsegments
    rw [hsegments] at hend
    rw [hskip, hexcludeEnd, hreturnEnd]
    exact hfields.finish (edgeScope_segments hend)

theorem add_checked {mode : LexerMode} {number : Nat} (hmode : mode.Checked)
    (hdraft : draft.Checked) (h : Builds (add mode) draft number draft') : draft'.Checked := by
  obtain ⟨_, _, hget, h⟩ := builds_bind_iff.mp h
  obtain ⟨rfl, rfl⟩ := builds_get_iff.mp hget
  obtain ⟨_, _, hset, hpure⟩ := builds_bind_iff.mp h
  obtain ⟨-, rfl⟩ := builds_pure_iff.mp hpure
  rw [← builds_set_iff.mp hset]
  intro other hmem
  rcases Array.mem_push.mp hmem with hmem | rfl
  · exact hdraft other hmem
  · exact hmode

theorem checked_default : (default : LexerMode).Checked := by
  constructor
  · intro _ hsegments
    cases hsegments
  · intro _ hsegments
    cases hsegments

theorem Draft.Checked.getD (hdraft : draft.Checked) (number : Nat) :
    (draft.modes.getD number default).Checked := by
  rw [Array.getD_eq_getD_getElem?]
  cases hget : draft.modes[number]? with
  | none => exact checked_default
  | some mode => exact hdraft mode (Array.mem_of_getElem? hget)

theorem Draft.Checked.of_modes_eq (hdraft : draft.Checked) (h : draft'.modes = draft.modes) :
    draft'.Checked := by
  unfold Draft.Checked
  rw [h]
  exact hdraft

theorem complete_checked {grammar : Grammar} {number : Nat} {contains : List Nat}
    {next : Option Nat} {u : Unit} (hdraft : draft.Checked)
    (h : Builds (complete grammar number contains next) draft u draft') : draft'.Checked := by
  obtain ⟨_, _, hget, h⟩ := builds_bind_iff.mp h
  obtain ⟨rfl, rfl⟩ := builds_get_iff.mp hget
  simp only at h
  split at h
  · exact absurd h not_builds_throw
  · rw [← builds_set_iff.mp h]
    intro other hmem
    rcases Array.mem_or_eq_of_mem_setIfInBounds hmem with hmem | rfl
    · exact hdraft other hmem
    · have hmode := hdraft.getD number
      exact ⟨hmode.begin, hmode.finish⟩

theorem known?_eq {isTied : Bool} {place : Option Place} {number : Option Nat}
    (h : Builds (known? isTied place) draft number draft') : draft' = draft := by
  unfold known? at h
  split at h
  · obtain ⟨_, _, hget, hpure⟩ := builds_bind_iff.mp h
    rw [← (builds_pure_iff.mp hpure).2, ← (builds_get_iff.mp hget).2]
  · exact (builds_pure_iff.mp h).2.symm

theorem remember_modes {isTied : Bool} {place : Option Place} {number : Nat} {u : Unit}
    (h : Builds (remember isTied place number) draft u draft') : draft'.modes = draft.modes := by
  unfold remember at h
  split at h
  · cases h
    rfl
  · rw [(builds_pure_iff.mp h).2]

mutual
theorem buildMode_checked {grammar : Grammar} {parent : Option Nat} {outline : Outline}
    {number : Nat} {draft draft' : Draft} (houtline : outline.Checked) (hdraft : draft.Checked)
    (h : Builds (buildMode grammar parent outline) draft number draft') : draft'.Checked := by
  match outline with
  | .mk place isTied hook fields contains next =>
    obtain ⟨hfields, hcontains, hnext⟩ := Outline.checked_mk.mp houtline
    rw [buildMode] at h
    obtain ⟨_, _, hget, h⟩ := builds_bind_iff.mp h
    obtain ⟨rfl, rfl⟩ := builds_get_iff.mp hget
    obtain ⟨mode, _, hlift, h⟩ := builds_bind_iff.mp h
    obtain ⟨hok, rfl⟩ := builds_lift_iff.mp hlift
    obtain ⟨sound, hsound, hmode⟩ := ok_of_bind_eq_ok hok
    obtain ⟨_, _, hadd, h⟩ := builds_bind_iff.mp h
    have hadded := add_checked (modeOf_checked (hfields sound hsound) hmode) hdraft hadd
    obtain ⟨_, _, hchildren, h⟩ := builds_bind_iff.mp h
    have hbuilt := buildChildren_checked hcontains hadded hchildren
    obtain ⟨_, _, hfollowing, h⟩ := builds_bind_iff.mp h
    have hfollowed := buildNext_checked hnext hbuilt hfollowing
    obtain ⟨_, _, hcomplete, hpure⟩ := builds_bind_iff.mp h
    obtain ⟨-, rfl⟩ := builds_pure_iff.mp hpure
    exact complete_checked hfollowed hcomplete

theorem buildChildren_checked {grammar : Grammar} {atTop : Bool} {owner : Nat}
    {children : List (Option Outline)} {numbers : List Nat} {draft draft' : Draft}
    (hchildren : Outline.AllChecked children) (hdraft : draft.Checked)
    (h : Builds (buildChildren grammar atTop owner children) draft numbers draft') :
    draft'.Checked := by
  match children with
  | [] =>
    rw [buildChildren] at h
    obtain ⟨-, rfl⟩ := builds_pure_iff.mp h
    exact hdraft
  | none :: children =>
    rw [buildChildren] at h
    split at h
    · obtain ⟨_, _, hthrow, _⟩ := builds_bind_iff.mp h
      exact absurd hthrow not_builds_throw
    · obtain ⟨_, _, hrest, hpure⟩ := builds_bind_iff.mp h
      obtain ⟨-, rfl⟩ := builds_pure_iff.mp hpure
      exact buildChildren_checked (Outline.allChecked_cons.mp hchildren).2 hdraft hrest
  | some child :: children =>
    obtain ⟨hchild, hchildren⟩ := Outline.allChecked_cons.mp hchildren
    rw [buildChildren] at h
    simp only [pure_bind] at h
    obtain ⟨known, _, hknown, h⟩ := builds_bind_iff.mp h
    cases known?_eq hknown
    split at h
    · obtain ⟨_, _, hrest, hpure⟩ := builds_bind_iff.mp h
      obtain ⟨-, rfl⟩ := builds_pure_iff.mp hpure
      exact buildChildren_checked hchildren hdraft hrest
    · obtain ⟨_, _, hbuild, h⟩ := builds_bind_iff.mp h
      have hbuilt := buildMode_checked (Outline.nextChecked_some.mp hchild) hdraft hbuild
      obtain ⟨_, _, hremember, h⟩ := builds_bind_iff.mp h
      have hremembered := hbuilt.of_modes_eq (remember_modes hremember)
      obtain ⟨_, _, hrest, hpure⟩ := builds_bind_iff.mp h
      obtain ⟨-, rfl⟩ := builds_pure_iff.mp hpure
      exact buildChildren_checked hchildren hremembered hrest

theorem buildNext_checked {grammar : Grammar} {parent : Option Nat} {next : Option Outline}
    {number : Option Nat} {draft draft' : Draft} (hnext : Outline.NextChecked next)
    (hdraft : draft.Checked)
    (h : Builds (buildNext grammar parent next) draft number draft') : draft'.Checked := by
  match next with
  | none =>
    rw [buildNext] at h
    obtain ⟨-, rfl⟩ := builds_pure_iff.mp h
    exact hdraft
  | some following =>
    cases parent with
    | none =>
      rw [buildNext] at h
      exact absurd h not_builds_throw
    | some parent =>
      rw [buildNext] at h
      obtain ⟨known, _, hknown, h⟩ := builds_bind_iff.mp h
      cases known?_eq hknown
      split at h
      · obtain ⟨-, rfl⟩ := builds_pure_iff.mp h
        exact hdraft
      · obtain ⟨_, _, hbuild, h⟩ := builds_bind_iff.mp h
        have hbuilt := buildMode_checked (Outline.nextChecked_some.mp hnext) hdraft hbuild
        obtain ⟨_, _, hremember, hpure⟩ := builds_bind_iff.mp h
        obtain ⟨-, rfl⟩ := builds_pure_iff.mp hpure
        exact hbuilt.of_modes_eq (remember_modes hremember)
end

end Lexer

/-- The flags of every mode of a compiled grammar go with its segments. -/
theorem Grammar.compile_checked {grammar : Grammar} {lexer : Lexer}
    (h : grammar.compile = .ok lexer) (number : Nat) : (lexer.mode number).Checked := by
  obtain ⟨⟨_, draft⟩, hbuild, hlexer⟩ := ok_of_bind_eq_ok h
  cases hlexer
  have hempty : Lexer.Draft.Checked {} := fun _ hmem => by simp at hmem
  have hdraft := Lexer.buildMode_checked (Outline.ofRoot_checked grammar.root) hempty hbuild
  exact hdraft.getD number

end Highlighter
