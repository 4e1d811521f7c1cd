import Highlighter.Proofs.Scan.Alike
import Highlighter.Proofs.Scan.Step

/-!
# Scans that agree

Two scans of one text whose lexers have related modes handle related matches alike: hooks are told
the same, the same modes end, and the same text goes to the same place. They stay alike step by step
as long as their rules find related matches, and so do their results.
-/

namespace Highlighter.Scan

variable {R : Nat → Nat → Prop} {C : String → List Frame → List Frame → Prop}
  {P : Registers → Registers → Prop} {lenient : Bool} {env env' : Env} {nested nested' : Nested}
  {state state' : State} {found found' : RuleMatch}

theorem span_alike (h : found.Alike R found') : found.span = found'.span := by
  rw [RuleMatch.span, RuleMatch.span, h.groups 0, h.index]

theorem width_alike (h : found.Alike R found') : width found = width found' := by
  rw [width, width, span_alike h]

theorem lexeme_alike (henv : env.Alike R env') (h : found.Alike R found') :
    env.lexeme found = env'.lexeme found' := by
  rw [Env.lexeme, Env.lexeme, span_alike h, henv.text]

/-- Hooks are told the same about groups that are the same but for those at the end that took no
part. -/
theorem trim_eq {groups groups' : List (Option Regex.Span)}
    (h : ∀ number : Nat, groups[number]?.join = groups'[number]?.join) :
    MatchInfo.trim groups = MatchInfo.trim groups' := by
  have hnone : ∀ {groups : List (Option Regex.Span)},
      (∀ number : Nat, groups[number]?.join = none) → MatchInfo.trim groups = [] := by
    intro groups h
    induction groups with
    | nil => rfl
    | cons group groups ih =>
      obtain rfl : group = none := h 0
      simp only [MatchInfo.trim, ih fun number => h (number + 1)]
  induction groups generalizing groups' with
  | nil => exact (hnone fun number => (h number).symm).symm
  | cons group groups ih =>
    cases groups' with
    | nil => exact hnone h
    | cons group' groups' =>
      obtain rfl : group = group' := h 0
      have hrest : MatchInfo.trim groups = MatchInfo.trim groups' := ih fun number => h (number + 1)
      simp only [MatchInfo.trim, hrest]

theorem info_alike (henv : env.Alike R env') (h : found.Alike R found') :
    env.info found = env'.info found' := by
  rw [Env.info, Env.info, h.index, trim_eq h.groups, henv.text]

theorem kind_cases (h : found.Alike R found') :
    (∃ number number', found.kind = .begin number ∧ found'.kind = .begin number' ∧
        R number number') ∨
      (found.kind = .finish ∧ found'.kind = .finish) ∨
      (found.kind = .illegal ∧ found'.kind = .illegal) := by
  have hkind := h.kind
  generalize found.kind = kind at hkind ⊢
  generalize found'.kind = kind' at hkind ⊢
  cases hkind with
  | begin hnumber => exact .inl ⟨_, _, rfl, rfl, hnumber⟩
  | finish => exact .inr (.inl ⟨rfl, rfl⟩)
  | illegal => exact .inr (.inr ⟨rfl, rfl⟩)

theorem illegal_iff (h : found.Alike R found') :
    found.kind = .illegal ↔ found'.kind = .illegal := by
  rcases kind_cases h with ⟨_, _, hkind, hkind', -⟩ | ⟨hkind, hkind'⟩ | ⟨hkind, hkind'⟩ <;>
    simp [hkind, hkind']

theorem openScope_alike (henv : env.Alike R env') {mode mode' : LexerMode}
    (h : mode.bare = mode'.bare) (tree : TokenTree) :
    openScope env mode tree = openScope env' mode' tree := by
  have hscope : mode.scope = mode'.scope := (congrArg LexerMode.scope h :)
  simp only [openScope, hscope, henv.scopeName]

theorem enter_alike (henv : env.Alike R env') {number number' : Nat} (hnumber : R number number')
    (hfound : found.Alike R found') (data : FrameData) (h : state.Alike R C P state') :
    (enter env number found data state).Alike R C P (enter env' number' found' data state') := by
  have hbare := henv.lexer.bare _ _ hnumber
  have hscope : (env.lexer.mode number).beginScope = (env'.lexer.mode number').beginScope :=
    (congrArg LexerMode.beginScope hbare :)
  have hopened := h.withTree (openScope env (env.lexer.mode number) state.tree)
  have htree : openScope env (env.lexer.mode number) state.tree =
      openScope env' (env'.lexer.mode number') state'.tree := by
    rw [h.tree, openScope_alike henv hbare]
  have hframes : FramesAlike R ({ mode := number, data := data } :: state.frames)
      ({ mode := number', data := data } :: state'.frames) := .cons ⟨hnumber, rfl, rfl⟩ h.frames
  rw [enter_eq, enter_eq, hscope]
  split
  · exact ⟨hframes, htree, h.buffer, h.relevance, h.hits, h.continuations, h.registers⟩
  · simp only [htree, h.buffer, henv.scopeName]
    exact ⟨hframes, rfl, rfl, h.relevance, h.hits, h.continuations, h.registers⟩
  · next segments _ =>
    rw [htree] at hopened ⊢
    have hadded := addSegments_alike henv hfound hopened segments
    exact ⟨hframes, hadded.tree, rfl, hadded.relevance, hadded.hits, hadded.continuations,
      hadded.registers⟩

theorem popFrame_alike (henv : env.Alike R env') (h : state.Alike R C P state') :
    (state.popFrame env).Alike R C P (state'.popFrame env') := by
  obtain ⟨frames, tree, buffer, relevance, hits, continuations, index, iterations, lastMatch, cursor,
    resume⟩ := state
  obtain ⟨frames', tree', buffer', relevance', hits', continuations', index', iterations',
    lastMatch', cursor', resume'⟩ := state'
  obtain ⟨hframes, htree, hbuffer, hrelevance, hhits, hcontinuations, hregisters⟩ := h
  cases hframes with
  | nil => exact ⟨.nil, htree, hbuffer, hrelevance, hhits, hcontinuations, hregisters⟩
  | @cons frame frame' outer outer' hframe houter =>
    have hbare := henv.lexer.bare _ _ hframe.mode
    have hscope : (env.lexer.mode frame.mode).scope = (env'.lexer.mode frame'.mode).scope :=
      (congrArg LexerMode.scope hbare :)
    have hskip : (env.lexer.mode frame.mode).skip = (env'.lexer.mode frame'.mode).skip :=
      (congrArg LexerMode.skip hbare :)
    have hsub : (env.lexer.mode frame.mode).subLanguage =
        (env'.lexer.mode frame'.mode).subLanguage := (congrArg LexerMode.subLanguage hbare :)
    have hscore : (env.lexer.mode frame.mode).relevance =
        (env'.lexer.mode frame'.mode).relevance := (congrArg LexerMode.relevance hbare :)
    simp only at htree hrelevance
    simp only [State.popFrame, hscope, hskip, hsub, hscore, hframe.isCredited, htree, hrelevance]
    exact ⟨houter, rfl, hbuffer, rfl, hhits, hcontinuations, hregisters⟩

theorem popFrames_alike (henv : env.Alike R env') (h : state.Alike R C P state') (count : Nat) :
    (state.popFrames env count).Alike R C P (state'.popFrames env' count) := by
  induction count generalizing state state' with
  | zero => exact h
  | succ count ih => exact ih (popFrame_alike henv h)

theorem askAll_agree (henv : env.Alike R env') (hfound : found.Alike R found')
    {number number' : Nat} (hnumber : R number number') :
    Agree Eq (askAll (env.info found) (beginHooks (env.lexer.mode number)) {})
      (askAll (env'.info found') (beginHooks (env'.lexer.mode number')) {}) := by
  have hbare := henv.lexer.bare _ _ hnumber
  have hhooks : beginHooks (env.lexer.mode number) = beginHooks (env'.lexer.mode number') :=
    (congrArg beginHooks hbare :)
  rw [info_alike henv hfound, hhooks]
  exact steady_askAll _ _ _

/-- Two matches have been handled alike: the scans advance by the same from alike states, or both
have ignored their matches. -/
inductive HandledAlike (R : Nat → Nat → Prop) (C : String → List Frame → List Frame → Prop)
    (P : Registers → Registers → Prop) (ignored ignored' : State × Nat) :
    State × Nat → State × Nat → Prop where
  | alike {state state' : State} {advance : Nat} (h : state.Alike R C P state') :
      HandledAlike R C P ignored ignored' (state, advance) (state', advance)
  | ignored : HandledAlike R C P ignored ignored' ignored ignored'

theorem HandledAlike.of_components {ignored ignored' handled handled' : State × Nat}
    (hstate : handled.1.Alike R C P handled'.1) (hadvance : handled.2 = handled'.2) :
    HandledAlike R C P ignored ignored' handled handled' := by
  obtain ⟨state, advance⟩ := handled
  obtain ⟨state', advance'⟩ := handled'
  cases hadvance
  exact .alike hstate

theorem begin_agree (henv : env.Alike R env') (hnested : nested.Alike lenient C nested')
    (h : state.Alike R C P state') (hfound : found.Alike R found') {number number' : Nat}
    (hnumber : R number number') :
    AgreeExcept lenient
      (HandledAlike R C P (ignore env found.index state) (ignore env' found'.index state'))
      (begin env nested number found state) (begin env' nested' number' found' state') := by
  have hbare := henv.lexer.bare _ _ hnumber
  have hskip : (env.lexer.mode number).skip = (env'.lexer.mode number').skip :=
    (congrArg LexerMode.skip hbare :)
  have hexclude : (env.lexer.mode number).excludeBegin = (env'.lexer.mode number').excludeBegin :=
    (congrArg LexerMode.excludeBegin hbare :)
  have hreturn : (env.lexer.mode number).returnBegin = (env'.lexer.mode number').returnBegin :=
    (congrArg LexerMode.returnBegin hbare :)
  simp only [begin]
  refine .bind (.of_agree (askAll_agree henv hfound hnumber)) ?_
  rintro ⟨decision, data⟩ _ rfl
  simp only [hskip, hexclude, hreturn, lexeme_alike henv hfound, width_alike hfound]
  have henter : ∀ (ready ready' : State) (advance : Nat), ready.Alike R C P ready' →
      HandledAlike R C P (ignore env found.index state) (ignore env' found'.index state')
        (enter env number found data ready, advance)
        (enter env' number' found' data ready', advance) :=
    fun ready ready' _ hready => .alike (enter_alike henv hnumber hfound data hready)
  split
  · exact .of_pure .ignored
  · split
    · exact .bind (.of_pure (h.addToBuffer _)) fun _ _ hready => .of_pure (henter _ _ _ hready)
    · refine .bind (flush_agree (P := P) henv hnested ?_) fun flushed flushed' hflushed =>
        .of_pure (henter _ _ _ ?_)
      · split
        · exact h.addToBuffer _
        · exact h
      · split
        · exact hflushed.addToBuffer _
        · exact hflushed

theorem countEnded_alike (henv : env.Alike R env') {frames frames' : List Frame}
    (h : FramesAlike R frames frames') : countEnded env frames = countEnded env' frames' := by
  induction h with
  | nil => rfl
  | @cons frame frame' outer outer' hframe houter ih =>
    cases houter with
    | nil => rfl
    | cons _ _ =>
      have hends : (env.lexer.mode frame.mode).endsParent =
          (env'.lexer.mode frame'.mode).endsParent :=
        (congrArg LexerMode.endsParent (henv.lexer.bare _ _ hframe.mode) :)
      change (if _ then countEnded env (_ :: _) + 1 else 1) =
        if _ then countEnded env' (_ :: _) + 1 else 1
      rw [hends, ih]

theorem ownEnd_agree (henv : env.Alike R env') (hfound : found.Alike R found')
    {frame frame' : Frame} (h : frame.Alike R frame') :
    Agree (fun outcome outcome' => outcome.1 = outcome'.1 ∧ outcome.2.Alike R outcome'.2)
      (ownEnd env found frame) (ownEnd env' found' frame') := by
  have hbare := henv.lexer.bare _ _ h.mode
  have hends : endsAt (env.lexer.mode frame.mode) env.text found.index =
      endsAt (env'.lexer.mode frame'.mode) env'.text found'.index := by
    rw [henv.text, hfound.index]
    exact (congrArg (endsAt · env'.text found'.index) hbare :)
  have hhook : (env.lexer.mode frame.mode).onEnd = (env'.lexer.mode frame'.mode).onEnd :=
    (congrArg LexerMode.onEnd hbare :)
  rw [ownEnd, ownEnd, hends, hhook, info_alike henv hfound, h.data]
  split
  · exact agree_pure ⟨rfl, h⟩
  · exact agree_pure ⟨rfl, h⟩
  · refine .bind (steady_ask _ _ _ _) ?_
    rintro ⟨decision, data⟩ _ rfl
    exact agree_pure ⟨rfl, h.mode, rfl, h.isCredited⟩

/-- The same modes end. -/
theorem findEnded_agree (henv : env.Alike R env') (hfound : found.Alike R found')
    {frames frames' : List Frame} (h : FramesAlike R frames frames') :
    Agree (fun outcome outcome' => FramesAlike R outcome.1 outcome'.1 ∧ outcome.2 = outcome'.2)
      (findEnded env found frames) (findEnded env' found' frames') := by
  induction h with
  | nil => exact agree_pure ⟨.nil, rfl⟩
  | @cons frame frame' outer outer' hframe houter ih =>
    have hparent : (env.lexer.mode frame.mode).endsWithParent =
        (env'.lexer.mode frame'.mode).endsWithParent :=
      (congrArg LexerMode.endsWithParent (henv.lexer.bare _ _ hframe.mode) :)
    rw [findEnded_cons, findEnded_cons]
    refine .bind (ownEnd_agree henv hfound hframe) ?_
    rintro ⟨accepted, next⟩ ⟨_, next'⟩ ⟨rfl, hnext⟩
    have hframes : FramesAlike R (next :: outer) (next' :: outer') := .cons hnext houter
    simp only [hparent, countEnded_alike henv hframes]
    split
    · exact agree_pure ⟨hframes, rfl⟩
    · split
      · refine .bind ih ?_
        rintro ⟨rest, count⟩ ⟨rest', _⟩ ⟨hrest, rfl⟩
        exact agree_pure ⟨.cons hnext hrest, rfl⟩
      · exact agree_pure ⟨hframes, rfl⟩

theorem placeEnd_agree (henv : env.Alike R env') (hnested : nested.Alike lenient C nested')
    (h : state.Alike R C P state') (hfound : found.Alike R found') :
    AgreeExcept lenient (State.Alike R C P) (placeEnd env nested found state)
      (placeEnd env' nested' found' state') := by
  have hbare := h.top henv
  have hscope : (state.top env).endScope = (state'.top env').endScope :=
    (congrArg LexerMode.endScope hbare :)
  have hskip : (state.top env).skip = (state'.top env').skip := (congrArg LexerMode.skip hbare :)
  have hexclude : (state.top env).excludeEnd = (state'.top env').excludeEnd :=
    (congrArg LexerMode.excludeEnd hbare :)
  have hreturn : (state.top env).returnEnd = (state'.top env').returnEnd :=
    (congrArg LexerMode.returnEnd hbare :)
  simp only [placeEnd, hscope, hskip, hexclude, hreturn, lexeme_alike henv hfound]
  split
  · refine .bind (flush_agree henv hnested h) fun flushed flushed' hflushed => .of_pure ?_
    rw [hflushed.tree, henv.scopeName]
    exact hflushed.withTree _
  · exact .bind (flush_agree henv hnested h) fun flushed flushed' hflushed =>
      .of_pure (addSegments_alike henv hfound hflushed _)
  · split
    · exact .of_pure (h.addToBuffer _)
    · refine .bind (flush_agree (P := P) henv hnested ?_) fun flushed flushed' hflushed =>
        .of_pure ?_
      · split
        · exact h.addToBuffer _
        · exact h
      · split
        · exact hflushed.addToBuffer _
        · exact hflushed

theorem outermost_next_alike (henv : env.Alike R env') {frames frames' : List Frame}
    (h : FramesAlike R frames frames') (place : Nat) :
    Option.Rel R
      ((frames[place]?.map fun frame => env.lexer.mode frame.mode).getD default).next
      ((frames'[place]?.map fun frame => env'.lexer.mode frame.mode).getD default).next := by
  induction h generalizing place with
  | nil => exact .none
  | @cons frame frame' outer outer' hframe _ ih =>
    cases place with
    | zero => exact henv.lexer.next _ _ hframe.mode
    | succ place => exact ih place

/-- Either both scans leave equally many modes and advance by the same, or neither leaves any. -/
theorem finish_agree (henv : env.Alike R env') (hnested : nested.Alike lenient C nested')
    (h : state.Alike R C P state') (hfound : found.Alike R found') :
    AgreeExcept lenient
      (fun outcome outcome' => outcome.1.Alike R C P outcome'.1 ∧ outcome.2 = outcome'.2)
      (finish env nested found state) (finish env' nested' found' state') := by
  simp only [finish]
  refine .bind (.of_agree (findEnded_agree henv hfound h.frames)) ?_
  rintro ⟨frames, count⟩ ⟨frames', _⟩ ⟨hframes, rfl⟩
  have hstate : ({ state with frames := frames } : State).Alike R C P
      { state' with frames := frames' } :=
    ⟨hframes, h.tree, h.buffer, h.relevance, h.hits, h.continuations, h.registers⟩
  cases count with
  | none => exact .of_pure ⟨hstate, rfl⟩
  | some count =>
    refine .bind (placeEnd_agree henv hnested hstate hfound) fun placed placed' hplaced => .of_pure ?_
    have hreturn : (({ state with frames := frames } : State).top env).returnEnd =
        (({ state' with frames := frames' } : State).top env').returnEnd :=
      (congrArg LexerMode.returnEnd (hstate.top henv) :)
    have hpopped := popFrames_alike henv hplaced count
    have hnext := outermost_next_alike henv hframes (count - 1)
    simp only [hreturn, width_alike hfound]
    refine ⟨?_, trivial⟩
    generalize ((frames[count - 1]?.map fun frame => env.lexer.mode frame.mode).getD default).next =
      next at hnext ⊢
    generalize ((frames'[count - 1]?.map fun frame => env'.lexer.mode frame.mode).getD
      default).next = next' at hnext ⊢
    cases hnext with
    | none => exact hpopped
    | some hnumber => exact enter_alike henv hnumber hfound {} hpopped

theorem complain_alike (henv : env.Alike R env') (h : state.Alike R C P state')
    (hfound : found.Alike R found') : complain env found state = complain env' found' state' := by
  have hlabel : (state.top env).label = (state'.top env').label :=
    (congrArg LexerMode.label (h.top henv) :)
  simp only [complain, hlabel, lexeme_alike henv hfound, henv.text, hfound.index, henv.settings,
    henv.language, h.tree]

theorem takeAsText_alike (henv : env.Alike R env') (h : state.Alike R C P state')
    (hfound : found.Alike R found') :
    (takeAsText env found state).1.Alike R C P (takeAsText env' found' state').1 ∧
      (takeAsText env found state).2 = (takeAsText env' found' state').2 := by
  have hillegal : (decide (found.kind = .illegal) && decide (width found = 0)) =
      (decide (found'.kind = .illegal) && decide (width found' = 0)) := by
    rw [width_alike hfound, decide_eq_decide.mpr (illegal_iff hfound)]
  simp only [takeAsText, hillegal]
  split
  · rw [hfound.index]
    exact ⟨h.takeChar henv _, rfl⟩
  · rw [lexeme_alike henv hfound]
    exact ⟨h.addToBuffer _, width_alike hfound⟩

/-- Two scans treat illegal matches and faults the same. Where agreement is lenient, the first of
them fails at every fault instead, and at illegal matches unless the second one ignores them. -/
inductive Options.Alike (lenient : Bool) : Options → Options → Prop where
  | same {options : Options} (hexact : lenient = false) : Options.Alike lenient options options
  | strict {options options' : Options} (hlenient : lenient = true)
      (hsafe : options.safeMode = false)
      (hignore : options.ignoreIllegals = true → options'.ignoreIllegals = true) :
      Options.Alike lenient options options'

/-- The state once a match is kept as the last one. -/
def State.recorded (found : RuleMatch) (state : State) : State :=
  { state with lastMatch := some (found.kind, found.index) }

/-- Related matches are handled alike when both scans are within their limits and neither match, or
both, end a mode where it began without text. -/
theorem handle_agree (henv : env.Alike R env') (hnested : nested.Alike lenient C nested')
    (hoptions : env.options.Alike lenient env'.options) (hfound : found.Alike R found')
    (h : state.Alike R C P state')
    (hrecorded : (state.recorded found).Alike R C P (state'.recorded found'))
    (hrunaway : isRunaway env found.index state = isRunaway env' found'.index state')
    (hempty : Option.Rel R (emptyMode? found state) (emptyMode? found' state')) :
    AgreeExcept lenient
      (HandledAlike R C P (ignore env found.index (state.recorded found))
        (ignore env' found'.index (state'.recorded found')))
      (handle env nested found state) (handle env' nested' found' state') := by
  have hfault : env.fault = env'.fault := by
    funext cause rule
    rw [Env.fault, Env.fault, henv.language]
  simp only [handle, hrunaway, hfault]
  split
  · exact .of_throw _
  generalize emptyMode? found state = empty at hempty ⊢
  generalize emptyMode? found' state' = empty' at hempty ⊢
  cases hempty with
  | @some number number' hnumber =>
    have hlabel : (env.lexer.mode number).label = (env'.lexer.mode number').label :=
      (congrArg LexerMode.label (henv.lexer.bare _ _ hnumber) :)
    have htaken := h.takeChar henv found.index
    simp only [hlabel, throw_bind]
    rw [hfound.index] at htaken ⊢
    generalize env.options = options at hoptions ⊢
    generalize env'.options = options' at hoptions ⊢
    cases hoptions with
    | same =>
      split
      · exact .of_throw _
      · exact .of_pure (.alike htaken)
    | strict hlenient hsafe _ =>
      simp only [hsafe, Bool.not_false, if_true]
      exact .of_excused hlenient _
  | none =>
    simp only
    rcases kind_cases hfound with ⟨number, number', hkind, hkind', hnumber⟩ | ⟨hkind, hkind'⟩ |
      ⟨hkind, hkind'⟩
    · have hbegin := begin_agree henv hnested hrecorded hfound hnumber
      simp only [State.recorded, hkind, hkind'] at hbegin ⊢
      exact hbegin
    · have hfinish := finish_agree henv hnested hrecorded hfound
      simp only [State.recorded, hkind, hkind'] at hfinish ⊢
      refine .bind hfinish ?_
      rintro ⟨finished, advance⟩ ⟨finished', _⟩ ⟨hfinished, rfl⟩
      cases advance with
      | some advance => exact .of_pure (.alike hfinished)
      | none =>
        obtain ⟨htaken, hadvance⟩ := takeAsText_alike henv hfinished hfound
        exact .of_pure (.of_components htaken hadvance)
    · have hcomplaint := complain_alike henv hrecorded hfound
      obtain ⟨htaken, hadvance⟩ := takeAsText_alike henv hrecorded hfound
      simp only [State.recorded, hkind, hkind'] at hcomplaint htaken hadvance ⊢
      simp only [hcomplaint, throw_bind]
      generalize env.options = options at hoptions ⊢
      generalize env'.options = options' at hoptions ⊢
      cases hoptions with
      | same =>
        split
        · exact .of_throw _
        · exact .of_pure (.of_components htaken hadvance)
      | strict hlenient _ hignore =>
        cases hfirst : options.ignoreIllegals with
        | false =>
          simp only [Bool.not_false, if_true]
          exact .of_excused hlenient _
        | true =>
          simp only [hignore hfirst, Bool.not_true, Bool.false_eq_true, if_false]
          exact .of_pure (.of_components htaken hadvance)

end Highlighter.Scan
