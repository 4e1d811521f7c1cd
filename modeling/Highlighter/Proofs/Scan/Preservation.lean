import Highlighter.Proofs.Scan.Delivery
import Highlighter.Scan.Run

/-!
# A scan keeps the text

Between steps, the tree and the buffer hold the text up to the index. A step keeps this when the
match it finds is delivered, and every match is delivered where the flags of the modes do not
contradict each other and the groups of arrays make up their matches. By induction on the steps, a
scan that comes to its end has the whole text in its tree.
-/

namespace Highlighter

/-- The flags of the modes do not contradict each other. A match that is given back is not kept as
well, segments of an end match stem from the mode's own end pattern, and a mode that follows
another one has no segments of its own begin match to show. -/
structure Lexer.Orderly (lexer : Lexer) : Prop where
  returnBegin : ∀ number, (lexer.mode number).returnBegin = true →
    (lexer.mode number).skip = false ∧ (lexer.mode number).excludeBegin = false
  returnEnd : ∀ number, (lexer.mode number).returnEnd = true →
    (lexer.mode number).skip = false ∧ (lexer.mode number).excludeEnd = false ∧
      (lexer.mode number).endScope = none
  endSegments : ∀ number segments, (lexer.mode number).endScope = some (.segments segments) →
    (lexer.mode number).endsWithParent = false
  nextSegments : ∀ number next segments, (lexer.mode number).next = some next →
    (lexer.mode next).beginScope ≠ some (.segments segments)

/-- What the rules of a lexer find is grouped as its patterns are: the group of the matched rule
spans the match, and the groups of an array of segments make up the match of the array. -/
structure Lexer.Grouped (lexer : Lexer) : Prop where
  spans : ∀ number, (lexer.mode number).rules.SpansMatch
  begins : ∀ owner number segments text start cursor found rest,
    (lexer.mode owner).rules.find text start cursor = .ok (some found, rest) →
    found.kind = .begin number → (lexer.mode number).beginScope = some (.segments segments) →
    Scan.segmentsText text found segments = found.span.text text
  ends : ∀ number segments text start cursor found rest,
    (lexer.mode number).rules.find text start cursor = .ok (some found, rest) →
    found.kind = .finish → (lexer.mode number).endScope = some (.segments segments) →
    (lexer.mode number).endsWithParent = false →
    Scan.segmentsText text found segments = found.span.text text

namespace Lexer

variable {lexer : Lexer}

theorem mode_cases (lexer : Lexer) (number : Nat) :
    lexer.mode number ∈ lexer.modes.toList ∨ lexer.mode number = default := by
  unfold mode
  rw [Array.getD_eq_getD_getElem?]
  cases hmode : lexer.modes[number]? with
  | none => exact .inr rfl
  | some mode => exact .inl (Array.mem_toList_iff.mpr (Array.mem_of_getElem? hmode))

theorem mode_of_forall {motive : LexerMode → Prop} (hdefault : motive default)
    (h : ∀ mode ∈ lexer.modes.toList, motive mode) (number : Nat) : motive (lexer.mode number) := by
  rcases lexer.mode_cases number with hmem | heq
  · exact h _ hmem
  · rw [heq]
    exact hdefault

/-- No mode gives a match back, and none has scopes for the edges of its text. -/
def Plain (lexer : Lexer) : Prop :=
  ∀ mode ∈ lexer.modes.toList, mode.returnBegin = false ∧ mode.returnEnd = false ∧
    mode.beginScope = none ∧ mode.endScope = none

instance (lexer : Lexer) : Decidable lexer.Plain :=
  inferInstanceAs (Decidable (∀ mode ∈ lexer.modes.toList, _))

theorem Plain.orderly (h : lexer.Plain) : lexer.Orderly := by
  have hmode := mode_of_forall (motive := fun mode => mode.returnBegin = false ∧
    mode.returnEnd = false ∧ mode.beginScope = none ∧ mode.endScope = none)
    ⟨rfl, rfl, rfl, rfl⟩ h
  constructor
  · intro number hreturn
    cases (hmode number).1.symm.trans hreturn
  · intro number hreturn
    cases (hmode number).2.1.symm.trans hreturn
  · intro number segments hsegments
    cases (hmode number).2.2.2.symm.trans hsegments
  · intro number next segments _ hsegments
    cases (hmode next).2.2.1.symm.trans hsegments

theorem Plain.grouped (h : lexer.Plain)
    (hspans : ∀ number, (lexer.mode number).rules.SpansMatch) : lexer.Grouped := by
  have hmode := mode_of_forall (motive := fun mode => mode.beginScope = none ∧ mode.endScope = none)
    ⟨rfl, rfl⟩ fun mode hmem => (h mode hmem).2.2
  constructor
  · exact hspans
  · intro _ number segments _ _ _ _ _ _ _ hsegments
    cases (hmode number).1.symm.trans hsegments
  · intro number segments _ _ _ _ _ _ _ hsegments
    cases (hmode number).2.symm.trans hsegments

end Lexer

namespace Scan

variable {env : Env} {nested : Nested} {found : RuleMatch} {state state' : State} {move : Move}
  {advance : Nat} {before after : Trace}

/-- A mode that follows others has no segments of its begin match. -/
theorem not_segments_of_outermost_next (horderly : env.lexer.Orderly)
    {frames : List Frame} {count next : Nat} {segments : List SegmentScope}
    (hnext : (outermost env frames count).next = some next) :
    (env.lexer.mode next).beginScope ≠ some (.segments segments) := by
  unfold outermost at hnext
  cases hframe : frames[count - 1]? with
  | none =>
    rw [hframe] at hnext
    cases hnext
  | some frame =>
    rw [hframe] at hnext
    exact horderly.nextSegments frame.mode next segments hnext

theorem delivers_of_orderly {start cursor rest : Nat} (horderly : env.lexer.Orderly)
    (hgrouped : env.lexer.Grouped)
    (hfound : (state.top env).rules.find env.text start cursor = .ok (some found, rest))
    (h : Handled env found state move state' advance) : Delivers env found state move := by
  cases h with
  | stay => trivial
  | @enter number _ _ hkind _ =>
    simp only [Delivers]
    split
    · next segments hsegments => exact hgrouped.begins _ _ _ _ _ _ _ _ hfound hkind hsegments
    · intro hreturn hkept
      obtain ⟨hskip, hexclude⟩ := horderly.returnBegin number hreturn
      simp [hskip, hexclude] at hkept
  | @leave count _ _ hkind _ _ =>
    simp only [Delivers]
    split
    · next segments hsegments =>
      obtain ⟨next, hnext, hbegin⟩ := Option.bind_eq_some_iff.mp hsegments
      exact absurd hbegin (not_segments_of_outermost_next horderly hnext)
    · split
      · next segments hsegments =>
        exact hgrouped.ends _ _ _ _ _ _ _ hfound hkind hsegments
          (horderly.endSegments _ _ hsegments)
      · intro hreturn hkept
        obtain ⟨hskip, hexclude, hscope⟩ := horderly.returnEnd _ hreturn
        simp [State.top, hskip, hexclude, hscope] at hkept

/-- The state in which the search for the next match starts. -/
def State.begun (state : State) : State :=
  { state with
    iterations := state.iterations + 1
    cursor := if state.resume then state.cursor else 0
    resume := false }

/-- The state in which a match is handled: the text before it is in the buffer. -/
def State.reached (env : Env) (found : RuleMatch) (cursor : Nat) (state : State) : State :=
  { state.begun with
    cursor := cursor
    buffer := state.buffer ++ env.slice state.index found.index }

/-- A step searches, and handles the match that it finds. -/
theorem step_eq (env : Env) (nested : Nested) (state : State) :
    step env nested state =
      match (state.top env).rules.find env.text state.index state.begun.cursor with
      | .error error => throw (env.fault (.badRules error) none)
      | .ok (none, _) => return .done state.begun
      | .ok (some found, cursor) => do
        let (state', advance) ← handle env nested found (state.reached env found cursor)
        let state' := { state' with index := found.index + advance }
        return if env.text.size < state'.index then .done state' else .more state' :=
  rfl

/-- The state after a step. -/
def Progress.last : Progress → State
  | .more state | .done state => state

/-- A step finds no match and changes no text, or it finds one and handles it. -/
theorem step_cases {progress : Progress}
    (h : Returns (step env nested state) before progress after) :
    ((∃ cursor, (state.top env).rules.find env.text state.index state.begun.cursor =
        .ok (none, cursor)) ∧ progress = .done state.begun) ∨
      ∃ found cursor state' advance,
        (state.top env).rules.find env.text state.index state.begun.cursor =
          .ok (some found, cursor) ∧
        Returns (handle env nested found (state.reached env found cursor)) before
          (state', advance) after ∧
        progress.last = { state' with index := found.index + advance } := by
  rw [step_eq] at h
  split at h
  · exact absurd h not_returns_throw
  · next cursor hfind =>
    left
    obtain ⟨rfl, -⟩ := returns_pure_iff.mp h
    exact ⟨⟨cursor, hfind⟩, rfl⟩
  · next found cursor hfind =>
    right
    obtain ⟨⟨state', advance⟩, _, hhandle, hpure⟩ := returns_bind_iff.mp h
    obtain ⟨rfl, rfl⟩ := returns_pure_iff.mp hpure
    refine ⟨found, cursor, state', advance, hfind, hhandle, ?_⟩
    simp only
    split <;> rfl

/-- What a run comes to from where its loop has stopped. -/
def afterLoop (env : Env) (nested : Nested) :
    Outcome → Traced (Except (Fault × List Frame) Highlighted)
  | .failed fault frames => return .error (fault, frames)
  | .done state => do
    match ← (flushRest env nested state).run with
    | .error fault => return .error (fault, state.frames)
    | .ok state => return .ok (conclude env state)

theorem run_eq (env : Env) (nested : Nested) (frames : List Frame) :
    run env nested frames =
      loop env nested env.fuel (State.restore env frames) >>= afterLoop env nested :=
  rfl

/-- The scan has written the text up to its index. -/
def Reads (env : Env) (state : State) : Prop :=
  state.written = env.slice 0 state.index

/-- When a match is found, everything before it has been written. -/
theorem Reads.reached (h : Reads env state) (hle : state.index ≤ found.index) (cursor : Nat) :
    (state.reached env found cursor).written = env.slice 0 found.index := by
  have hgap : (state.reached env found cursor).written =
      state.written ++ env.slice state.index found.index :=
    (String.append_assoc).symm
  rw [hgap, h, Env.slice, Env.slice, Env.slice, Regex.Span.text_append (Nat.zero_le _) hle]

/-- One step keeps the text. -/
theorem step_reads {progress : Progress} (hnested : nested.KeepsText)
    (hchecked : ∀ number, (env.lexer.mode number).Checked) (horderly : env.lexer.Orderly)
    (hgrouped : env.lexer.Grouped) (hreads : Reads env state)
    (h : Returns (step env nested state) before progress after) : Reads env progress.last := by
  obtain ⟨_, rfl⟩ | ⟨found, cursor, state', advance, hfind, hhandle, hlast⟩ := step_cases h
  · exact hreads
  · obtain ⟨hspan, hwithin⟩ := RuleSet.find_within hfind
    have hle := (hgrouped.spans _).start_le_index hfind
    have htop : (state.reached env found cursor).top env = state.top env := rfl
    have hhandled := handle_handled hnested hspan hwithin hhandle
    have hdelivers := delivers_of_orderly horderly hgrouped (htop ▸ hfind) hhandled
    have hwritten := (hhandled.delivers_iff hchecked hspan hwithin).mpr hdelivers
    rw [hreads.reached hle] at hwritten
    rw [Reads, hlast]
    simp only [Env.slice] at hwritten ⊢
    rw [Regex.Span.text_append (Nat.zero_le _) (Nat.le_add_right _ _)] at hwritten
    exact hwritten

theorem loop_reads (hnested : nested.KeepsText)
    (hchecked : ∀ number, (env.lexer.mode number).Checked) (horderly : env.lexer.Orderly)
    (hgrouped : env.lexer.Grouped) {fuel : Nat} (hreads : Reads env state)
    (h : Gives (loop env nested fuel state) before (.done state') after) : Reads env state' := by
  induction fuel generalizing state before with
  | zero =>
    obtain ⟨heq, -⟩ := gives_pure_iff.mp h
    cases heq
    exact hreads
  | succ fuel ih =>
    obtain ⟨outcome, between, hstep, hrest⟩ := gives_bind_iff.mp h
    split at hrest
    · obtain ⟨heq, -⟩ := gives_pure_iff.mp hrest
      cases heq
    · obtain ⟨heq, -⟩ := gives_pure_iff.mp hrest
      cases heq
      exact step_reads hnested hchecked horderly hgrouped hreads hstep
    · next next =>
      exact ih (step_reads hnested hchecked horderly hgrouped hreads hstep) hrest

/-- A scan starts with nothing written. -/
theorem reads_restore (env : Env) (frames : List Frame) : Reads env (State.restore env frames) := by
  have hopened : ∀ (frames : List Frame) (tree : TokenTree),
      (frames.foldl (fun tree frame => openScope env (env.lexer.mode frame.mode) tree)
        tree).content = tree.content := by
    intro frames
    induction frames with
    | nil => exact fun _ => rfl
    | cons frame frames ih =>
      intro tree
      rw [List.foldl_cons, ih, content_openScope]
  unfold State.restore
  split
  · have hcontent := hopened frames.reverse TokenTree.empty
    rw [TokenTree.content_empty] at hcontent
    rw [Reads, State.written, String.append_empty, Env.slice, Regex.Span.text_self]
    exact hcontent
  · rw [Reads, State.written, String.append_empty, Env.slice, Regex.Span.text_self]
    exact TokenTree.content_empty

/-- What is left after the last match completes the text. -/
theorem flushRest_content (hnested : nested.KeepsText) (hreads : Reads env state)
    (h : Returns (flushRest env nested state) before state' after) :
    state'.tree.content = env.slice 0 env.text.size := by
  have hadds := flush_adds hnested h
  have hcontent : state'.tree.content =
      state.written ++ env.slice state.index env.text.size := by
    rw [hadds.content]
    exact (String.append_assoc).symm
  rw [hcontent, hreads, Env.slice, Env.slice, Env.slice]
  rcases Nat.le_total state.index env.text.size with hle | hle
  · exact Regex.Span.text_append (Nat.zero_le _) hle
  · rw [Regex.Span.text_of_le hle, String.append_empty, ← Regex.Span.text_min,
      Nat.min_eq_right hle]

end Scan

/-- The tree of a result is finished and has the given text. -/
structure Highlighted.Carries (result : Highlighted) (text : String) : Prop where
  openNodes : result.tree.openNodes = []
  content : result.tree.content = text

theorem Highlighted.Carries.text_eq {result : Highlighted} {text : String}
    (h : result.Carries text) : result.text = text := by
  rw [Highlighted.text, TokenTree.plain_eq_content h.openNodes, h.content]

theorem Highlighted.plain_carries (language : Option String) (text classPrefix : String) :
    (Highlighted.plain language text classPrefix).Carries text where
  openNodes := TokenTree.openNodes_finish _
  content := by simp [Highlighted.plain, Highlighted.ofTree]

namespace Scan

theorem conclude_carries (env : Env) (state : State) :
    (conclude env state).Carries state.tree.content where
  openNodes := TokenTree.openNodes_finish _
  content := by simp [conclude, Highlighted.ofTree]

/-- A scan that comes to its end has kept the text. -/
theorem run_carries {frames : List Frame} {result : Highlighted} (hnested : nested.KeepsText)
    (hchecked : ∀ number, (env.lexer.mode number).Checked) (horderly : env.lexer.Orderly)
    (hgrouped : env.lexer.Grouped)
    (h : Gives (run env nested frames) before (.ok result) after) :
    result.Carries (env.slice 0 env.text.size) := by
  obtain ⟨outcome, between, hloop, hrest⟩ := gives_bind_iff.mp h
  split at hrest
  · obtain ⟨heq, -⟩ := gives_pure_iff.mp hrest
    cases heq
  · next last =>
    obtain ⟨flushed, _, hflush, hrest⟩ := gives_bind_iff.mp hrest
    split at hrest
    · obtain ⟨heq, -⟩ := gives_pure_iff.mp hrest
      cases heq
    · obtain ⟨heq, -⟩ := gives_pure_iff.mp hrest
      cases heq
      have hreads := loop_reads hnested hchecked horderly hgrouped (reads_restore env frames) hloop
      rw [← flushRest_content hnested hreads hflush]
      exact conclude_carries env _

/-- A scan keeps the text, also where it falls back to the text as it stands. -/
theorem highlight_carries {frames : List Frame} {result : Highlighted}
    (hnested : nested.KeepsText) (hchecked : ∀ number, (env.lexer.mode number).Checked)
    (horderly : env.lexer.Orderly) (hgrouped : env.lexer.Grouped)
    (h : Returns (highlight env nested frames) before result after) :
    result.Carries (env.slice 0 env.text.size) := by
  have hplain := Highlighted.plain_carries (some env.language) (env.slice 0 env.text.size)
    env.settings.classPrefix
  simp only [highlight] at h
  obtain ⟨outcome, _, hrun, hrest⟩ := returns_bind_iff.mp h
  have hgives := returns_lift_iff.mp hrun
  split at hrest
  · obtain ⟨rfl, -⟩ := returns_pure_iff.mp hrest
    exact run_carries hnested hchecked horderly hgrouped hgives
  · split at hrest
    · exact absurd hrest not_returns_throw_bind
    · split at hrest
      · obtain ⟨rfl, -⟩ := returns_pure_iff.mp hrest
        exact ⟨hplain.openNodes, hplain.content⟩
      · obtain ⟨_, _, _, hpure⟩ := returns_bind_iff.mp hrest
        obtain ⟨rfl, -⟩ := returns_pure_iff.mp hpure
        exact ⟨hplain.openNodes, hplain.content⟩
      · exact absurd hrest not_returns_throw

end Scan

end Highlighter
