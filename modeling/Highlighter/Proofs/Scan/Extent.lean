import Highlighter.Proofs.Scan.Preservation

/-!
# Where nodes start and end

The matches of a scan and the moves they make say where the scope of every mode starts and ends,
with no regard to the tree. A `Layout` keeps account of that. The scan keeps up with it: the scopes
that are open in the tree start where the layout says, and every node of the layout has become a
node of the tree. For the text to be on the right side of every scope, the buffer has to be empty
whenever a scope opens or closes, which is why no mode may be skipped.
-/

namespace Highlighter.Scan

/-- A mode that is active, with the position at which its scope starts. -/
structure OpenMode where
  mode : Nat
  start : Nat
  deriving DecidableEq, Repr

/-- An account of scopes: the active modes, the innermost first, and the nodes of modes that have
been left, in the order in which they were left. -/
structure Layout where
  active : List OpenMode := []
  closed : List PlacedNode := []
  deriving DecidableEq, Repr

/-- The node of a mode that is left at a position, if the mode has a scope. -/
def OpenMode.node? (env : Env) (stop : Nat) (opened : OpenMode) : Option PlacedNode :=
  (env.lexer.mode opened.mode).scope.map fun scope =>
    ⟨some (env.lexer.scopeName scope), opened.start, env.slice opened.start stop⟩

/-- The scope of a begin match starts with the match, or after it where the mode excludes it. -/
def startAt (mode : LexerMode) (found : RuleMatch) : Nat :=
  if mode.excludeBegin then found.span.stop else found.span.start

/-- Scopes end after an end match, or before it where the innermost mode excludes it or gives it
back and has no scope for it. -/
def stopAt (innermost : LexerMode) (found : RuleMatch) : Nat :=
  if innermost.endScope.isNone && (innermost.excludeEnd || innermost.returnEnd) then
    found.span.start
  else found.span.stop

namespace Layout

/-- The innermost mode. -/
def top (env : Env) (layout : Layout) : LexerMode :=
  env.lexer.mode ((layout.active.head?.map (·.mode)).getD Lexer.root)

/-- The outermost of the `count` innermost modes. -/
def outermost (env : Env) (count : Nat) (layout : Layout) : LexerMode :=
  (layout.active[count - 1]?.map fun opened => env.lexer.mode opened.mode).getD default

/-- The innermost mode is left at a position. -/
def leave (env : Env) (stop : Nat) (layout : Layout) : Layout :=
  match layout.active with
  | [] => layout
  | opened :: outer =>
    { active := outer, closed := layout.closed ++ (opened.node? env stop).toList }

/-- The `count` innermost modes are left at a position. -/
def leaveMany (env : Env) (stop : Nat) : Nat → Layout → Layout
  | 0, layout => layout
  | count + 1, layout => leaveMany env stop count (layout.leave env stop)

/-- A mode is entered at a position. -/
def enter (number start : Nat) (layout : Layout) : Layout :=
  { layout with active := ⟨number, start⟩ :: layout.active }

/-- The layout after a match and the move it makes. A mode that follows others starts where they
end. -/
def visit (env : Env) (layout : Layout) (visited : RuleMatch × Move) : Layout :=
  match visited with
  | (_, .stay) => layout
  | (found, .enter number) => layout.enter number (startAt (env.lexer.mode number) found)
  | (found, .leave count) =>
    let stop := stopAt (layout.top env) found
    let left := layout.leaveMany env stop count
    match (layout.outermost env count).next with
    | some next => left.enter next stop
    | none => left

/-- The layout of a scan that starts inside the given modes. -/
def restore (env : Env) (frames : List Frame) : Layout :=
  if frames.all (·.mode < env.lexer.modeCount) then
    { active := frames.map fun frame => ⟨frame.mode, 0⟩ }
  else {}

/-- The nodes when the text has come to its end and every mode is left there. -/
def finish (env : Env) (layout : Layout) : List PlacedNode :=
  (layout.leaveMany env env.text.size layout.active.length).closed

end Layout

/-- The match that a scan finds next, and the move it makes. -/
def nextVisit? (env : Env) (state : State) : Option (RuleMatch × Move) :=
  match (state.top env).rules.find env.text state.index state.begun.cursor with
  | .ok (some found, cursor) => some (found, moveOf env found (state.reached env found cursor))
  | _ => none

theorem exists_find_of_nextVisit? {env : Env} {state : State} {found : RuleMatch} {move : Move}
    (h : nextVisit? env state = some (found, move)) :
    ∃ cursor, (state.top env).rules.find env.text state.index state.begun.cursor =
        .ok (some found, cursor) ∧
      moveOf env found (state.reached env found cursor) = move := by
  unfold nextVisit? at h
  split at h
  · next other cursor hfind =>
    cases h
    exact ⟨cursor, hfind, rfl⟩
  · cases h

/-- The matches that a loop of steps handles, with the moves they make. -/
def visits (env : Env) (nested : Nested) :
    (fuel : Nat) → State → Traced (List (RuleMatch × Move))
  | 0, _ => return []
  | fuel + 1, state => do
    match ← (step env nested state).run with
    | .error _ => return []
    | .ok (.done _) => return (nextVisit? env state).toList
    | .ok (.more next) =>
      return (nextVisit? env state).toList ++ (← visits env nested fuel next)

/-- The nodes that the modes of a scan call for: the scan starts inside the given modes, and its
matches are handled from the given trace on. -/
def extents (env : Env) (nested : Nested) (frames : List Frame) (before : Trace) :
    List PlacedNode :=
  let visited := ((visits env nested env.fuel (State.restore env frames)).run before).1
  (visited.foldl (Layout.visit env) (Layout.restore env frames)).finish env

/-- The open scopes that a layout calls for. -/
def OpenMode.scope? (env : Env) (opened : OpenMode) : Option (String × Nat) :=
  (env.lexer.mode opened.mode).scope.map fun scope => (env.lexer.scopeName scope, opened.start)

/-- The scan has kept up with a layout. -/
structure Tracks (env : Env) (layout : Layout) (state : State) : Prop where
  modes : layout.active.map (·.mode) = state.frames.map (·.mode)
  starts : state.tree.starts = layout.active.filterMap (OpenMode.scope? env)
  closed : layout.closed.Sublist state.tree.placed

variable {env : Env} {nested : Nested} {found : RuleMatch} {state state' : State}
  {layout : Layout} {before after : Trace}

namespace Tracks

theorem top_eq (h : Tracks env layout state) : layout.top env = state.top env := by
  have hhead := congrArg List.head? h.modes
  simp only [List.head?_map] at hhead
  rw [Layout.top, State.top, hhead]

theorem outermost_eq (h : Tracks env layout state) (count : Nat) :
    layout.outermost env count = outermost env state.frames count := by
  have hget := congrArg (fun modes => (modes[count - 1]?.map env.lexer.mode).getD default) h.modes
  simp only [List.getElem?_map, Option.map_map] at hget
  exact hget

theorem of_tree_eq (h : Tracks env layout state) (htree : state'.tree = state.tree)
    (hmodes : state'.frames.map (·.mode) = state.frames.map (·.mode)) :
    Tracks env layout state' where
  modes := h.modes.trans hmodes.symm
  starts := by rw [htree, h.starts]
  closed := by
    rw [htree]
    exact h.closed

/-- Text that is added leaves scopes where they are. -/
theorem of_receives {delivery : Delivery} (h : Tracks env layout state)
    (hreceives : Receives state delivery state') : Tracks env layout state' where
  modes := by
    rw [h.modes, hreceives.frames]
  starts := by rw [hreceives.starts, h.starts]
  closed := h.closed.trans hreceives.placed.sublist

/-- The innermost mode is left where the tree has the text up to a position. -/
theorem popFrame {stop : Nat} (h : Tracks env layout state)
    (hcontent : state.tree.content = env.slice 0 stop) (hstop : stop ≤ env.text.size) :
    Tracks env (layout.leave env stop) (state.popFrame env) := by
  have hmodes := h.modes
  have hstarts := h.starts
  unfold Layout.leave State.popFrame
  cases hactive : layout.active with
  | nil =>
    rw [hactive] at hmodes
    have hframes := List.map_eq_nil_iff.mp hmodes.symm
    rw [hframes]
    exact h
  | cons opened outer =>
    rw [hactive] at hmodes hstarts
    obtain ⟨frame, frames, hframes, hmode, houter⟩ := List.map_eq_cons_iff.mp hmodes.symm
    rw [hframes]
    simp only at hmode ⊢
    rw [hmode]
    cases hscope : (env.lexer.mode opened.mode).scope with
    | none =>
      refine ⟨houter.symm, ?_, ?_⟩
      · simpa [OpenMode.scope?, hscope] using hstarts
      · simpa [OpenMode.node?, hscope] using h.closed
    | some scope =>
      have hopen : state.tree.starts = (env.lexer.scopeName scope, opened.start) ::
          outer.filterMap (OpenMode.scope? env) := by
        simpa [OpenMode.scope?, hscope] using hstarts
      obtain ⟨first, text, hsplit, hlength, hplaced⟩ := TokenTree.placed_closeNode hopen
      have htext : text = env.slice opened.start stop := by
        rw [← hlength]
        exact Regex.Span.text_of_append hstop (hcontent.symm.trans hsplit)
      refine ⟨houter.symm, ?_, ?_⟩
      · simp [hopen]
      · simp only [OpenMode.node?, hscope, Option.isSome_some, if_true, Option.map_some,
          Option.toList_some, hplaced, htext]
        exact h.closed.append (List.Sublist.refl _)

theorem popFrames {stop : Nat} (h : Tracks env layout state)
    (hcontent : state.tree.content = env.slice 0 stop) (hstop : stop ≤ env.text.size)
    (count : Nat) : Tracks env (layout.leaveMany env stop count) (state.popFrames env count) := by
  induction count generalizing layout state with
  | zero => exact h
  | succ count ih =>
    exact ih (h.popFrame hcontent hstop) (by rw [content_popFrame, hcontent])

/-- A mode is entered where the tree has the text up to a position. -/
theorem enter {start : Nat} (h : Tracks env layout state)
    (hcontent : state.tree.content = env.slice 0 start) (hstart : start ≤ env.text.size)
    (number : Nat) (data : FrameData) :
    Tracks env (layout.enter number start) (Scan.enter env number found data state) := by
  have hreceives := enter_receives env number found data state
  have hopened : Tracks env (layout.enter number start) { state with
      frames := { mode := number, data := data } :: state.frames
      tree := openScope env (env.lexer.mode number) state.tree } := by
    refine ⟨?_, ?_, ?_⟩
    · simp [Layout.enter, h.modes]
    · have hlength : state.tree.content.length = start := by
        rw [hcontent, Env.slice, Regex.Span.text_length hstart, Nat.sub_zero]
      simp only [openScope, Layout.enter, List.filterMap_cons, OpenMode.scope?]
      split <;> simp_all [h.starts]
    · simp only [openScope, Layout.enter]
      split
      · rw [TokenTree.placed_openNode]
        exact h.closed
      · exact h.closed
  exact hopened.of_receives hreceives

end Tracks

/-- Text before a match together with the match, where the scan has written the text before. -/
theorem slice_lexeme (hspan : found.span.start = found.index)
    (hwithin : found.span.Within env.text.size) :
    env.slice 0 found.index ++ env.lexeme found = env.slice 0 found.span.stop := by
  rw [Env.slice, Env.slice, ← hspan]
  exact Regex.Span.text_append (Nat.zero_le _) hwithin.start_le

/-- Before a mode opens, the tree has the text up to where its scope starts. -/
theorem beginDelivery_content {mode : LexerMode} {ready : State}
    (hspan : found.span.start = found.index) (hwithin : found.span.Within env.text.size)
    (hskip : mode.skip = false) (hwritten : state.written = env.slice 0 found.index)
    (hready : Receives state (beginDelivery mode state.buffer (env.lexeme found)) ready) :
    ready.tree.content = env.slice 0 (startAt mode found) := by
  have hcontent := hready.content
  simp only [beginDelivery, hskip, Bool.false_eq_true, if_false] at hcontent
  unfold startAt
  split at hcontent
  · next hexclude =>
    rw [if_pos hexclude, ← slice_lexeme hspan hwithin, ← hwritten, hcontent]
    exact (String.append_assoc).symm
  · next hexclude =>
    rw [if_neg hexclude, hspan, ← hwritten, hcontent]
    split <;> rfl

/-- Once an end match is in its place, the tree has the text up to where scopes end. -/
theorem endDelivery_content {start cursor rest : Nat} {frames : List Frame} {ready : State}
    (hfound : (state.top env).rules.find env.text start cursor = .ok (some found, rest))
    (hkind : found.kind = .finish) (horderly : env.lexer.Orderly) (hgrouped : env.lexer.Grouped)
    (hskip : (state.top env).skip = false) (hwritten : state.written = env.slice 0 found.index)
    (hready : Receives { state with frames := frames }
      (endDelivery env.text found (state.top env) state.buffer) ready) :
    ready.tree.content = env.slice 0 (stopAt (state.top env) found) := by
  obtain ⟨hspan, hwithin⟩ := RuleSet.find_within hfound
  have hcontent := hready.content
  have hafter : state.tree.content ++ (state.buffer ++ env.lexeme found) =
      env.slice 0 found.span.stop := by
    rw [← slice_lexeme hspan hwithin, ← hwritten]
    exact (String.append_assoc).symm
  have hbefore : state.tree.content ++ state.buffer = env.slice 0 found.span.start := by
    rw [hspan]
    exact hwritten
  simp only [endDelivery, hskip, Bool.false_eq_true, if_false] at hcontent
  unfold stopAt
  split at hcontent
  · next scope hscope =>
    rw [hcontent, hscope]
    exact hafter
  · next segments hsegments =>
    have htext := hgrouped.ends _ _ _ _ _ _ _ hfound hkind hsegments
      (horderly.endSegments _ _ hsegments)
    rw [hcontent, htext, hsegments]
    exact hafter
  · next hscope =>
    rw [hcontent, hscope]
    cases (state.top env).excludeEnd <;> cases (state.top env).returnEnd
    · exact hafter
    · exact hbefore
    · exact hbefore
    · exact hbefore

/-- A match that is handled moves the scan and the layout alike. -/
theorem Tracks.visit {move : Move} {start cursor rest advance : Nat}
    (htracks : Tracks env layout state) (hskip : ∀ number, (env.lexer.mode number).skip = false)
    (horderly : env.lexer.Orderly) (hgrouped : env.lexer.Grouped)
    (hfound : (state.top env).rules.find env.text start cursor = .ok (some found, rest))
    (hwritten : state.written = env.slice 0 found.index)
    (h : Handled env found state move state' advance) :
    Tracks env (layout.visit env (found, move)) state' := by
  obtain ⟨hspan, hwithin⟩ := RuleSet.find_within hfound
  have hstart := hwithin.start_le
  have hstop := hwithin.stop_le
  cases h with
  | stay htree hmodes _ => exact htracks.of_tree_eq htree hmodes
  | @enter number data ready _ hready =>
    have hcontent := beginDelivery_content hspan hwithin (hskip number) hwritten hready
    refine (htracks.of_receives hready).enter hcontent ?_ number data
    unfold startAt
    split <;> omega
  | @leave count frames ready hkind hmodes hready =>
    have hcontent := endDelivery_content hfound hkind horderly hgrouped (hskip _) hwritten hready
    have hle : stopAt (state.top env) found ≤ env.text.size := by
      unfold stopAt
      split <;> omega
    have hmoved : Tracks env layout { state with frames := frames } :=
      htracks.of_tree_eq rfl hmodes
    have hleft := (hmoved.of_receives hready).popFrames hcontent hle count
    simp only [Layout.visit, htracks.top_eq, htracks.outermost_eq]
    cases (outermost env state.frames count).next with
    | none => exact hleft
    | some next => exact hleft.enter (by rw [content_popFrames, hcontent]) hle next {}

/-- A step moves the scan and the layout alike. -/
theorem step_tracks {progress : Progress} (hnested : nested.KeepsText)
    (hskip : ∀ number, (env.lexer.mode number).skip = false) (horderly : env.lexer.Orderly)
    (hgrouped : env.lexer.Grouped) (hreads : Reads env state) (htracks : Tracks env layout state)
    (h : Returns (step env nested state) before progress after) :
    Tracks env ((nextVisit? env state).toList.foldl (Layout.visit env) layout) progress.last := by
  rcases step_cases h with ⟨⟨cursor, hfind⟩, rfl⟩ |
    ⟨found, cursor, state', advance, hfind, hhandle, hlast⟩
  · simp only [nextVisit?, hfind]
    exact htracks.of_tree_eq rfl rfl
  · obtain ⟨hspan, hwithin⟩ := RuleSet.find_within hfind
    have hle := (hgrouped.spans _).start_le_index hfind
    have htop : (state.reached env found cursor).top env = state.top env := rfl
    have hhandled := handle_handled hnested hspan hwithin hhandle
    have hreached : Tracks env layout (state.reached env found cursor) :=
      htracks.of_tree_eq rfl rfl
    have hvisited := hreached.visit hskip horderly hgrouped (htop ▸ hfind)
      (hreads.reached hle cursor) hhandled
    simp only [nextVisit?, hfind, Option.toList_some, List.foldl_cons, List.foldl_nil]
    rw [hlast]
    exact hvisited.of_tree_eq rfl rfl

/-- A scan that comes to the end of its loop has kept up with its matches. -/
theorem loop_tracks (hnested : nested.KeepsText)
    (hchecked : ∀ number, (env.lexer.mode number).Checked)
    (hskip : ∀ number, (env.lexer.mode number).skip = false) (horderly : env.lexer.Orderly)
    (hgrouped : env.lexer.Grouped) {fuel : Nat} (hreads : Reads env state)
    (htracks : Tracks env layout state)
    (h : Gives (loop env nested fuel state) before (.done state') after) :
    ∃ visited, Gives (visits env nested fuel state) before visited after ∧
      Tracks env (visited.foldl (Layout.visit env) layout) state' := by
  induction fuel generalizing state layout before with
  | zero =>
    obtain ⟨heq, rfl⟩ := gives_pure_iff.mp h
    cases heq
    exact ⟨[], gives_pure_iff.mpr ⟨rfl, rfl⟩, htracks⟩
  | succ fuel ih =>
    obtain ⟨outcome, between, hstep, hrest⟩ := gives_bind_iff.mp h
    simp only [visits]
    split at hrest
    · obtain ⟨heq, -⟩ := gives_pure_iff.mp hrest
      cases heq
    · obtain ⟨heq, rfl⟩ := gives_pure_iff.mp hrest
      cases heq
      have hstepped := step_tracks hnested hskip horderly hgrouped hreads htracks hstep
      exact ⟨_, gives_bind_iff.mpr ⟨_, _, hstep, gives_pure_iff.mpr ⟨rfl, rfl⟩⟩, hstepped⟩
    · next next =>
      have hread := step_reads hnested hchecked horderly hgrouped hreads hstep
      have hstepped := step_tracks hnested hskip horderly hgrouped hreads htracks hstep
      obtain ⟨visited, hvisited, hlast⟩ := ih hread hstepped hrest
      refine ⟨_, gives_bind_iff.mpr ⟨_, _, hstep,
        gives_bind_iff.mpr ⟨_, _, hvisited, gives_pure_iff.mpr ⟨rfl, rfl⟩⟩⟩, ?_⟩
      rw [List.foldl_append]
      exact hlast

/-- The scopes of modes that are restored start with the text. -/
theorem starts_restored (env : Env) (frames : List Frame) :
    let restored := frames.foldr (fun frame tree => openScope env (env.lexer.mode frame.mode) tree)
      TokenTree.empty
    restored.content = "" ∧ restored.starts =
      (frames.map fun frame => (⟨frame.mode, 0⟩ : OpenMode)).filterMap (OpenMode.scope? env) := by
  induction frames with
  | nil => exact ⟨TokenTree.content_empty, rfl⟩
  | cons frame frames ih =>
    obtain ⟨hcontent, hstarts⟩ := ih
    simp only [List.foldr_cons, List.map_cons, List.filterMap_cons, OpenMode.scope?] at *
    refine ⟨by rw [content_openScope, hcontent], ?_⟩
    generalize hrestored : List.foldr _ _ _ = restored at *
    unfold openScope
    cases (env.lexer.mode frame.mode).scope with
    | none => exact hstarts
    | some scope =>
      rw [TokenTree.starts_openNode, hstarts, hcontent]
      rfl

/-- A scan that starts inside modes has their scopes open from the start of the text on. -/
theorem tracks_restore (env : Env) (frames : List Frame) :
    Tracks env (Layout.restore env frames) (State.restore env frames) := by
  unfold Layout.restore State.restore
  split
  · refine ⟨by simp, ?_, List.nil_sublist _⟩
    simp only [List.foldl_reverse]
    exact (starts_restored env frames).2
  · exact ⟨rfl, rfl, List.Sublist.refl _⟩

theorem leaveMany_length (env : Env) (stop count : Nat) (layout : Layout) :
    (layout.leaveMany env stop count).active.length = layout.active.length - count := by
  induction count generalizing layout with
  | zero => rfl
  | succ count ih =>
    have hleave : (layout.leave env stop).active.length = layout.active.length - 1 := by
      unfold Layout.leave
      split
      · next hactive => simp [hactive]
      · next hactive => simp [hactive]
    rw [Layout.leaveMany, ih, hleave]
    omega

/-- A tree in which no scope is open is finished. -/
theorem finish_of_starts {tree : TokenTree} (h : tree.starts = []) : tree.finish = tree := by
  apply TokenTree.finish_of_openNodes_eq_nil
  cases hopen : tree.openNodes with
  | nil => rfl
  | cons node outer => simp [TokenTree.starts, hopen, TokenTree.startsWithin] at h

/-- At the end of the text, the scan leaves the modes that are still active. -/
theorem Tracks.conclude (htracks : Tracks env layout state)
    (hcontent : state.tree.content = env.slice 0 env.text.size) :
    (layout.finish env).Sublist (Scan.conclude env state).tree.placed := by
  have hlength : layout.active.length = state.frames.length := by
    simpa using congrArg List.length htracks.modes
  have hleft := htracks.popFrames hcontent (Nat.le_refl _) state.frames.length
  have hactive : (layout.leaveMany env env.text.size state.frames.length).active = [] := by
    apply List.eq_nil_of_length_eq_zero
    rw [leaveMany_length]
    omega
  have hstarts := hleft.starts
  rw [hactive] at hstarts
  simp only [Scan.conclude, Highlighted.ofTree, finish_of_starts hstarts, Layout.finish, hlength]
  exact hleft.closed

/-- Every node that the modes of a completed scan call for is a node of its tree, from where the
scope starts to where it ends. -/
theorem run_extents {frames : List Frame} {result : Highlighted} (hnested : nested.KeepsText)
    (hchecked : ∀ number, (env.lexer.mode number).Checked)
    (hskip : ∀ number, (env.lexer.mode number).skip = false) (horderly : env.lexer.Orderly)
    (hgrouped : env.lexer.Grouped)
    (h : Gives (run env nested frames) before (.ok result) after) :
    (extents env nested frames before).Sublist result.tree.placed := by
  obtain ⟨outcome, between, hloop, hrest⟩ := gives_bind_iff.mp h
  split at hrest
  · obtain ⟨heq, -⟩ := gives_pure_iff.mp hrest
    cases heq
  · next last =>
    obtain ⟨flushed, _, hflush, hrest⟩ := gives_bind_iff.mp hrest
    split at hrest
    · obtain ⟨heq, -⟩ := gives_pure_iff.mp hrest
      cases heq
    · obtain ⟨heq, -⟩ := gives_pure_iff.mp hrest
      cases heq
      have hstart := reads_restore env frames
      have hreads := loop_reads hnested hchecked horderly hgrouped hstart hloop
      obtain ⟨visited, hvisited, htracks⟩ := loop_tracks hnested hchecked hskip horderly hgrouped
        hstart (tracks_restore env frames) hloop
      have hreceives : Receives last
          ⟨last.buffer ++ env.slice last.index env.text.size, ""⟩ _ :=
        flush_adds hnested hflush
      have hconcluded := (htracks.of_receives hreceives).conclude
        (flushRest_content hnested hreads hflush)
      unfold extents
      rw [hvisited]
      exact hconcluded

end Highlighter.Scan
