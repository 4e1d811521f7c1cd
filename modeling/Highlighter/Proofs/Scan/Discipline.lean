import Highlighter.Proofs.Lexer.Numbers
import Highlighter.Proofs.Scan.Moves

/-!
# The stack of modes and the tree

A scan starts with no modes above the top mode, or goes on in the modes that an earlier scan handed
on. From there on, every step keeps two things: the modes of the stack are modes below the top mode,
and the scopes that are open in the tree are those of the modes of the stack. End matches therefore
leave the top mode alone, and when all modes are left at the end of the text every scope is closed.
-/

namespace Highlighter.Scan

variable {env : Env} {nested : Nested} {found : RuleMatch} {frames frames' : List Frame}
  {state state' : State} {move : Move} {before after : Trace}

/-! ## The states of a scan -/

/-- The states of a scan that starts inside the given modes. -/
inductive Reaches (env : Env) (nested : Nested) (frames : List Frame) : State → Prop where
  | start : Reaches env nested frames (State.restore env frames)
  | step {state : State} {progress : Progress} {before after : Trace}
      (h : Reaches env nested frames state)
      (hstep : Returns (step env nested state) before progress after) :
      Reaches env nested frames progress.last
  | rest {state state' : State} {before after : Trace} (h : Reaches env nested frames state)
      (hrest : Returns (flushRest env nested state) before state' after) :
      Reaches env nested frames state'

/-- A loop of steps stops in a state of the scan, or fails with the frames of one. -/
theorem Reaches.of_loop {fuel : Nat} {outcome : Outcome} (h : Reaches env nested frames state)
    (hloop : Gives (loop env nested fuel state) before outcome after) :
    ∃ last, Reaches env nested frames last ∧
      (outcome = .done last ∨ ∃ fault, outcome = .failed fault last.frames) := by
  induction fuel generalizing state before with
  | zero =>
    obtain ⟨rfl, -⟩ := gives_pure_iff.mp hloop
    exact ⟨state, h, .inl rfl⟩
  | succ fuel ih =>
    obtain ⟨outcome', between, hstep, hrest⟩ := gives_bind_iff.mp hloop
    split at hrest
    · next fault =>
      obtain ⟨rfl, -⟩ := gives_pure_iff.mp hrest
      exact ⟨state, h, .inr ⟨fault, rfl⟩⟩
    · next last =>
      obtain ⟨rfl, -⟩ := gives_pure_iff.mp hrest
      exact ⟨last, h.step hstep, .inl rfl⟩
    · exact ih (h.step hstep) hrest

/-- A run concludes with a state of the scan, or fails with the frames of one. -/
theorem Reaches.of_run {outcome : Except (Fault × List Frame) Highlighted}
    (hrun : Gives (run env nested frames) before outcome after) :
    ∃ last, Reaches env nested frames last ∧
      (outcome = .ok (conclude env last) ∨ ∃ fault, outcome = .error (fault, last.frames)) := by
  obtain ⟨stopped, between, hloop, hrest⟩ := gives_bind_iff.mp hrun
  obtain ⟨last, hlast, rfl | ⟨fault, rfl⟩⟩ := Reaches.of_loop .start hloop
  · obtain ⟨flushed, _, hflush, hpure⟩ := gives_bind_iff.mp hrest
    split at hpure
    · next fault =>
      obtain ⟨rfl, -⟩ := gives_pure_iff.mp hpure
      exact ⟨last, hlast, .inr ⟨fault, rfl⟩⟩
    · next final =>
      obtain ⟨rfl, -⟩ := gives_pure_iff.mp hpure
      exact ⟨final, hlast.rest hflush, .inl rfl⟩
  · obtain ⟨rfl, -⟩ := gives_pure_iff.mp hrest
    exact ⟨last, hlast, .inr ⟨fault, rfl⟩⟩

/-- The frames in which a scan with a lexer may start: none, or those that an earlier scan with the
same lexer has handed on, be it that this came to its end or that it failed. -/
inductive HandedOn (lexer : Lexer) : List Frame → Prop where
  | nothing : HandedOn lexer []
  | ended {env : Env} {nested : Nested} {frames : List Frame} {result : Highlighted}
      {before after : Trace} (hlexer : env.lexer = lexer) (h : HandedOn lexer frames)
      (hrun : Gives (run env nested frames) before (.ok result) after) :
      HandedOn lexer result.frames
  | failed {env : Env} {nested : Nested} {frames frames' : List Frame} {fault : Fault}
      {before after : Trace} (hlexer : env.lexer = lexer) (h : HandedOn lexer frames)
      (hrun : Gives (run env nested frames) before (.error (fault, frames')) after) :
      HandedOn lexer frames'

/-- The states of the scans of a text, wherever they start. -/
def Reachable (env : Env) (nested : Nested) (state : State) : Prop :=
  ∃ frames, HandedOn env.lexer frames ∧ Reaches env nested frames state

/-! ## What steps keep -/

/-- The modes of all frames are below the top mode. -/
def Grounded (lexer : Lexer) (frames : List Frame) : Prop :=
  ∀ frame ∈ frames, Lexer.IsInner lexer.modeCount frame.mode

theorem grounded_iff {lexer : Lexer} :
    Grounded lexer frames ↔ ∀ mark ∈ marks frames, Lexer.IsInner lexer.modeCount mark.1 := by
  simp only [Grounded, marks, List.forall_mem_map, Frame.mark]

/-- The mode that follows the outermost of the modes that are left is below the top mode. -/
theorem inner_of_outermost_next {count number : Nat} (hlexer : env.lexer.Linked)
    (hnext : (outermost env frames count).next = some number) :
    Lexer.IsInner env.lexer.modeCount number := by
  unfold outermost at hnext
  cases hframe : frames[count - 1]? with
  | none =>
    rw [hframe] at hnext
    cases hnext
  | some frame =>
    rw [hframe] at hnext
    exact (hlexer.modes frame.mode).next number hnext

/-- Every move leads to modes below the top mode. -/
theorem Moved.grounded {start cursor rest : Nat} (hlexer : env.lexer.Linked)
    (hgrounded : Grounded env.lexer state.frames)
    (hfind : (state.top env).rules.find env.text start cursor = .ok (some found, rest))
    (h : Moved env nested found state move state') : Grounded env.lexer state'.frames := by
  have hold := grounded_iff.mp hgrounded
  rw [grounded_iff, h.marks]
  cases h with
  | stay => exact hold
  | enter hkind _ =>
    have hcontains := (hlexer.modes _).contains_of_find hfind hkind
    exact List.forall_mem_cons.mpr ⟨(hlexer.modes _).contains _ hcontains, hold⟩
  | leave =>
    intro mark hmem
    rw [moveMarks, List.mem_append] at hmem
    rcases hmem with hnext | hmem
    · obtain ⟨number, hnumber, rfl⟩ := Option.map_eq_some_iff.mp (Option.mem_toList.mp hnext)
      exact inner_of_outermost_next hlexer hnumber
    · exact hold mark (List.mem_of_mem_drop hmem)

/-- The modes of the stack are below the top mode, and the open scopes are theirs. -/
structure State.Disciplined (env : Env) (state : State) : Prop where
  grounded : Grounded env.lexer state.frames
  aligned : state.Aligned env

theorem step_disciplined {progress : Progress} (hlexer : env.lexer.Linked)
    (hstate : state.Disciplined env) (h : Returns (step env nested state) before progress after) :
    progress.last.Disciplined env := by
  rcases step_moved h with ⟨-, rfl⟩ | ⟨found, cursor, state', advance, hfind, -, hmoved, hlast⟩
  · exact ⟨hstate.grounded, hstate.aligned⟩
  · have hreached : Grounded env.lexer
        ((state.reached env found cursor).recorded found).frames := hstate.grounded
    have hgrounded := hmoved.grounded hlexer hreached hfind
    have haligned := hmoved.aligned hstate.aligned
    rw [hlast]
    exact ⟨hgrounded, haligned⟩

theorem flushRest_disciplined (hstate : state.Disciplined env)
    (h : Returns (flushRest env nested state) before state' after) : state'.Disciplined env where
  grounded := by
    rw [flush_frames h]
    exact hstate.grounded
  aligned := by
    have haligned : (state.addToBuffer (env.slice state.index env.text.size)).Aligned env :=
      hstate.aligned
    exact flush_aligned haligned h

/-- Modes below the top mode are accepted to start in. -/
theorem frames_restore (hframes : Grounded env.lexer frames) :
    (State.restore env frames).frames = frames := by
  have hall : frames.all (·.mode < env.lexer.modeCount) = true :=
    List.all_eq_true.mpr fun frame hmem => decide_eq_true (hframes frame hmem).below
  rw [State.restore, if_pos hall]

/-- The scopes of the modes in which a scan starts are opened in order. -/
theorem restore_aligned (env : Env) (frames : List Frame) :
    (State.restore env frames).Aligned env := by
  have hopened : ∀ frames : List Frame,
      (frames.foldr (fun frame tree => openScope env (env.lexer.mode frame.mode) tree)
        TokenTree.empty).scopes = frames.filterMap (scope? env) := by
    intro frames
    induction frames with
    | nil => rfl
    | cons frame frames ih =>
      rw [List.foldr_cons, List.filterMap_cons, openScope, scope?]
      cases (env.lexer.mode frame.mode).scope with
      | none => exact ih
      | some scope => simp only [TokenTree.scopes_openNode, ih, Option.map_some]
  unfold State.Aligned State.restore
  split
  · simp only [List.foldl_reverse]
    exact hopened frames
  · rfl

theorem Reaches.disciplined (hlexer : env.lexer.Linked) (hframes : Grounded env.lexer frames)
    (h : Reaches env nested frames state) : state.Disciplined env := by
  induction h with
  | start =>
    refine ⟨?_, restore_aligned env frames⟩
    rw [frames_restore hframes]
    exact hframes
  | step _ hstep ih => exact step_disciplined hlexer ih hstep
  | rest _ hrest ih => exact flushRest_disciplined ih hrest

/-- What a scan hands on are modes below the top mode. -/
theorem HandedOn.grounded {lexer : Lexer} (hlexer : lexer.Linked) (h : HandedOn lexer frames) :
    Grounded lexer frames := by
  induction h with
  | nothing => exact fun frame hmem => (by cases hmem)
  | ended hsame _ hrun ih =>
    subst hsame
    obtain ⟨last, hlast, heq | ⟨fault, heq⟩⟩ := Reaches.of_run hrun
    · cases heq
      have hgrounded := (hlast.disciplined hlexer ih).grounded
      exact List.forall_mem_map.mpr hgrounded
    · cases heq
  | failed hsame _ hrun ih =>
    subst hsame
    obtain ⟨last, hlast, heq | ⟨fault, heq⟩⟩ := Reaches.of_run hrun
    · cases heq
    · cases heq
      exact (hlast.disciplined hlexer ih).grounded

theorem Reachable.disciplined (hlexer : env.lexer.Linked) (h : Reachable env nested state) :
    state.Disciplined env := by
  obtain ⟨frames, hframes, hreaches⟩ := h
  exact hreaches.disciplined hlexer (hframes.grounded hlexer)

/-! ## The discipline -/

/-- The stack of modes, the outermost first: the top mode, and the modes of the frames. -/
def State.stack (state : State) : List Nat :=
  Lexer.root :: (state.frames.map (·.mode)).reverse

/-- Once all modes are left, every scope is closed. -/
theorem openNodes_popFrames (h : state.Aligned env) :
    (state.popFrames env state.frames.length).tree.openNodes = [] := by
  rw [← TokenTree.scopes_eq_nil_iff, popFrames_aligned h, frames_popFrames, List.drop_length,
    List.filterMap_nil]

/-- In every state of every scan the top mode is at the bottom of the stack and nowhere else, all
modes of the stack are there, and the open scopes of the tree, the outermost first, are those of the
modes above the bottom. So an end match leaves fewer modes than the stack has, and the tree of the
result is complete once these modes have been left, without any scope left to be closed. -/
theorem Reachable.stack_discipline {grammar : Grammar} (hcompile : grammar.compile = .ok env.lexer)
    (h : Reachable env nested state) :
    state.stack.head? = some Lexer.root ∧ state.stack.count Lexer.root = 1 ∧
      (∀ number ∈ state.stack, number < env.lexer.modeCount) ∧
      state.tree.scopes.reverse = state.stack.tail.filterMap (fun number =>
        (env.lexer.mode number).scope.map env.lexer.scopeName) ∧
      (∀ found before ended count after,
        Gives (findEnded env found state.frames) before (ended, some count) after →
          0 < count ∧ count < state.stack.length) ∧
      (state.popFrames env state.frames.length).tree.openNodes = [] ∧
      (conclude env state).tree = (state.popFrames env state.frames.length).tree := by
  have hlexer := grammar.compile_linked hcompile
  obtain ⟨hgrounded, haligned⟩ := h.disciplined hlexer
  have hclosed := openNodes_popFrames haligned
  refine ⟨rfl, ?_, ?_, ?_, ?_, hclosed, TokenTree.finish_of_openNodes_eq_nil hclosed⟩
  · have hnot : Lexer.root ∉ (state.frames.map (·.mode)).reverse := by
      rw [List.mem_reverse]
      intro hmem
      obtain ⟨frame, hframe, hroot⟩ := List.mem_map.mp hmem
      have habove := (hgrounded frame hframe).above
      omega
    rw [State.stack, List.count_cons_self, List.count_eq_zero_of_not_mem hnot]
  · refine List.forall_mem_cons.mpr ⟨hlexer.root, fun number hmem => ?_⟩
    obtain ⟨frame, hframe, rfl⟩ := List.mem_map.mp (List.mem_reverse.mp hmem)
    exact (hgrounded frame hframe).below
  · rw [haligned, State.stack, List.tail_cons, List.filterMap_reverse, List.filterMap_map]
    rfl
  · intro found before ended count after hended
    obtain ⟨hpositive, hle⟩ := (findEnded_marks hended).2 count rfl
    refine ⟨hpositive, ?_⟩
    simp only [State.stack, List.length_cons, List.length_reverse, List.length_map]
    omega

/-- A mode that is open at the end of a text is open at the start of the next one. -/
theorem Reachable.stack_discipline_handed_on :
    let first : Env := { givenBackEnv with text := #['a'] }
    givenBackTwice.compile = .ok givenBackEnv.lexer ∧
      ∃ result after, Gives (run first .unknown []) {} (.ok result) after ∧
        let state := State.restore givenBackEnv result.frames
        Reachable givenBackEnv .unknown state ∧ state.stack = [0, 1] ∧
        state.tree.scopes.reverse = ["m"] ∧ state.stack.count Lexer.root = 1 ∧
        (state.popFrames givenBackEnv state.frames.length).tree.openNodes = [] := by
  intro first
  have hcompile := givenBackTwice_compiles
  have hran : ((run first .unknown []).run {}).1.toOption.map (·.frames.map (·.mode)) =
      some [1] := by decide +kernel
  obtain ⟨result, hresult, hmodes⟩ := Option.map_eq_some_iff.mp hran
  obtain ⟨after, hrun⟩ := exists_gives_of_toOption hresult
  have hlexer : first.lexer = givenBackEnv.lexer := rfl
  have hhanded : HandedOn givenBackEnv.lexer result.frames := .ended hlexer .nothing hrun
  have hreachable : Reachable givenBackEnv .unknown (State.restore givenBackEnv result.frames) :=
    ⟨result.frames, hhanded, .start⟩
  have hframes := frames_restore (hhanded.grounded (givenBackTwice.compile_linked hcompile))
  have hstack : (State.restore givenBackEnv result.frames).stack = [0, 1] := by
    rw [State.stack, hframes, hmodes]
    rfl
  obtain ⟨-, hcount, -, hscopes, -, hclosed, -⟩ := hreachable.stack_discipline hcompile
  refine ⟨hcompile, result, after, hrun, hreachable, hstack, ?_, hcount, hclosed⟩
  rw [hscopes, hstack]
  decide +kernel

end Highlighter.Scan
