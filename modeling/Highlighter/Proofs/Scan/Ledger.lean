import Highlighter.Proofs.Scan.Scores
import Mathlib

/-!
# A ledger of modes

Scans that go on in each other's modes share a ledger. Every mode that is opened gets a place of its
own in it, and is settled in the scan that counts its score: when it is left, or when the scan comes
to its end. A scan that fails settles nothing. No mode is ever settled twice, since those that a scan
has settled at its end are handed on as credited, and where no scan fails none is left out.
-/

namespace Highlighter.Scan

/-- A mode that has been opened. Places number the modes in the order in which they are opened. -/
structure Opening where
  place : Nat
  mode : Nat
  deriving DecidableEq

/-- What becomes of the modes that are opened. -/
structure Ledger where
  /-- All modes that have been opened, in order. -/
  opened : List Opening := []
  /-- The modes that are active, the innermost first, and whether they are credited. -/
  active : List (Opening × Bool) := []
  /-- The modes whose scores have counted. -/
  settled : List Opening := []

namespace Ledger

/-- What the frames of the active modes say about them. -/
def marks (active : List (Opening × Bool)) : List (Nat × Bool) :=
  active.map fun entry => (entry.1.mode, entry.2)

/-- The active modes whose scores are still to count. -/
def pending (active : List (Opening × Bool)) : List Opening :=
  active.filterMap fun entry => if entry.2 then none else some entry.1

/-- What opened modes score. -/
def score (lexer : Lexer) (openings : List Opening) : Nat :=
  (openings.map fun opening => lexer.score opening.mode).sum

/-- A mode is opened. -/
def enter (number : Nat) (ledger : Ledger) : Ledger :=
  let opening : Opening := ⟨ledger.opened.length, number⟩
  { ledger with
    opened := ledger.opened ++ [opening]
    active := (opening, false) :: ledger.active }

/-- The `count` innermost modes are left. -/
def leave (count : Nat) (ledger : Ledger) : Ledger :=
  { ledger with
    active := ledger.active.drop count
    settled := ledger.settled ++ pending (ledger.active.take count) }

/-- The outermost of the `count` innermost modes. -/
def outermost (lexer : Lexer) (count : Nat) (ledger : Ledger) : LexerMode :=
  (ledger.active[count - 1]?.map fun entry => lexer.mode entry.1.mode).getD default

/-- The ledger after a move. -/
def move (lexer : Lexer) (ledger : Ledger) : Move → Ledger
  | .stay => ledger
  | .enter number => ledger.enter number
  | .leave count =>
    match (ledger.outermost lexer count).next with
    | some number => (ledger.leave count).enter number
    | none => ledger.leave count

/-- The ledger after matches and the moves that they make. -/
def follow (lexer : Lexer) (visited : List (RuleMatch × Move)) (ledger : Ledger) : Ledger :=
  visited.foldl (fun ledger visit => ledger.move lexer visit.2) ledger

/-- The scores of all active modes count, and they are handed on as credited. -/
def close (ledger : Ledger) : Ledger :=
  { ledger with
    active := ledger.active.map fun entry => (entry.1, true)
    settled := ledger.settled ++ pending ledger.active }

/-- The ledger once a scan has stopped. A scan that fails has settled nothing. -/
def stop (ledger followed : Ledger) : Except (Fault × List Frame) Highlighted → Ledger
  | .ok _ => followed.close
  | .error _ => { followed with settled := ledger.settled }

/-- The ledger after a scan that starts in the active modes. -/
def scan (env : Env) (nested : Nested) (frames : List Frame) (ledger : Ledger) : Ledger :=
  let visited := ((visits env nested env.fuel (State.restore env frames)).run default).1
  ledger.stop (ledger.follow env.lexer visited) ((run env nested frames).run default).1

variable {ledger : Ledger} {lexer : Lexer} {env : Env} {frames : List Frame}

theorem follow_append (lexer : Lexer) (visited visited' : List (RuleMatch × Move))
    (ledger : Ledger) :
    ledger.follow lexer (visited ++ visited') =
      (ledger.follow lexer visited).follow lexer visited' :=
  List.foldl_append

theorem pending_append (active active' : List (Opening × Bool)) :
    pending (active ++ active') = pending active ++ pending active' :=
  List.filterMap_append

theorem score_append (openings openings' : List Opening) :
    score lexer (openings ++ openings') = score lexer openings + score lexer openings' := by
  simp only [score, List.map_append, List.sum_append]

theorem score_pending (active : List (Opening × Bool)) :
    score lexer (pending active) = lexer.due (marks active) := by
  induction active with
  | nil => rfl
  | cons entry active ih =>
    obtain ⟨opening, isCredited⟩ := entry
    simp only [pending, marks, score] at ih
    cases isCredited <;> simp [pending, marks, score, ih]

/-! ## Following the stack -/

theorem outermost_eq (h : marks ledger.active = Highlighter.marks frames) (count : Nat) :
    ledger.outermost env.lexer count = Scan.outermost env frames count := by
  have hget := congrArg (fun marks : List (Nat × Bool) =>
    (marks[count - 1]?.map fun mark => env.lexer.mode mark.1).getD default) h
  simp only [marks, Highlighter.marks, List.getElem?_map, Option.map_map] at hget
  exact hget

theorem marks_enter (number : Nat) (ledger : Ledger) :
    marks (ledger.enter number).active = (number, false) :: marks ledger.active := rfl

theorem marks_leave (count : Nat) (ledger : Ledger) :
    marks (ledger.leave count).active = (marks ledger.active).drop count :=
  List.map_drop

/-- The ledger moves as the stack does. -/
theorem marks_move (h : marks ledger.active = Highlighter.marks frames) (move : Move) :
    marks (ledger.move env.lexer move).active = moveMarks env frames move := by
  cases move with
  | stay => exact h
  | enter number => rw [Ledger.move, marks_enter, h, moveMarks]
  | leave count =>
    rw [Ledger.move, outermost_eq h, moveMarks]
    cases (Scan.outermost env frames count).next with
    | none =>
      simp only [marks_leave, h]
      rfl
    | some number =>
      simp only [marks_enter, marks_leave, h]
      rfl

/-- A move settles what the frames that it leaves score. -/
theorem score_move (h : marks ledger.active = Highlighter.marks frames) (move : Move) :
    score lexer (ledger.move lexer move).settled =
      score lexer ledger.settled + move.due lexer frames := by
  cases move with
  | stay => rfl
  | enter number => rfl
  | leave count =>
    have hleave : score lexer (ledger.leave count).settled =
        score lexer ledger.settled + lexer.due (Highlighter.marks (frames.take count)) := by
      rw [leave, score_append, score_pending, marks, Highlighter.marks, List.map_take,
        List.map_take]
      exact congrArg (fun marks => _ + lexer.due (marks.take count)) h
    rw [Ledger.move, Move.due]
    split <;> exact hleave

theorem settled_move (lexer : Lexer) (ledger : Ledger) (move : Move) :
    ledger.settled <+: (ledger.move lexer move).settled := by
  cases move with
  | stay => exact List.prefix_rfl
  | enter number => exact List.prefix_rfl
  | leave count =>
    rw [Ledger.move]
    split <;> exact List.prefix_append _ _

theorem settled_follow (lexer : Lexer) (visited : List (RuleMatch × Move)) (ledger : Ledger) :
    ledger.settled <+: (ledger.follow lexer visited).settled := by
  induction visited generalizing ledger with
  | nil => exact List.prefix_rfl
  | cons visit visited ih => exact (settled_move lexer ledger visit.2).trans (ih _)

theorem marks_close (ledger : Ledger) (h : marks ledger.active = Highlighter.marks frames) :
    marks ledger.close.active =
      Highlighter.marks (frames.map ({ · with isCredited := true })) := by
  have hcredited := congrArg (List.map fun mark : Nat × Bool => (mark.1, true)) h
  simp only [marks, Highlighter.marks, List.map_map] at hcredited ⊢
  simp only [close, List.map_map]
  exact hcredited

theorem score_close (ledger : Ledger) :
    score lexer ledger.close.settled =
      score lexer ledger.settled + lexer.due (marks ledger.active) := by
  rw [close, score_append, score_pending]

/-! ## No mode is settled twice -/

/-- The modes that have been settled, and those that are still to be settled. -/
def claims (ledger : Ledger) : List Opening :=
  ledger.settled ++ pending ledger.active

/-- Every mode that has been opened has a place of its own, and is not settled, or to be settled,
more than once. -/
structure Sound (ledger : Ledger) : Prop where
  places : ledger.opened.map (·.place) = List.range ledger.opened.length
  once : ledger.claims.Subperm ledger.opened

/-- Every mode that has been opened is settled, or to be settled. -/
def Complete (ledger : Ledger) : Prop :=
  ledger.claims.Perm ledger.opened

theorem Sound.nodup (h : ledger.Sound) : ledger.opened.Nodup := by
  refine List.Nodup.of_map (·.place) ?_
  rw [h.places]
  exact List.nodup_range

theorem claims_leave (count : Nat) (ledger : Ledger) : (ledger.leave count).claims = ledger.claims := by
  rw [claims, leave, List.append_assoc, ← pending_append, List.take_append_drop, claims]

theorem claims_enter (number : Nat) (ledger : Ledger) :
    (ledger.enter number).claims.Perm (⟨ledger.opened.length, number⟩ :: ledger.claims) :=
  List.perm_middle

theorem claims_close (ledger : Ledger) : ledger.close.claims = ledger.claims := by
  have hnone : ∀ active : List (Opening × Bool),
      pending (active.map fun entry => (entry.1, true)) = [] := by
    intro active
    simp [pending]
  rw [claims, close, hnone, List.append_nil, claims]

theorem Sound.enter (h : ledger.Sound) (number : Nat) : (ledger.enter number).Sound where
  places := by
    simp only [Ledger.enter, List.map_append, h.places, List.length_append, List.length_singleton,
      List.range_succ, List.map_cons, List.map_nil]
  once := by
    have hopened := (List.perm_append_singleton
      (⟨ledger.opened.length, number⟩ : Opening) ledger.opened).symm
    exact (claims_enter number ledger).subperm.trans
      (((List.subperm_cons _).mpr h.once).trans hopened.subperm)

theorem Complete.enter (h : ledger.Complete) (number : Nat) : (ledger.enter number).Complete :=
  (claims_enter number ledger).trans ((h.cons _).trans (List.perm_append_singleton _ _).symm)

theorem Sound.leave (h : ledger.Sound) (count : Nat) : (ledger.leave count).Sound where
  places := h.places
  once := by
    rw [claims_leave]
    exact h.once

theorem Complete.leave (h : ledger.Complete) (count : Nat) : (ledger.leave count).Complete := by
  rw [Complete, claims_leave]
  exact h

/-- What is kept when modes are opened and when they are left is kept along a scan. -/
theorem follow_of {P : Ledger → Prop} (henter : ∀ ledger number, P ledger → P (ledger.enter number))
    (hleave : ∀ ledger count, P ledger → P (ledger.leave count)) (h : P ledger) (lexer : Lexer)
    (visited : List (RuleMatch × Move)) : P (ledger.follow lexer visited) := by
  have hmove : ∀ ledger move, P ledger → P (ledger.move lexer move) := by
    intro ledger move h
    cases move with
    | stay => exact h
    | enter number => exact henter _ _ h
    | leave count =>
      rw [Ledger.move]
      split
      · exact henter _ _ (hleave _ _ h)
      · exact hleave _ _ h
  induction visited generalizing ledger with
  | nil => exact h
  | cons visit visited ih => exact ih (hmove _ _ h)

theorem Sound.follow (h : ledger.Sound) (lexer : Lexer) (visited : List (RuleMatch × Move)) :
    (ledger.follow lexer visited).Sound :=
  follow_of (fun _ number h => h.enter number) (fun _ count h => h.leave count) h lexer visited

theorem Complete.follow (h : ledger.Complete) (lexer : Lexer)
    (visited : List (RuleMatch × Move)) : (ledger.follow lexer visited).Complete :=
  follow_of (fun _ number h => h.enter number) (fun _ count h => h.leave count) h lexer visited

variable {nested : Nested}

theorem settled_scan (env : Env) (nested : Nested) (frames : List Frame) (ledger : Ledger) :
    ledger.settled <+: (ledger.scan env nested frames).settled := by
  rw [scan]
  cases ((run env nested frames).run default).1 with
  | ok result => exact (settled_follow _ _ ledger).trans (List.prefix_append _ _)
  | error failure => exact List.prefix_rfl

/-- No scan settles a mode that has been settled before. -/
theorem Sound.scan (h : ledger.Sound) (env : Env) (nested : Nested) (frames : List Frame) :
    (ledger.scan env nested frames).Sound := by
  rw [Ledger.scan]
  generalize ((visits env nested env.fuel (State.restore env frames)).run default).1 = visited
  have hfollowed := h.follow env.lexer visited
  cases ((run env nested frames).run default).1 with
  | ok result =>
    refine ⟨hfollowed.places, ?_⟩
    rw [stop, claims_close]
    exact hfollowed.once
  | error failure =>
    have hsettled := settled_follow env.lexer visited ledger
    exact ⟨hfollowed.places,
      (hsettled.sublist.append_right _).subperm.trans hfollowed.once⟩

/-- A scan that comes to its end settles all modes that are still to be settled. -/
theorem Complete.scan (h : ledger.Complete) {result : Highlighted}
    (hrun : ((run env nested frames).run default).1 = .ok result) :
    (ledger.scan env nested frames).Complete ∧
      pending (ledger.scan env nested frames).active = [] := by
  rw [Ledger.scan, hrun]
  refine ⟨?_, by simp [stop, close, pending]⟩
  rw [Complete, stop, claims_close]
  exact h.follow env.lexer _

end Ledger

/-! ## What a scan scores -/

variable {env : Env} {nested : Nested} {frames : List Frame} {ledger : Ledger} {state : State}
  {before after : Trace}

/-- A step makes the ledger follow the stack, and settles what is scored. -/
theorem step_ledger {progress : Progress} (hmarks : Ledger.marks ledger.active = marks state.frames)
    (h : Returns (step env nested state) before progress after) :
    let next := ledger.follow env.lexer (nextVisit? env state).toList
    Ledger.marks next.active = marks progress.last.frames ∧
      Ledger.score env.lexer next.settled =
        Ledger.score env.lexer ledger.settled + nextDue env state := by
  rcases step_moved h with ⟨hnone, rfl⟩ |
    ⟨found, cursor, state', advance, -, hvisit, hmoved, hlast⟩
  · rw [nextDue, hnone]
    exact ⟨hmarks, rfl⟩
  · rw [nextDue, hvisit, hlast]
    exact ⟨(Ledger.marks_move hmarks _).trans hmoved.marks.symm, Ledger.score_move hmarks _⟩

/-- Two loops stop alike, but for what has been scored, with the ledger following the stack. -/
inductive Outcome.Credits (amount : Nat) (ledger : Ledger) : Outcome → Outcome → Prop where
  | done {state : State} (h : Ledger.marks ledger.active = marks state.frames) :
      Outcome.Credits amount ledger (.done (state.credit amount)) (.done state)
  | failed {fault : Fault} {frames : List Frame}
      (h : Ledger.marks ledger.active = marks frames) :
      Outcome.Credits amount ledger (.failed fault frames) (.failed fault frames)

/-- A loop scores what the ledger settles. -/
theorem loop_credit (hnested : nested.IsSteady) {fuel amount settled : Nat}
    (hmarks : Ledger.marks ledger.active = marks state.frames)
    (hscore : settled + amount = Ledger.score env.lexer ledger.settled) (before before' : Trace) :
    let next := ledger.follow env.lexer
      ((visits env nested fuel (state.credit amount)).run before).1
    ∃ amount', settled + amount' = Ledger.score env.lexer next.settled ∧
      Outcome.Credits amount' next ((loop env nested fuel (state.credit amount)).run before).1
        ((loop env.unscored nested fuel state).run before').1 := by
  induction fuel generalizing state ledger amount before before' with
  | zero => exact ⟨amount, hscore, .done hmarks⟩
  | succ fuel ih =>
    have hstep := @step_credit env nested hnested amount state before before'
    have hledger := fun progress after =>
      @step_ledger env nested ledger (state.credit amount) before after progress hmarks
    simp only [loop, visits, StateT.run_bind]
    unfold Returns Gives at hledger
    generalize (step env nested (state.credit amount)).run.run before = first at hstep hledger ⊢
    generalize (step env.unscored nested state).run.run before' = second at hstep ⊢
    obtain ⟨outcome, between⟩ := first
    obtain ⟨outcome', between'⟩ := second
    cases hstep with
    | error herror =>
      cases herror
      exact ⟨amount, hscore, .failed hmarks⟩
    | excused hlenient => cases hlenient
    | @ok progress progress' hprogress =>
      obtain ⟨hfollows, hsettles⟩ := hledger progress between rfl
      subst hprogress
      have hamount : settled + (amount + nextDue env state) = Ledger.score env.lexer
          (ledger.follow env.lexer (nextVisit? env state).toList).settled := by
        rw [← Nat.add_assoc, hscore]
        exact hsettles.symm
      rw [frames_last_credit] at hfollows
      cases progress' with
      | done last => exact ⟨_, hamount, .done hfollows⟩
      | more next =>
        obtain ⟨amount', hamount', hcredits⟩ := ih hfollows hamount between between'
        rw [← Ledger.follow_append] at hamount' hcredits
        exact ⟨amount', hamount', hcredits⟩

/-- Two runs come to the same result, but for the relevance, or fail with the same fault. The
relevance exceeds by what the modes score that are settled on the way from one ledger to the next,
and the active modes of that are those in which the run has ended. -/
inductive RunsCredit (lexer : Lexer) (ledger next : Ledger) :
    Except (Fault × List Frame) Highlighted → Except (Fault × List Frame) Highlighted → Prop where
  | ok {result : Highlighted} {amount : Nat}
      (hscore : Ledger.score lexer ledger.settled + amount = Ledger.score lexer next.settled)
      (hmarks : Ledger.marks next.active = marks result.frames) :
      RunsCredit lexer ledger next
        (.ok { result with relevance := result.relevance + amount }) (.ok result)
  | error {fault : Fault} {frames : List Frame} (hsettled : next.settled = ledger.settled)
      (hmarks : Ledger.marks next.active = marks frames) :
      RunsCredit lexer ledger next (.error (fault, frames)) (.error (fault, frames))

theorem RunsCredit.of_ok {lexer : Lexer} {next : Ledger} {result : Highlighted}
    {outcome : Except (Fault × List Frame) Highlighted}
    (h : RunsCredit lexer ledger next (.ok result) outcome) :
    Ledger.marks next.active = marks result.frames ∧
      ∃ bare amount, outcome = .ok bare ∧ result.relevance = bare.relevance + amount ∧
        Ledger.score lexer ledger.settled + amount = Ledger.score lexer next.settled := by
  cases h with
  | ok hscore hmarks => exact ⟨hmarks, _, _, rfl, rfl, hscore⟩

theorem RunsCredit.of_error {lexer : Lexer} {next : Ledger} {failure : Fault × List Frame}
    {outcome : Except (Fault × List Frame) Highlighted}
    (h : RunsCredit lexer ledger next (.error failure) outcome) :
    Ledger.marks next.active = marks failure.2 ∧ outcome = .error failure ∧
      next.settled = ledger.settled := by
  cases h with
  | error hsettled hmarks => exact ⟨hmarks, rfl, hsettled⟩

/-- Modes that are still active at the end of the text are scored and settled there. -/
theorem afterLoop_credit (hnested : nested.IsSteady) {next : Ledger} {amount : Nat}
    {outcome outcome' : Outcome}
    (hscore : Ledger.score env.lexer ledger.settled + amount =
      Ledger.score env.lexer next.settled)
    (h : Outcome.Credits amount next outcome outcome') (before before' : Trace) :
    RunsCredit env.lexer ledger
      (ledger.stop next ((afterLoop env nested outcome).run before).1)
      ((afterLoop env nested outcome).run before).1
      ((afterLoop env.unscored nested outcome').run before').1 := by
  cases h with
  | failed hmarks => exact .error rfl hmarks
  | @done last hmarks =>
    have hkept : ∀ flushed after, Returns (flushRest env.unscored nested last) before' flushed after →
        flushed.frames = last.frames := by
      intro flushed after hflush
      have hframes := flush_frames hflush
      exact hframes
    have hflushed := @flushRest_credit env nested hnested amount last before before'
    unfold Returns Gives at hkept
    simp only [afterLoop, StateT.run_bind]
    generalize (flushRest env nested (last.credit amount)).run.run before = first at hflushed ⊢
    generalize (flushRest env.unscored nested last).run.run before' = second at hflushed hkept ⊢
    obtain ⟨flushed, between⟩ := first
    obtain ⟨flushed', between'⟩ := second
    cases hflushed with
    | error herror =>
      cases herror
      exact .error rfl hmarks
    | excused hlenient => cases hlenient
    | @ok flushed flushed' hcredit =>
      have hframes := hkept flushed' between' rfl
      subst hcredit
      change RunsCredit env.lexer ledger next.close
        (.ok (conclude env (flushed'.credit amount))) (.ok (conclude env.unscored flushed'))
      rw [conclude_credit]
      refine .ok ?_ ?_
      · rw [Ledger.score_close, hmarks, hframes, ← hscore, Nat.add_assoc]
      · rw [← hframes] at hmarks
        exact Ledger.marks_close next hmarks

/-- A run scores what the ledger settles. -/
theorem run_credit (hnested : nested.IsSteady) (hframes : (State.restore env frames).frames = frames)
    (hmarks : Ledger.marks ledger.active = marks frames) (before : Trace) :
    RunsCredit env.lexer ledger (ledger.scan env nested frames)
      ((run env nested frames).run default).1 ((run env.unscored nested frames).run before).1 := by
  have hloop := @loop_credit env nested ledger (State.restore env frames) hnested env.fuel 0
    (Ledger.score env.lexer ledger.settled) (by rw [hframes]; exact hmarks) rfl default before
  rw [State.credit_zero] at hloop
  obtain ⟨amount, hamount, hcredits⟩ := hloop
  rw [Ledger.scan, run_eq, run_eq, restore_unscored, StateT.run_bind, StateT.run_bind]
  exact afterLoop_credit hnested hamount hcredits _ _

end Highlighter.Scan
