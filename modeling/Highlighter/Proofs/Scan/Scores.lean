import Highlighter.Proofs.Scan.Lockstep
import Highlighter.Proofs.Scan.Moves

/-!
# What leaving modes scores

A mode scores when it is left, unless an earlier scan has credited it. Nothing else looks at these
scores: with a lexer whose modes score nothing, a scan makes the same moves and comes to the same
result, but for the relevance, which falls short by the scores of the modes that have been left.
-/

namespace Highlighter

/-- What leaving a mode scores. -/
def LexerMode.score (mode : LexerMode) : Nat :=
  if mode.skip || mode.subLanguage.isSome then 0 else mode.relevance

/-- A mode that scores nothing when it is left. Where it embeds a language its relevance stays,
since this decides whether the score of the embedded text counts. -/
def LexerMode.unscored (mode : LexerMode) : LexerMode :=
  { mode with relevance := if mode.subLanguage.isSome then mode.relevance else 0 }

theorem LexerMode.score_unscored (mode : LexerMode) : mode.unscored.score = 0 := by
  simp only [LexerMode.score, LexerMode.unscored]
  simp +contextual

namespace Lexer

/-- What leaving the mode with a number scores. -/
def score (lexer : Lexer) (number : Nat) : Nat :=
  (lexer.modes[number]?.map LexerMode.score).getD 0

/-- A lexer whose modes score nothing when they are left. -/
def unscored (lexer : Lexer) : Lexer :=
  { lexer with modes := lexer.modes.map LexerMode.unscored }

/-- What leaving frames with the given marks scores. -/
def due (lexer : Lexer) (marks : List (Nat × Bool)) : Nat :=
  (marks.map fun mark => if mark.2 then 0 else lexer.score mark.1).sum

@[simp] theorem due_nil (lexer : Lexer) : lexer.due [] = 0 := rfl

@[simp] theorem due_cons (lexer : Lexer) (mark : Nat × Bool) (marks : List (Nat × Bool)) :
    lexer.due (mark :: marks) = (if mark.2 then 0 else lexer.score mark.1) + lexer.due marks := by
  simp only [due, List.map_cons, List.sum_cons]

theorem due_append (lexer : Lexer) (marks marks' : List (Nat × Bool)) :
    lexer.due (marks ++ marks') = lexer.due marks + lexer.due marks' := by
  simp only [due, List.map_append, List.sum_append]

/-- A mode of the unscored lexer differs in its relevance only, which is the same where the mode
embeds a language, and else falls short by the score of the mode. -/
theorem mode_unscored (lexer : Lexer) (number : Nat) :
    ∃ relevance, lexer.unscored.mode number = { lexer.mode number with relevance := relevance } ∧
      ((lexer.mode number).subLanguage.isSome = true → relevance = (lexer.mode number).relevance) ∧
      (lexer.mode number).score = (lexer.unscored.mode number).score + lexer.score number := by
  simp only [mode, unscored, score, Array.getD_eq_getD_getElem?, Array.getElem?_map]
  cases lexer.modes[number]? with
  | none => exact ⟨_, rfl, fun _ => rfl, rfl⟩
  | some mode =>
    refine ⟨_, rfl, fun hsub => if_pos hsub, ?_⟩
    change mode.score = mode.unscored.score + mode.score
    rw [LexerMode.score_unscored, Nat.zero_add]

end Lexer

/-- What the second computation is known to succeed with is known of both. -/
theorem AgreeExcept.and_returns {α β : Type} {lenient : Bool} {r : α → β → Prop} {Q : β → Prop}
    {x : TracedExcept α} {y : TracedExcept β} (h : AgreeExcept lenient r x y)
    (hreturns : ∀ before b after, Returns y before b after → Q b) :
    AgreeExcept lenient (fun a b => r a b ∧ Q b) x y := by
  intro before before'
  have hagree := h before before'
  have hresult := fun b after => hreturns before' b after
  unfold Returns Gives at hresult
  generalize (y.run.run before') = outcome at hagree hresult
  obtain ⟨outcome, after⟩ := outcome
  generalize (x.run.run before).1 = other at hagree
  cases hagree with
  | ok hr => exact .ok ⟨hr, hresult _ _ rfl⟩
  | error herror => exact .error herror
  | excused hlenient => exact .excused hlenient

namespace Scan

/-- A scan with a lexer whose modes score nothing. -/
def Env.unscored (env : Env) : Env :=
  { env with lexer := env.lexer.unscored }

/-- A state in which more has been scored. -/
def State.credit (amount : Nat) (state : State) : State :=
  { state with relevance := state.relevance + amount }

/-- A text that has been marked equally far, where more has been scored. -/
def Marking.credit (amount : Nat) (marking : Marking) : Marking :=
  { marking with state := marking.state.credit amount }

/-- The services for embedded languages give the same whatever has happened before. -/
def Nested.IsSteady (nested : Nested) : Prop :=
  nested.Alike false (fun _ => Eq) nested

variable {env : Env} {nested : Nested} {found : RuleMatch} {state : State}

@[simp] theorem options_unscored (env : Env) : env.unscored.options = env.options := rfl

@[simp] theorem fault_unscored (env : Env) : env.unscored.fault = env.fault := rfl

theorem Env.mode_unscored (env : Env) (number : Nat) :
    ∃ relevance, env.unscored.lexer.mode number =
      { env.lexer.mode number with relevance := relevance } := by
  obtain ⟨relevance, hmode, _⟩ := env.lexer.mode_unscored number
  exact ⟨relevance, hmode⟩

theorem top_unscored (env : Env) (state : State) :
    ∃ relevance, state.top env.unscored = { state.top env with relevance := relevance } ∧
      ((state.top env).subLanguage.isSome = true → relevance = (state.top env).relevance) := by
  obtain ⟨relevance, hmode, hembeds, _⟩ := env.lexer.mode_unscored
    ((state.frames.head?.map (·.mode)).getD Lexer.root)
  exact ⟨relevance, hmode, hembeds⟩

namespace State

variable (amount : Nat)

@[simp] theorem top_credit (env : Env) (state : State) :
    (state.credit amount).top env = state.top env := rfl

theorem credit_zero (state : State) : state.credit 0 = state := rfl

@[simp] theorem frames_credit (state : State) : (state.credit amount).frames = state.frames := rfl

@[simp] theorem addToBuffer_credit (content : String) (state : State) :
    (state.credit amount).addToBuffer content = (state.addToBuffer content).credit amount := rfl

theorem takeChar_credit (env : Env) (position : Nat) (state : State) :
    (state.credit amount).takeChar env position =
      (state.takeChar env.unscored position).credit amount := by
  have htext : env.unscored.text = env.text := rfl
  rw [takeChar, takeChar, htext]
  cases env.text[position]? <;> rfl

theorem popFrame_eq {frame : Frame} {outer : List Frame} (hframes : state.frames = frame :: outer) :
    state.popFrame env = { state with
      frames := outer
      tree := if (env.lexer.mode frame.mode).scope.isSome then state.tree.closeNode else state.tree
      relevance := state.relevance +
        if frame.isCredited then 0 else (env.lexer.mode frame.mode).score } := by
  simp only [popFrame, hframes, LexerMode.score, mk.injEq, true_and, and_true]
  cases frame.isCredited <;> cases (env.lexer.mode frame.mode).skip <;>
    cases (env.lexer.mode frame.mode).subLanguage <;> simp

/-- Leaving a mode scores what is due for its frame. -/
theorem popFrame_credit (env : Env) (state : State) :
    (state.credit amount).popFrame env =
      (state.popFrame env.unscored).credit
        (amount + env.lexer.due (marks (state.frames.take 1))) := by
  cases hframes : state.frames with
  | nil => simp [popFrame, hframes, marks]
  | cons frame outer =>
    obtain ⟨relevance, hmode, _, hscore⟩ := env.lexer.mode_unscored frame.mode
    have hframes' : (state.credit amount).frames = frame :: outer := hframes
    rw [popFrame_eq hframes, popFrame_eq hframes', hscore]
    simp only [List.take_succ_cons, List.take_zero, marks, List.map_cons, List.map_nil,
      Lexer.due_cons, Lexer.due_nil, Frame.mark, credit, Env.unscored, hmode, mk.injEq, true_and,
      and_true]
    split <;> omega

theorem popFrames_credit (env : Env) (count : Nat) (state : State) :
    (state.credit amount).popFrames env count =
      (state.popFrames env.unscored count).credit
        (amount + env.lexer.due (marks (state.frames.take count))) := by
  induction count generalizing amount state with
  | zero => simp [popFrames, marks]
  | succ count ih =>
    rw [popFrames, popFrames, popFrame_credit, ih, frames_popFrame, Nat.add_assoc,
      ← Lexer.due_append]
    congr 3
    cases state.frames with
    | nil => simp [marks]
    | cons frame outer => rfl

end State

/-! ## What does not look at scores -/

theorem markWord_unscored (env : Env) : markWord env.unscored = markWord env := rfl

theorem markWord_credit (amount : Nat) (keywords : LexerKeywords) (text : Array Char)
    (marking : Marking) (span : Regex.Span) :
    markWord env keywords text (marking.credit amount) span =
      (markWord env keywords text marking span).credit amount := by
  simp only [markWord, Marking.credit, State.credit]
  generalize (if env.lexer.ignoreCase then Text.lower (span.text text) else span.text text) = key
  generalize keywords.table.get? key = entry
  cases entry with
  | none => rfl
  | some entry =>
    by_cases hcounted : marking.state.hits.getD key 0 + 1 ≤ env.settings.maxKeywordHits
    · by_cases hhidden : entry.isHidden = true <;> simp [hcounted, hhidden, Nat.add_right_comm]
    · by_cases hhidden : entry.isHidden = true <;> simp [hcounted, hhidden]

theorem markKeywords_credit (amount : Nat) (text : String) (state : State) :
    markKeywords env text (state.credit amount) =
      (markKeywords env.unscored text state).credit amount := by
  obtain ⟨relevance, htop, _⟩ := top_unscored env state
  have hfold : ∀ (keywords : LexerKeywords) (chars : Array Char) (spans : List Regex.Span)
      (marking : Marking),
      spans.foldl (markWord env keywords chars) (marking.credit amount) =
        (spans.foldl (markWord env keywords chars) marking).credit amount := by
    intro keywords chars spans
    induction spans with
    | nil => exact fun _ => rfl
    | cons span spans ih =>
      intro marking
      rw [List.foldl_cons, markWord_credit, ih, List.foldl_cons]
  simp only [markKeywords, State.top_credit, htop, markWord_unscored]
  cases (state.top env).keywords with
  | none => rfl
  | some keywords =>
    have hmarked := hfold keywords text.toList.toArray
      (keywords.regex.findAll text.toList.toArray) { state := state }
    simp only [Marking.credit] at hmarked
    simp only [hmarked]
    rfl

theorem addSegments_credit (amount : Nat) (found : RuleMatch) (state : State)
    (segments : List SegmentScope) :
    addSegments env found (state.credit amount) segments =
      (addSegments env.unscored found state segments).credit amount := by
  induction segments generalizing state with
  | nil => rfl
  | cons segment segments ih =>
    rw [addSegments, addSegments]
    cases found.groups[segment.group]?.join with
    | none => exact ih state
    | some span =>
      cases segment.scope with
      | some scope => exact ih { state with
          tree := state.tree.addScoped (span.text env.text) (env.lexer.scopeName scope) }
      | none =>
        simp only [markKeywords_credit]
        exact ih _

theorem enter_credit (amount number : Nat) (found : RuleMatch) (data : FrameData) (state : State) :
    enter env number found data (state.credit amount) =
      (enter env.unscored number found data state).credit amount := by
  obtain ⟨relevance, hmode, _⟩ := env.lexer.mode_unscored number
  rw [enter_eq, enter_eq]
  simp only [Env.unscored, hmode]
  cases (env.lexer.mode number).beginScope with
  | none => rfl
  | some scope =>
    cases scope with
    | whole scope => rfl
    | segments segments =>
      have hadded := @addSegments_credit env amount found
        { state with tree := openScope env (env.lexer.mode number) state.tree } segments
      simp only [State.credit] at hadded ⊢
      rw [hadded]
      rfl

theorem goOn_credit (amount : Nat) (found : RuleMatch) (next : Option Nat) (state : State) :
    goOn env found next (state.credit amount) =
      (goOn env.unscored found next state).credit amount := by
  cases next with
  | none => rfl
  | some number => exact enter_credit amount number found {} state

theorem addEmbedded_credit (amount relevance : Nat) (mode : LexerMode) (result : Highlighted)
    (state : State) (hrelevance : relevance = mode.relevance) :
    addEmbedded mode result (state.credit amount) =
      (addEmbedded { mode with relevance := relevance } result state).credit amount := by
  subst hrelevance
  simp only [addEmbedded, State.credit]
  split <;> simp only [Nat.add_right_comm]

/-- Two computations give the same state, but for what has been scored. -/
abbrev Credits (amount : Nat) : TracedExcept State → TracedExcept State → Prop :=
  AgreeExcept false fun state state' => state = state'.credit amount

/-- Neither the frames of a result nor its runner-up are looked at where it is added. -/
theorem addEmbedded_congr {result result' : Highlighted} (h : result.bare = result'.bare)
    (mode : LexerMode) (state : State) :
    addEmbedded mode result state = addEmbedded mode result' state := by
  have hrelevance : result.relevance = result'.relevance := (congrArg Highlighted.relevance h :)
  have htree : result.tree = result'.tree := (congrArg Highlighted.tree h :)
  have hlanguage : result.language = result'.language := (congrArg Highlighted.language h :)
  rw [addEmbedded, addEmbedded, hrelevance, htree, hlanguage]

theorem embed_credit (hnested : nested.IsSteady) (amount : Nat) {state : State}
    (hembeds : (state.top env).subLanguage.isSome = true) (language : SubLanguage)
    (text : String) :
    Credits amount (embed env nested language text (state.credit amount))
      (embed env.unscored nested language text state) := by
  obtain ⟨relevance, htop, hrelevance⟩ := top_unscored env state
  simp only [embed, htop, State.top_credit]
  split
  · exact .of_pure rfl
  · cases language with
    | named name =>
      simp only
      split
      · refine .bind (r := fun _ _ => True) (.of_agree fun _ _ => trivial) fun _ _ _ => ?_
        exact .of_pure rfl
      · refine .bind (hnested.highlight name _ _ _ rfl) fun result result' hresult => .of_pure ?_
        rw [addEmbedded_congr hresult.bare, hresult.frames]
        exact addEmbedded_credit amount relevance _ result' { state with
          continuations := (name, result'.frames) :: state.continuations.filter (·.1 != name) }
            (hrelevance hembeds)
    | candidates names =>
      refine .bind (.of_agree (hnested.detect _ _)) fun result result' hresult => .of_pure ?_
      rw [addEmbedded_congr hresult]
      exact addEmbedded_credit amount relevance _ result' state (hrelevance hembeds)

theorem flush_credit (hnested : nested.IsSteady) (amount : Nat) (state : State) :
    Credits amount (flush env nested (state.credit amount)) (flush env.unscored nested state) := by
  obtain ⟨relevance, htop, _⟩ := top_unscored env { state with buffer := "" }
  have hown : (({ state.credit amount with buffer := "" } : State).top env) =
    ({ state with buffer := "" } : State).top env := rfl
  rw [flush, flush, htop, hown]
  cases hsub : (({ state with buffer := "" } : State).top env).subLanguage with
  | none => exact .of_pure (markKeywords_credit amount _ { state with buffer := "" })
  | some language => exact embed_credit hnested amount (by rw [hsub]; rfl) language _

/-! ## Matches -/

/-- Two computations give the same state, but for what has been scored, and the same beside it. -/
abbrev CreditsWith {α : Type} (amount : Nat) :
    TracedExcept (State × α) → TracedExcept (State × α) → Prop :=
  AgreeExcept false fun given given' => given = (given'.1.credit amount, given'.2)

theorem ignore_credit (amount index : Nat) (state : State) :
    ignore env index (state.credit amount) =
      ((ignore env.unscored index state).1.credit amount, (ignore env.unscored index state).2) := by
  simp only [ignore]
  change (if state.cursor = 0 then _ else _) = _
  split
  · rw [State.takeChar_credit]
  · rfl

theorem takeAsText_credit (amount : Nat) (found : RuleMatch) (state : State) :
    takeAsText env found (state.credit amount) =
      ((takeAsText env.unscored found state).1.credit amount,
        (takeAsText env.unscored found state).2) := by
  simp only [takeAsText]
  split
  · rw [State.takeChar_credit]
  · rfl

theorem begin_credit (hnested : nested.IsSteady) (amount number : Nat) (found : RuleMatch)
    (state : State) :
    CreditsWith amount (begin env nested number found (state.credit amount))
      (begin env.unscored nested number found state) := by
  obtain ⟨relevance, hmode⟩ := env.mode_unscored number
  simp only [begin, hmode]
  refine .bind (.of_agree (steady_askAll _ _ _)) ?_
  rintro ⟨decision, data⟩ _ rfl
  have henter : ∀ (ready : State) (advance : Nat),
      CreditsWith amount (pure (enter env number found data (ready.credit amount), advance))
        (pure (enter env.unscored number found data ready, advance)) :=
    fun ready advance => .of_pure (by rw [enter_credit])
  simp only
  split
  · exact .of_pure (ignore_credit amount found.index state)
  · split
    · exact henter (state.addToBuffer (env.lexeme found)) _
    · refine .bind (r := fun flushed flushed' => flushed = flushed'.credit amount) ?_ ?_
      · split
        · exact flush_credit hnested amount (state.addToBuffer (env.lexeme found))
        · exact flush_credit hnested amount state
      · rintro _ flushed rfl
        split
        · exact henter (flushed.addToBuffer (env.lexeme found)) _
        · exact henter flushed _

theorem placeEnd_credit (hnested : nested.IsSteady) (amount : Nat) (found : RuleMatch)
    (state : State) :
    Credits amount (placeEnd env nested found (state.credit amount))
      (placeEnd env.unscored nested found state) := by
  obtain ⟨relevance, htop, _⟩ := top_unscored env state
  simp only [placeEnd, State.top_credit, htop]
  cases (state.top env).endScope with
  | some scope =>
    cases scope with
    | whole scope =>
      refine .bind (flush_credit hnested amount state) ?_
      rintro _ flushed rfl
      exact .of_pure rfl
    | segments segments =>
      refine .bind (flush_credit hnested amount state) ?_
      rintro _ flushed rfl
      exact .of_pure (addSegments_credit amount found flushed segments)
  | none =>
    by_cases hskip : (state.top env).skip = true
    · simp only [hskip, if_true]
      exact .of_pure rfl
    · simp only [hskip]
      refine .bind (r := fun flushed flushed' => flushed = State.credit amount flushed') ?_ ?_
      · by_cases hkept : (!(state.top env).returnEnd && !(state.top env).excludeEnd) = true
        · simp only [hkept, if_true]
          exact flush_credit hnested amount (state.addToBuffer (env.lexeme found))
        · simp only [hkept]
          exact flush_credit hnested amount state
      · rintro _ flushed rfl
        by_cases hexclude : (state.top env).excludeEnd = true
        · simp only [hexclude, if_true]
          exact .of_pure rfl
        · simp only [hexclude]
          exact .of_pure rfl

theorem countEnded_unscored (env : Env) (frames : List Frame) :
    countEnded env.unscored frames = countEnded env frames := by
  induction frames with
  | nil => rfl
  | cons frame outer ih =>
    cases outer with
    | nil => rfl
    | cons next outer =>
      obtain ⟨relevance, hmode⟩ := env.mode_unscored frame.mode
      change (if (env.unscored.lexer.mode frame.mode).endsParent then
        countEnded env.unscored (next :: outer) + 1 else 1) =
          if (env.lexer.mode frame.mode).endsParent then countEnded env (next :: outer) + 1 else 1
      rw [hmode, ih]

theorem findEnded_unscored (env : Env) (found : RuleMatch) (frames : List Frame) :
    findEnded env.unscored found frames = findEnded env found frames := by
  induction frames with
  | nil => rfl
  | cons frame outer ih =>
    obtain ⟨relevance, hmode⟩ := env.mode_unscored frame.mode
    have hown : ownEnd env.unscored found frame = ownEnd env found frame := by
      unfold ownEnd
      rw [hmode]
      rfl
    simp only [findEnded_cons, hown, hmode, ih, countEnded_unscored]

/-- Putting the text of an end match in its place leaves the modes as they are. -/
theorem placeEnd_marks {state' : State} {before after : Trace}
    (h : Returns (placeEnd env nested found state) before state' after) :
    marks state'.frames = marks state.frames :=
  (placeEnd_readies h).marks

theorem outermost_next_unscored (env : Env) (frames : List Frame) (count : Nat) :
    (outermost env.unscored frames count).next = (outermost env frames count).next := by
  unfold outermost
  cases frames[count - 1]? with
  | none => rfl
  | some frame =>
    obtain ⟨relevance, hmode⟩ := env.mode_unscored frame.mode
    exact (congrArg LexerMode.next hmode :)

/-- What the innermost of frames score that are left, where any are left. -/
def dueOf (lexer : Lexer) (frames : List Frame) (count : Option Nat) : Nat :=
  count.elim 0 fun count => lexer.due (marks (frames.take count))

theorem finish_credit (hnested : nested.IsSteady) (amount : Nat) (found : RuleMatch)
    (state : State) :
    CreditsWith (amount + dueOf env.lexer state.frames
        ((findEnded env found state.frames).run default).1.2)
      (finish env nested found (state.credit amount)) (finish env.unscored nested found state) := by
  have hfind : Agree (fun ended ended' => ended = ended' ∧ marks ended.1 = marks state.frames ∧
      ended.2 = ((findEnded env found state.frames).run default).1.2)
      (findEnded env found state.frames) (findEnded env found state.frames) := by
    have hsteady := steady_findEnded env found state.frames
    exact fun before before' => ⟨hsteady _ _, (findEnded_marks rfl).1,
      congrArg Prod.snd (hsteady _ _)⟩
  simp only [finish, findEnded_unscored, State.frames_credit]
  refine .bind (.of_agree hfind) ?_
  rintro ⟨frames, count⟩ _ ⟨rfl, hmarks, hcount⟩
  simp only at hmarks hcount
  rw [← hcount]
  cases count with
  | none => exact .of_pure rfl
  | some count =>
    simp only
    have hplaced := (@placeEnd_credit env _ hnested amount found
      { state with frames := frames }).and_returns fun _ _ _ hreturns => placeEnd_marks hreturns
    refine .bind hplaced ?_
    rintro _ placed ⟨rfl, hplaced⟩
    have hdue : env.lexer.due (marks (placed.frames.take count)) =
        env.lexer.due (marks (state.frames.take count)) := by
      rw [marks, marks, List.map_take, List.map_take]
      exact congrArg (fun marks => env.lexer.due (marks.take count)) (hplaced.trans hmarks)
    have hnext := outermost_next_unscored env frames count
    obtain ⟨relevance, htop, _⟩ := top_unscored env { state with frames := frames }
    have hpopped := State.popFrames_credit amount env count placed
    rw [hdue] at hpopped
    unfold outermost at hnext
    simp only [hpopped, hnext, htop]
    refine .of_pure (Prod.ext ?_ rfl)
    exact goOn_credit _ found _ _

/-- What the frames that a move leaves score. -/
def Move.due (lexer : Lexer) (frames : List Frame) : Move → Nat
  | .leave count => lexer.due (marks (frames.take count))
  | _ => 0

theorem complain_credit (amount : Nat) (found : RuleMatch) (state : State) :
    complain env found (state.credit amount) = complain env.unscored found state := by
  obtain ⟨relevance, htop, _⟩ := top_unscored env state
  simp only [complain, State.top_credit, htop]
  rfl

theorem handle_credit (hnested : nested.IsSteady) (amount : Nat) (found : RuleMatch)
    (state : State) :
    CreditsWith (amount + (moveOf env found state).due env.lexer state.frames)
      (handle env nested found (state.credit amount)) (handle env.unscored nested found state) := by
  have hempty : emptyMode? found (state.credit amount) = emptyMode? found state := rfl
  have hrunaway : isRunaway env found.index (state.credit amount) =
    isRunaway env.unscored found.index state := rfl
  simp only [handle, hempty, hrunaway]
  split
  · exact .of_throw _
  · cases hnumber : emptyMode? found state with
    | some number =>
      obtain ⟨relevance, hmode⟩ := env.mode_unscored number
      have hmove : moveOf env found state = .stay := by simp only [moveOf, hnumber]
      have htaken := State.takeChar_credit amount env found.index state
      simp only [hmove, Move.due, throw_bind, hmode, htaken, options_unscored, fault_unscored]
      split
      · exact .of_throw _
      · exact .of_pure rfl
    | none =>
      simp only
      cases hkind : found.kind with
      | begin number =>
        have hdue : (moveOf env found state).due env.lexer state.frames = 0 := by
          simp only [moveOf, hnumber, hkind]
          split <;> rfl
        have hbegun := @begin_credit env nested hnested amount number found (state.recorded found)
        simp only [State.recorded, hkind] at hbegun
        rw [hdue]
        exact hbegun
      | finish =>
        have hdue : (moveOf env found state).due env.lexer state.frames =
            dueOf env.lexer state.frames ((findEnded env found state.frames).run default).1.2 := by
          simp only [moveOf, hnumber, hkind]
          split <;> next hcount => rw [hcount]; rfl
        have hfinished := @finish_credit env nested hnested amount found (state.recorded found)
        simp only [State.recorded, hkind] at hfinished
        rw [hdue]
        refine .bind hfinished ?_
        rintro _ ⟨finished, advance⟩ rfl
        cases advance with
        | none => exact .of_pure (takeAsText_credit _ found finished)
        | some advance => exact .of_pure rfl
      | illegal =>
        have hmove : moveOf env found state = .stay := by simp only [moveOf, hnumber, hkind]
        have hcomplaint := @complain_credit env amount found (state.recorded found)
        have htaken := @takeAsText_credit env amount found (state.recorded found)
        simp only [State.recorded, hkind] at hcomplaint htaken
        simp only [hmove, Move.due, throw_bind, options_unscored, ← hcomplaint]
        split
        · exact .of_throw _
        · exact .of_pure htaken

/-! ## Steps -/

/-- How a step went on, where more has been scored. -/
def Progress.credit (amount : Nat) : Progress → Progress
  | .more state => .more (state.credit amount)
  | .done state => .done (state.credit amount)

@[simp] theorem frames_last_credit (amount : Nat) (progress : Progress) :
    (progress.credit amount).last.frames = progress.last.frames := by
  cases progress <;> rfl

/-- What the frames score that the next step leaves. -/
def nextDue (env : Env) (state : State) : Nat :=
  (nextVisit? env state).elim 0 fun visit => visit.2.due env.lexer state.frames

theorem step_credit (hnested : nested.IsSteady) (amount : Nat) (state : State) :
    AgreeExcept false (fun progress progress' =>
        progress = progress'.credit (amount + nextDue env state))
      (step env nested (state.credit amount)) (step env.unscored nested state) := by
  obtain ⟨relevance, htop, _⟩ := top_unscored env state
  rw [step_eq, step_eq, State.top_credit, htop]
  simp only [nextDue, nextVisit?]
  have hcursor : (state.credit amount).begun.cursor = state.begun.cursor := rfl
  have hindex : (state.credit amount).index = state.index := rfl
  have htext : env.unscored.text = env.text := rfl
  rw [hcursor, hindex, htext]
  rcases (state.top env).rules.find env.text state.index state.begun.cursor with
    error | ⟨_ | found, cursor⟩
  · exact .of_throw _
  · exact .of_pure rfl
  · refine .bind (handle_credit hnested amount found (state.reached env found cursor)) ?_
    rintro _ ⟨handled, advance⟩ rfl
    refine .of_pure ?_
    change (if env.text.size < found.index + advance then _ else _) =
      Progress.credit _ (if env.text.size < found.index + advance then _ else _)
    split <;> rfl

theorem flushRest_credit (hnested : nested.IsSteady) (amount : Nat) (state : State) :
    Credits amount (flushRest env nested (state.credit amount))
      (flushRest env.unscored nested state) :=
  flush_credit hnested amount (state.addToBuffer (env.slice state.index env.text.size))

/-- The modes that are active at the end score what is due for their frames. -/
theorem conclude_credit (env : Env) (amount : Nat) (state : State) :
    conclude env (state.credit amount) =
      { conclude env.unscored state with
        relevance := (conclude env.unscored state).relevance +
          (amount + env.lexer.due (marks state.frames)) } := by
  have hpopped := State.popFrames_credit amount env state.frames.length state
  rw [List.take_length] at hpopped
  simp only [conclude, State.frames_credit, hpopped]
  rfl

theorem restore_unscored (env : Env) (frames : List Frame) :
    State.restore env.unscored frames = State.restore env frames := by
  have hcount : env.unscored.lexer.modeCount = env.lexer.modeCount :=
    Array.size_map
  have hopen : (fun (frame : Frame) tree =>
      openScope env.unscored (env.unscored.lexer.mode frame.mode) tree) =
      fun frame tree => openScope env (env.lexer.mode frame.mode) tree := by
    funext frame tree
    obtain ⟨relevance, hmode⟩ := env.mode_unscored frame.mode
    rw [hmode]
    rfl
  have htree := congrArg (fun opened => frames.reverse.foldl
    (fun tree frame => opened frame tree) TokenTree.empty) hopen
  simp only [openScope] at htree
  simp only [State.restore, hcount]
  split
  · exact congrArg (fun tree => ({ frames := frames, tree := tree } : State)) htree
  · rfl

end Scan

end Highlighter
