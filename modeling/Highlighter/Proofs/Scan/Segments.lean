import Highlighter.Proofs.Scan.Scores

/-!
# The texts of an embedded language

A scan gives the texts of a language that is embedded by name to this language one after the other,
each with the modes in which the text before it has ended.
-/

namespace Highlighter.Scan

/-- A text that a scan gives to an embedded language, with the modes in which this goes on. -/
structure Segment where
  text : String
  frames : List Frame
  deriving DecidableEq

/-- The modes in which the text of an embedded language goes on. -/
def State.left (name : String) (state : State) : List Frame :=
  (state.continuations.lookup name).getD []

/-- What flushing the buffer gives to the language with a name. -/
def State.asks? (env : Env) (nested : Nested) (name : String) (state : State) : Option Segment :=
  if (state.top env).subLanguage = some (.named name) ∧ nested.isKnown name = true ∧
      state.buffer.isEmpty = false then
    some ⟨state.buffer, state.left name⟩
  else none

/-- What a match flushes before the move that it makes. -/
def flushed? (env : Env) (found : RuleMatch) (state : State) : Move → Option State
  | .stay => none
  | .enter number => beginInput env found number state
  | .leave _ => endInput env found state

/-- What a step gives to the language with a name. After too many iterations the match is not
handled any more. -/
def stepAsks? (env : Env) (nested : Nested) (name : String) (state : State) : Option Segment :=
  match (state.top env).rules.find env.text state.index state.begun.cursor with
  | .ok (some found, cursor) =>
    let reached := state.reached env found cursor
    if isRunaway env found.index reached then none
    else (flushed? env found (reached.recorded found) (moveOf env found reached)).bind
      (State.asks? env nested name)
  | _ => none

/-- What flushing the rest of the text gives to the language with a name. -/
def restAsks? (env : Env) (nested : Nested) (name : String) (state : State) : Option Segment :=
  (state.addToBuffer (env.slice state.index env.text.size)).asks? env nested name

/-- The texts that a loop of steps, and the flush of the rest after it, give to the language with a
name. -/
def segmentsFrom (env : Env) (nested : Nested) (name : String) :
    (fuel : Nat) → State → Traced (List Segment)
  | 0, state => return (restAsks? env nested name state).toList
  | fuel + 1, state => do
    let asked := (stepAsks? env nested name state).toList
    match ← (step env nested state).run with
    | .error _ => return asked
    | .ok (.done last) => return asked ++ (restAsks? env nested name last).toList
    | .ok (.more next) => return asked ++ (← segmentsFrom env nested name fuel next)

/-- The texts that a scan gives to the language with a name, in order. -/
def segments (env : Env) (nested : Nested) (name : String) (frames : List Frame) :
    Traced (List Segment) :=
  segmentsFrom env nested name env.fuel (State.restore env frames)

/-- The modes that the language with a name hands on after a text, unless it fails. -/
def Nested.handsOn (nested : Nested) (name : String) (segment : Segment) : Option (List Frame) :=
  ((nested.highlight name segment.text segment.frames).run.run default).1.toOption.map (·.frames)

/-- What an embedded language is asked for goes on in the modes that were left, and leaves those
that it hands on. -/
def Continues (handsOn : Segment → Option (List Frame)) (frames frames' : List Frame) :
    Option Segment → Prop
  | none => frames' = frames
  | some segment => segment.frames = frames ∧ handsOn segment = some frames'

/-- Texts that go on one in the modes of the other, up to one that fails. -/
def Chained (handsOn : Segment → Option (List Frame)) : List Frame → List Segment → Prop
  | _, [] => True
  | frames, segment :: segments => segment.frames = frames ∧
    match handsOn segment with
    | some frames' => Chained handsOn frames' segments
    | none => segments = []

variable {env : Env} {nested : Nested} {name : String} {found : RuleMatch} {state state' : State}
  {before after : Trace} {handsOn : Segment → Option (List Frame)} {frames frames' : List Frame}

/-! ## Chains -/

namespace Chained

theorem cons_of_continues {asked : Option Segment} {segments : List Segment}
    (hasked : Continues handsOn frames frames' asked) (h : Chained handsOn frames' segments) :
    Chained handsOn frames (asked.toList ++ segments) := by
  cases asked with
  | none =>
    cases hasked
    exact h
  | some segment =>
    obtain ⟨hframes, hleft⟩ := hasked
    refine ⟨hframes, ?_⟩
    rw [hleft]
    exact h

theorem of_last {asked : Option Segment} (h : ∀ segment ∈ asked, segment.frames = frames) :
    Chained handsOn frames asked.toList := by
  cases asked with
  | none => trivial
  | some segment =>
    refine ⟨h segment rfl, ?_⟩
    split
    · trivial
    · rfl

/-- The first text of a chain goes on in the modes that the chain starts from. -/
theorem first {segments : List Segment} {segment : Segment} (h : Chained handsOn frames segments)
    (hfirst : segments[0]? = some segment) : segment.frames = frames := by
  cases segments with
  | nil => cases hfirst
  | cons other segments =>
    cases hfirst
    exact h.1

/-- Every further text of a chain goes on in the modes that the text before it has handed on. -/
theorem next {segments : List Segment} {count : Nat} {segment following : Segment}
    (h : Chained handsOn frames segments) (hsegment : segments[count]? = some segment)
    (hfollowing : segments[count + 1]? = some following) :
    handsOn segment = some following.frames := by
  induction segments generalizing frames count with
  | nil => cases hsegment
  | cons other segments ih =>
    obtain ⟨_, hrest⟩ := h
    rw [List.getElem?_cons_succ] at hfollowing
    cases hleft : handsOn other with
    | none =>
      rw [hleft] at hrest
      rw [hrest] at hfollowing
      cases hfollowing
    | some frames' =>
      rw [hleft] at hrest
      cases count with
      | zero =>
        cases hsegment
        rw [hleft, hrest.first hfollowing]
      | succ count => exact ih hrest hsegment hfollowing

/-- What is kept from text to text holds where each of them starts. -/
theorem holds {β : Type} {P : List Frame → β → Prop} {f : β → Segment → β}
    {segments : List Segment} {b : β} (h : Chained handsOn frames segments) (hstart : P frames b)
    (hstep : ∀ segment b frames', P segment.frames b → handsOn segment = some frames' →
      P frames' (f b segment)) {count : Nat} {segment : Segment}
    (hsegment : segments[count]? = some segment) :
    P segment.frames ((segments.take count).foldl f b) := by
  induction segments generalizing frames b count with
  | nil => cases hsegment
  | cons other segments ih =>
    obtain ⟨rfl, hrest⟩ := h
    cases count with
    | zero =>
      cases hsegment
      exact hstart
    | succ count =>
      rw [List.getElem?_cons_succ] at hsegment
      cases hleft : handsOn other with
      | none =>
        rw [hleft] at hrest
        rw [hrest] at hsegment
        cases hsegment
      | some frames' =>
        rw [hleft] at hrest
        exact ih hrest (hstep _ _ _ hstart hleft) hsegment

end Chained

/-! ## What an embedded language is asked for -/

theorem asks?_frames {segment : Segment} (h : state.asks? env nested name = some segment) :
    segment.frames = state.left name := by
  unfold State.asks? at h
  split at h
  · cases h
    rfl
  · cases h

theorem lookup_continued (name other : String) (frames : List Frame)
    (continuations : List (String × List Frame)) :
    ((other, frames) :: continuations.filter (·.1 != other)).lookup name =
      if name = other then some frames else continuations.lookup name := by
  by_cases hname : name = other
  · subst hname
    rw [if_pos rfl, List.lookup_cons_self]
  · have hkept : (continuations.filter (·.1 != other)).lookup name = continuations.lookup name := by
      induction continuations with
      | nil => rfl
      | cons entry continuations ih =>
        obtain ⟨key, kept⟩ := entry
        by_cases hkey : key = other
        · subst hkey
          simp [List.lookup_cons, beq_eq_false_iff_ne.mpr hname, ih]
        · simp [List.lookup_cons, hkey, ih]
    rw [if_neg hname, List.lookup_cons, beq_eq_false_iff_ne.mpr hname]
    exact hkept

/-- What a language hands on stems from a result. -/
theorem returns_of_handsOn {segment : Segment} (h : nested.handsOn name segment = some frames) :
    ∃ result after, Returns (nested.highlight name segment.text segment.frames) default result
      after ∧ result.frames = frames := by
  unfold Nested.handsOn at h
  unfold Returns Gives
  generalize (nested.highlight name segment.text segment.frames).run.run default = given at h ⊢
  obtain ⟨outcome, after⟩ := given
  cases outcome with
  | error fault => cases h
  | ok result =>
    cases h
    exact ⟨result, after, rfl, rfl⟩

section

variable (hnested : nested.IsSteady)
include hnested

/-- What a language hands on does not depend on what has happened before. -/
theorem handsOn_of_returns {text : String} {result : Highlighted}
    (h : Returns (nested.highlight name text frames) before result after) :
    nested.handsOn name ⟨text, frames⟩ = some result.frames := by
  have hagree := hnested.highlight name text frames frames rfl default before
  rw [show _ = _ from h] at hagree
  unfold Nested.handsOn
  generalize (nested.highlight name text frames).run.run default = first at hagree ⊢
  obtain ⟨outcome, between⟩ := first
  cases hagree with
  | ok hsame => exact congrArg some hsame.frames
  | excused hlenient => cases hlenient

/-- A flush leaves the embedded language in the modes that it hands on. -/
theorem flush_continues (h : Returns (flush env nested state) before state' after) :
    Continues (nested.handsOn name) (state.left name) (state'.left name)
      (state.asks? env nested name) := by
  have htop : ({ state with buffer := "" } : State).top env = state.top env := rfl
  unfold State.asks?
  simp only [flush, htop] at h
  cases hsub : (state.top env).subLanguage with
  | none =>
    rw [hsub] at h
    obtain ⟨rfl, -⟩ := returns_pure_iff.mp h
    rw [if_neg (by simp)]
    exact congrArg (fun continuations => (continuations.lookup name).getD [])
      (Keeps.markKeywords env _ _).continuations
  | some language =>
    rw [hsub] at h
    simp only [embed] at h
    split at h
    · next hempty =>
      obtain ⟨rfl, -⟩ := returns_pure_iff.mp h
      rw [if_neg (by simp [hempty])]
      rfl
    · next hempty =>
      cases language with
      | candidates names =>
        obtain ⟨result, _, _, hpure⟩ := returns_bind_iff.mp h
        obtain ⟨rfl, -⟩ := returns_pure_iff.mp hpure
        rw [if_neg (by simp)]
        rfl
      | named other =>
        simp only at h
        split at h
        · next hunknown =>
          obtain ⟨_, _, _, hpure⟩ := returns_bind_iff.mp h
          obtain ⟨rfl, -⟩ := returns_pure_iff.mp hpure
          rw [if_neg ?_]
          · rfl
          · rintro ⟨heq, hknown, -⟩
            cases heq
            simp [hknown] at hunknown
        · next hknown =>
          obtain ⟨result, _, hresult, hpure⟩ := returns_bind_iff.mp h
          obtain ⟨rfl, -⟩ := returns_pure_iff.mp hpure
          have hleft := lookup_continued name other result.frames state.continuations
          by_cases hname : name = other
          · subst hname
            rw [if_pos ⟨rfl, by simpa using hknown, by simpa using hempty⟩]
            refine ⟨rfl, (handsOn_of_returns hnested hresult).trans ?_⟩
            rw [if_pos rfl] at hleft
            exact congrArg some (congrArg (·.getD []) hleft).symm
          · rw [if_neg hname] at hleft
            rw [if_neg (fun h => hname (by cases h.1; rfl))]
            exact congrArg (·.getD []) hleft

theorem Readies.continues {input : Option State} {ready : State}
    (h : Readies env nested state ready input) :
    Continues (nested.handsOn name) (state.left name) (ready.left name)
      (input.bind (State.asks? env nested name)) := by
  have hkeeps : ∀ {state state' : State}, Keeps state state' → state'.left name = state.left name :=
    fun h => by rw [State.left, State.left, h.continuations]
  cases h with
  | kept h => exact hkeeps h
  | @flushed input flushed _ _ hinput hflush hready =>
    have hcontinues := @flush_continues env nested name input flushed _ _ hnested hflush
    rw [hkeeps hinput] at hcontinues
    rw [hkeeps hready]
    exact hcontinues

end

theorem goOn_left (found : RuleMatch) (next : Option Nat) :
    (goOn env found next state).left name = state.left name := by
  cases next with
  | none => rfl
  | some number =>
    have hkeeps := enter_keeps env number found {} state
    rw [goOn, State.left, hkeeps.continuations, State.left]

/-- What modes are active says which text is flushed at an end match. -/
theorem endInput_asks {frames : List Frame} (hmarks : marks frames = marks state.frames) :
    (endInput env found { state with frames := frames }).bind (State.asks? env nested name) =
      (endInput env found state).bind (State.asks? env nested name) := by
  have htop := @top_congr env state frames (modes_of_marks hmarks)
  have hasks : ∀ buffer,
      State.asks? env nested name { state with frames := frames, buffer := buffer } =
        State.asks? env nested name { state with buffer := buffer } := by
    intro buffer
    have hsame : ({ state with frames := frames, buffer := buffer } : State).top env =
      ({ state with buffer := buffer } : State).top env := htop
    simp only [State.asks?, hsame]
    rfl
  simp only [endInput, htop]
  cases (state.top env).endScope with
  | some scope => exact hasks state.buffer
  | none =>
    simp only
    split
    · rfl
    · split
      · exact hasks (state.buffer ++ env.lexeme found)
      · exact hasks state.buffer

theorem Moved.continues {move : Move} (hnested : nested.IsSteady)
    (h : Moved env nested found state move state') :
    Continues (nested.handsOn name) (state.left name) (state'.left name)
      ((flushed? env found state move).bind (State.asks? env nested name)) := by
  cases h with
  | stay h =>
    change state'.left name = state.left name
    rw [State.left, State.left, h.continuations]
  | @enter number data ready hkind hready =>
    have hkeeps := enter_keeps env number found data ready
    have hleft : (Scan.enter env number found data ready).left name = ready.left name := by
      rw [State.left, hkeeps.continuations, State.left]
    rw [hleft]
    exact hready.continues hnested
  | @leave count frames ready hkind hmarks hpositive hle hready =>
    have hcontinues := @Readies.continues _ _ name _ hnested _ _ hready
    rw [endInput_asks hmarks] at hcontinues
    have hpopped : (ready.popFrames env count).left name = ready.left name := by
      rw [State.left, continuations_popFrames, State.left]
    rw [goOn_left, hpopped]
    exact hcontinues

/-- Matches are handled only while there have not been too many iterations. -/
theorem handle_not_runaway {advance : Nat}
    (h : Returns (handle env nested found state) before (state', advance) after) :
    isRunaway env found.index state = false := by
  simp only [handle] at h
  split at h
  · exact absurd h not_returns_throw_bind
  · next hwithin => exact Bool.not_eq_true _ ▸ hwithin

/-- A step leaves the embedded language in the modes that it hands on. -/
theorem step_continues {progress : Progress} (hnested : nested.IsSteady)
    (h : Returns (step env nested state) before progress after) :
    Continues (nested.handsOn name) (state.left name) (progress.last.left name)
      (stepAsks? env nested name state) := by
  unfold stepAsks?
  rcases step_cases h with ⟨⟨cursor, hfind⟩, rfl⟩ |
    ⟨found, cursor, state', advance, hfind, hhandle, hlast⟩
  · rw [hfind]
    rfl
  · have hcontinues := @Moved.continues _ _ name _ _ _ _ hnested (handle_moved hhandle)
    rw [hfind, hlast]
    simp only [handle_not_runaway hhandle, Bool.false_eq_true, if_false]
    exact hcontinues

theorem flushed?_left {move : Move} {input : State}
    (h : flushed? env found state move = some input) : input.left name = state.left name := by
  cases move with
  | stay => cases h
  | enter number =>
    simp only [flushed?, beginInput] at h
    split at h
    · cases h
    · cases h
      split <;> rfl
  | leave count =>
    simp only [flushed?, endInput] at h
    split at h
    · cases h
      rfl
    · split at h
      · cases h
      · cases h
        split <;> rfl

theorem stepAsks?_frames {segment : Segment} (h : stepAsks? env nested name state = some segment) :
    segment.frames = state.left name := by
  unfold stepAsks? at h
  split at h
  · simp only at h
    split at h
    · cases h
    · obtain ⟨input, hinput, hasks⟩ := Option.bind_eq_some_iff.mp h
      rw [asks?_frames hasks, flushed?_left hinput]
      rfl
  · cases h

/-- The texts that a scan gives to an embedded language go on one in the modes of the other. -/
theorem segmentsFrom_chained (hnested : nested.IsSteady) {fuel : Nat} {segments : List Segment}
    (h : Gives (segmentsFrom env nested name fuel state) before segments after) :
    Chained (nested.handsOn name) (state.left name) segments := by
  have hrest : ∀ state : State, Chained (nested.handsOn name) (state.left name)
      (restAsks? env nested name state).toList := by
    intro state
    refine .of_last fun segment hsegment => ?_
    have hasks : (state.addToBuffer (env.slice state.index env.text.size)).asks? env nested name =
      some segment := hsegment
    have hframes := asks?_frames hasks
    exact hframes
  induction fuel generalizing state before segments after with
  | zero =>
    obtain ⟨rfl, -⟩ := gives_pure_iff.mp h
    exact hrest state
  | succ fuel ih =>
    obtain ⟨outcome, between, hstep, h⟩ := gives_bind_iff.mp h
    split at h
    · obtain ⟨rfl, -⟩ := gives_pure_iff.mp h
      exact .of_last fun segment hsegment => stepAsks?_frames hsegment
    · next last =>
      obtain ⟨rfl, -⟩ := gives_pure_iff.mp h
      have hcontinues := @step_continues _ _ name _ _ _ _ hnested hstep
      exact .cons_of_continues hcontinues (hrest last)
    · next next =>
      obtain ⟨segments, _, hsegments, hpure⟩ := gives_bind_iff.mp h
      obtain ⟨rfl, -⟩ := gives_pure_iff.mp hpure
      have hcontinues := @step_continues _ _ name _ _ _ _ hnested hstep
      exact .cons_of_continues hcontinues (@ih next _ _ _ hsegments)

theorem segments_chained (hnested : nested.IsSteady) (env : Env) (name : String)
    (frames : List Frame) (before : Trace) :
    Chained (nested.handsOn name) [] ((segments env nested name frames).run before).1 := by
  have hstart : (State.restore env frames).left name = [] := by
    unfold State.left State.restore
    split <;> rfl
  rw [← hstart]
  exact segmentsFrom_chained hnested rfl

end Highlighter.Scan
