import Highlighter.Proofs.Scan.Locality

/-!
# Texts embedded under several names

A scan may embed languages under several names, and the texts that it gives to them alternate. They
are listed here in the order in which they are given, each with the name that its mode has for the
language. The texts under one name are those listed for this name before, and go on one in the modes
of the other, whatever is embedded under other names between them.
-/

namespace Highlighter.Scan

/-- A text that a scan gives to an embedded language, with the name that it has for the language. -/
structure NamedSegment where
  name : String
  segment : Segment
  deriving DecidableEq

/-- The text, when it is embedded under a name. -/
def NamedSegment.under (name : String) (named : NamedSegment) : Option Segment :=
  if named.name = name then some named.segment else none

/-- The last of some texts that is embedded under one of the names that are asked for. -/
def previous? (isAsked : String → Bool) (earlier : List NamedSegment) : Option NamedSegment :=
  (earlier.filter fun named => isAsked named.name).getLast?

/-- What flushing the buffer gives to an embedded language. -/
def State.asksNamed? (env : Env) (nested : Nested) (state : State) : Option NamedSegment :=
  match (state.top env).subLanguage with
  | some (.named name) => (state.asks? env nested name).map fun segment => ⟨name, segment⟩
  | _ => none

/-- The state whose buffer a step flushes. -/
def stepInput? (env : Env) (state : State) : Option State :=
  match (state.top env).rules.find env.text state.index state.begun.cursor with
  | .ok (some found, cursor) =>
    let reached := state.reached env found cursor
    if isRunaway env found.index reached then none
    else flushed? env found (reached.recorded found) (moveOf env found reached)
  | _ => none

/-- What a step gives to an embedded language. -/
def stepAsksNamed? (env : Env) (nested : Nested) (state : State) : Option NamedSegment :=
  (stepInput? env state).bind (State.asksNamed? env nested)

/-- What flushing the rest of the text gives to an embedded language. -/
def restAsksNamed? (env : Env) (nested : Nested) (state : State) : Option NamedSegment :=
  (state.addToBuffer (env.slice state.index env.text.size)).asksNamed? env nested

/-- The texts that a loop of steps, and the flush of the rest after it, give to embedded
languages. -/
def namedSegmentsFrom (env : Env) (nested : Nested) :
    (fuel : Nat) → State → Traced (List NamedSegment)
  | 0, state => return (restAsksNamed? env nested state).toList
  | fuel + 1, state => do
    let asked := (stepAsksNamed? env nested state).toList
    match ← (step env nested state).run with
    | .error _ => return asked
    | .ok (.done last) => return asked ++ (restAsksNamed? env nested last).toList
    | .ok (.more next) => return asked ++ (← namedSegmentsFrom env nested fuel next)

/-- The texts that a scan gives to embedded languages, in order. -/
def namedSegments (env : Env) (nested : Nested) (frames : List Frame) :
    Traced (List NamedSegment) :=
  namedSegmentsFrom env nested env.fuel (State.restore env frames)

variable {env : Env} {nested : Nested} {name : String} {state : State} {before after : Trace}
  {handsOn : Segment → Option (List Frame)} {frames : List Frame} {segment : Segment}

/-! ## The texts under one name -/

theorem asks?_eq (env : Env) (nested : Nested) (name : String) (state : State) :
    state.asks? env nested name = (state.asksNamed? env nested).bind (·.under name) := by
  unfold State.asksNamed?
  split
  · next other hother =>
    by_cases hname : other = name
    · subst hname
      simp [NamedSegment.under, Option.bind_map]
    · have hnone : state.asks? env nested name = none := by
        unfold State.asks?
        exact if_neg fun h => hname (by simpa [hother] using h.1)
      simp [NamedSegment.under, hname, hnone, Option.bind_map]
  · next hother =>
    unfold State.asks?
    exact if_neg fun h => hother name h.1

theorem stepAsks?_eq (env : Env) (nested : Nested) (name : String) (state : State) :
    stepAsks? env nested name state = (stepAsksNamed? env nested state).bind (·.under name) := by
  have hinput : stepAsks? env nested name state =
      (stepInput? env state).bind (State.asks? env nested name) := by
    unfold stepAsks? stepInput?
    generalize (state.top env).rules.find env.text state.index state.begun.cursor = outcome
    rcases outcome with error | ⟨_ | found, cursor⟩
    · rfl
    · rfl
    · dsimp only
      split
      · rfl
      · rfl
  rw [hinput, stepAsksNamed?, Option.bind_assoc]
  exact congrArg _ (funext (asks?_eq env nested name))

/-- The texts under a name are those that are listed with this name. -/
theorem segmentsFrom_gives {fuel : Nat} {named : List NamedSegment}
    (h : Gives (namedSegmentsFrom env nested fuel state) before named after) (name : String) :
    Gives (segmentsFrom env nested name fuel state) before (named.filterMap (·.under name))
      after := by
  have hlisted : ∀ asked : Option NamedSegment,
      (asked.bind (·.under name)).toList = asked.toList.filterMap (·.under name) := by
    intro asked
    cases asked with
    | none => rfl
    | some asked =>
      rw [Option.bind_some, Option.toList_some, List.filterMap_cons, List.filterMap_nil]
      cases asked.under name with
      | none => rfl
      | some segment => rfl
  have hrest : ∀ state : State, (restAsks? env nested name state).toList =
      (restAsksNamed? env nested state).toList.filterMap (·.under name) := by
    intro state
    rw [restAsks?, asks?_eq, hlisted]
    rfl
  have hstep : ∀ state : State, (stepAsks? env nested name state).toList =
      (stepAsksNamed? env nested state).toList.filterMap (·.under name) := by
    intro state
    rw [stepAsks?_eq, hlisted]
  induction fuel generalizing state before named after with
  | zero =>
    obtain ⟨rfl, rfl⟩ := gives_pure_iff.mp h
    exact gives_pure_iff.mpr ⟨hrest state, rfl⟩
  | succ fuel ih =>
    obtain ⟨outcome, between, hfirst, h⟩ := gives_bind_iff.mp h
    refine gives_bind_iff.mpr ⟨outcome, between, hfirst, ?_⟩
    split at h
    · obtain ⟨rfl, rfl⟩ := gives_pure_iff.mp h
      exact gives_pure_iff.mpr ⟨hstep state, rfl⟩
    · next last =>
      obtain ⟨rfl, rfl⟩ := gives_pure_iff.mp h
      refine gives_pure_iff.mpr ⟨?_, rfl⟩
      rw [List.filterMap_append, hstep, hrest]
    · next next =>
      obtain ⟨others, ended, hothers, hpure⟩ := gives_bind_iff.mp h
      obtain ⟨rfl, rfl⟩ := gives_pure_iff.mp hpure
      refine gives_bind_iff.mpr ⟨_, ended, ih hothers, gives_pure_iff.mpr ⟨?_, rfl⟩⟩
      rw [List.filterMap_append, hstep]

theorem segments_eq (env : Env) (nested : Nested) (name : String) (frames : List Frame)
    (before : Trace) :
    ((segments env nested name frames).run before).1 =
      ((namedSegments env nested frames).run before).1.filterMap (·.under name) :=
  congrArg Prod.fst (segmentsFrom_gives rfl name)

/-! ## Where a text goes on -/

/-- A text of a chain goes on in the modes that the text before it has handed on, or where the chain
starts. -/
theorem Chained.continues {earlier later : List Segment}
    (h : Chained handsOn frames (earlier ++ segment :: later)) :
    match earlier.getLast? with
    | none => segment.frames = frames
    | some previous => handsOn previous = some segment.frames := by
  have hsegment : (earlier ++ segment :: later)[earlier.length]? = some segment := by simp
  rcases List.eq_nil_or_concat earlier with rfl | ⟨others, previous, rfl⟩
  · exact h.first hsegment
  · rw [List.concat_eq_append, List.getLast?_concat]
    have hprevious : (others ++ [previous] ++ segment :: later)[others.length]? =
        some previous := by simp
    rw [List.concat_eq_append] at h hsegment
    rw [List.length_append, List.length_singleton] at hsegment
    exact h.next hprevious hsegment

theorem filterMap_under (name : String) (named : List NamedSegment) :
    named.filterMap (·.under name) =
      (named.filter fun asked => asked.name = name).map (·.segment) := by
  induction named with
  | nil => rfl
  | cons asked named ih =>
    by_cases hname : asked.name = name
    · have hunder : asked.under name = some asked.segment := if_pos hname
      rw [List.filterMap_cons, hunder, List.filter_cons_of_pos (by simpa using hname),
        List.map_cons, ih]
    · have hunder : asked.under name = none := if_neg hname
      rw [List.filterMap_cons, hunder, List.filter_cons_of_neg (by simpa using hname), ih]

/-- Every text goes on in the modes that the text before it under the same name has handed on, or
from nothing. -/
theorem namedSegments_continue (hnested : nested.IsSteady) {earlier later : List NamedSegment}
    {current : NamedSegment}
    (h : ((namedSegments env nested frames).run before).1 = earlier ++ current :: later) :
    match previous? (· = current.name) earlier with
    | none => current.segment.frames = []
    | some previous =>
      previous.name = current.name ∧
        nested.handsOn previous.name previous.segment = some current.segment.frames := by
  have hchained := segments_chained hnested env current.name frames before
  have hcurrent : current.under current.name = some current.segment := if_pos rfl
  rw [segments_eq, h, List.filterMap_append, List.filterMap_cons, hcurrent, filterMap_under] at hchained
  have hcontinues := hchained.continues
  rw [List.getLast?_map] at hcontinues
  unfold previous?
  cases hlast : (earlier.filter fun named => named.name = current.name).getLast? with
  | none =>
    rw [hlast] at hcontinues
    exact hcontinues
  | some previous =>
    have hname := List.of_mem_filter (List.mem_of_getLast? hlast)
    rw [hlast] at hcontinues
    have hsame : previous.name = current.name := of_decide_eq_true hname
    exact ⟨hsame, hsame ▸ hcontinues⟩

/-! ## The names -/

/-- A mode has a name for a language that is known. -/
def Names (env : Env) (nested : Nested) (name : String) : Prop :=
  nested.isKnown name = true ∧ ∃ number, (env.lexer.mode number).subLanguage = some (.named name)

theorem names_of_asksNamed? {named : NamedSegment}
    (h : state.asksNamed? env nested = some named) : Names env nested named.name := by
  unfold State.asksNamed? at h
  split at h
  · next name hname =>
    obtain ⟨segment, hasks, rfl⟩ := Option.map_eq_some_iff.mp h
    unfold State.asks? at hasks
    split at hasks
    · next hknown => exact ⟨hknown.2.1, _, hname⟩
    · cases hasks
  · cases h

/-- Texts are embedded under names that modes have for languages that are known. -/
theorem names_of_mem {fuel : Nat} {named : List NamedSegment}
    (h : Gives (namedSegmentsFrom env nested fuel state) before named after) :
    ∀ asked ∈ named, Names env nested asked.name := by
  have hrest : ∀ state : State, ∀ asked ∈ (restAsksNamed? env nested state).toList,
      Names env nested asked.name :=
    fun state asked hasked => names_of_asksNamed? (Option.mem_toList.mp hasked)
  have hstep : ∀ state : State, ∀ asked ∈ (stepAsksNamed? env nested state).toList,
      Names env nested asked.name := by
    intro state asked hasked
    obtain ⟨input, _, hasks⟩ := Option.bind_eq_some_iff.mp (Option.mem_toList.mp hasked)
    exact names_of_asksNamed? hasks
  induction fuel generalizing state before named after with
  | zero =>
    obtain ⟨rfl, -⟩ := gives_pure_iff.mp h
    exact hrest state
  | succ fuel ih =>
    obtain ⟨outcome, between, -, h⟩ := gives_bind_iff.mp h
    split at h
    · obtain ⟨rfl, -⟩ := gives_pure_iff.mp h
      exact hstep state
    · next last =>
      obtain ⟨rfl, -⟩ := gives_pure_iff.mp h
      exact List.forall_mem_append.mpr ⟨hstep state, hrest last⟩
    · next next =>
      obtain ⟨others, ended, hothers, hpure⟩ := gives_bind_iff.mp h
      obtain ⟨rfl, -⟩ := gives_pure_iff.mp hpure
      exact List.forall_mem_append.mpr ⟨hstep state, ih hothers⟩

end Highlighter.Scan
