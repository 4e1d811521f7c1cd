import Highlighter.Proofs.Scan.Segments

/-!
# What adds to the relevance of a scan

Modes that open, words that are keywords, and results of embedded languages add to the relevance of
a scan, at different times: a word when the text around it leaves the buffer, an embedded result
when it is there, and a mode when it is left, however that happens. The tally of a scan lists them
all in order. While a scan goes on, its relevance and what is owed for the modes that are still
active come to what the tally is worth.
-/

namespace Highlighter.Scan

/-- A word that is found in the table of keywords. -/
structure Hit where
  word : String
  entry : KeywordEntry

/-- What adds to the relevance of a scan: the modes that open, the keywords that are hit, and the
results of embedded languages with the modes that they stand in. -/
structure Tally where
  opened : List Nat := []
  hits : List Hit := []
  embedded : List (LexerMode × Highlighted) := []

namespace Tally

/-- A tally that goes on with another one. -/
def append (tally later : Tally) : Tally where
  opened := tally.opened ++ later.opened
  hits := tally.hits ++ later.hits
  embedded := tally.embedded ++ later.embedded

instance : Append Tally := ⟨append⟩

/-- The hits that count, after earlier ones: each is one of the first `most` hits of its word. -/
def counted (most : Nat) (earlier : List Hit) : List Hit → List Hit
  | [] => []
  | hit :: hits =>
    let ordinal := earlier.countP (·.word = hit.word) + 1
    (if ordinal ≤ most then [hit] else []) ++ counted most (earlier ++ [hit]) hits

/-- What a tally is worth: the scores of the modes, the relevance of the hits that count, and the
relevance of the results in modes that have a relevance themselves. -/
def worth (env : Env) (tally : Tally) : Nat :=
  (tally.opened.map fun number => (env.lexer.mode number).score).sum +
    ((counted env.settings.maxKeywordHits [] tally.hits).map (·.entry.relevance)).sum +
    ((tally.embedded.filter fun result => 0 < result.1.relevance).map (·.2.relevance)).sum

end Tally

/-- What is owed for active modes: those that have not been credited score when they are left. -/
def Env.owed (env : Env) (frames : List Frame) : Nat :=
  ((frames.filter fun frame => !frame.isCredited).map fun frame =>
    (env.lexer.mode frame.mode).score).sum

/-! ## The tally of a scan -/

/-- The hit that a stretch of a text is, if it is one. -/
def hitAt? (env : Env) (keywords : LexerKeywords) (text : Array Char) (span : Regex.Span) :
    Option Hit :=
  let word := if env.lexer.ignoreCase then Text.lower (span.text text) else span.text text
  (keywords.table.get? word).map (⟨word, ·⟩)

/-- The keywords of the innermost mode that are hit in a text. -/
def State.hitsIn (env : Env) (text : String) (state : State) : List Hit :=
  match (state.top env).keywords with
  | none => []
  | some keywords =>
    (keywords.regex.findAll text.toList.toArray).filterMap
      (hitAt? env keywords text.toList.toArray)

/-- The keywords that are hit in the segments of a match that have no scope. -/
def State.hitsInSegments (env : Env) (found : RuleMatch) (segments : List SegmentScope)
    (state : State) : List Hit :=
  segments.flatMap fun segment =>
    match found.groups[segment.group]?.join, segment.scope with
    | some span, none => state.hitsIn env (span.text env.text)
    | _, _ => []

/-- The keywords that are hit in a match, where the edge of a mode has segments. -/
def State.hitsAtEdge (env : Env) (found : RuleMatch) (edge : Option EdgeScope) (state : State) :
    List Hit :=
  match edge with
  | some (.segments segments) => state.hitsInSegments env found segments
  | _ => []

/-- What a text becomes in an embedded language. -/
def State.embedded? (nested : Nested) (language : SubLanguage) (text : String) (state : State) :
    Option Highlighted :=
  if text.isEmpty then none
  else match language with
    | .named name =>
      if nested.isKnown name then
        ((nested.highlight name text (state.left name)).run.run default).1.toOption
      else none
    | .candidates names =>
      some ((nested.detect text (if names.isEmpty then none else some names)).run default).1

/-- The tally of a flush of the buffer. -/
def State.flushTally (env : Env) (nested : Nested) (state : State) : Tally :=
  match (state.top env).subLanguage with
  | none => { hits := state.hitsIn env state.buffer }
  | some language =>
    { embedded := (state.embedded? nested language state.buffer).toList.map (state.top env, ·) }

/-- The tally of a flush, if there is one. -/
def inputTally (env : Env) (nested : Nested) (input : Option State) : Tally :=
  input.elim {} (State.flushTally env nested)

/-- The tally of entering a mode. -/
def enterTally (env : Env) (found : RuleMatch) (number : Nat) (state : State) : Tally :=
  ({ hits := state.hitsAtEdge env found (env.lexer.mode number).beginScope } : Tally) ++
    ({ opened := [number] } : Tally)

/-- The tally of the move that a match makes. -/
def moveTally (env : Env) (nested : Nested) (found : RuleMatch) (state : State) : Move → Tally
  | .stay => {}
  | .enter number =>
    inputTally env nested (beginInput env found number state) ++ enterTally env found number state
  | .leave count =>
    let left := { state with frames := state.frames.drop count }
    inputTally env nested (endInput env found state) ++
      { hits := state.hitsAtEdge env found (state.top env).endScope } ++
      (outermost env state.frames count).next.elim {} (enterTally env found · left)

/-- The tally of a step. -/
def stepTally (env : Env) (nested : Nested) (state : State) : Tally :=
  match (state.top env).rules.find env.text state.index state.begun.cursor with
  | .ok (some found, cursor) =>
    let reached := state.reached env found cursor
    moveTally env nested found (reached.recorded found) (moveOf env found reached)
  | _ => {}

/-- The tally of the flush of the rest of the text. -/
def restTally (env : Env) (nested : Nested) (state : State) : Tally :=
  (state.addToBuffer (env.slice state.index env.text.size)).flushTally env nested

/-- The tally of a loop of steps, and of the flush of the rest after it. -/
def tallyFrom (env : Env) (nested : Nested) : (fuel : Nat) → State → Traced Tally
  | 0, state => return restTally env nested state
  | fuel + 1, state => do
    let tally := stepTally env nested state
    match ← (step env nested state).run with
    | .error _ => return tally
    | .ok (.done last) => return tally ++ restTally env nested last
    | .ok (.more next) => return tally ++ (← tallyFrom env nested fuel next)

/-- The tally of a scan. -/
def tally (env : Env) (nested : Nested) (frames : List Frame) : Traced Tally :=
  tallyFrom env nested env.fuel (State.restore env frames)

variable {env : Env} {nested : Nested} {found : RuleMatch} {state state' : State} {tally : Tally}
  {before after : Trace} {restored number : Nat} {frames : List Frame}

namespace Tally

theorem append_assoc (tally later latest : Tally) :
    tally ++ (later ++ latest) = tally ++ later ++ latest := by
  change append _ (append _ _) = append (append _ _) _
  simp only [append, List.append_assoc]

theorem append_empty (tally : Tally) : tally ++ ({} : Tally) = tally := by
  change append _ _ = _
  simp only [append, List.append_nil]

theorem empty_append (tally : Tally) : ({} : Tally) ++ tally = tally := rfl

theorem counted_append (most : Nat) (earlier hits later : List Hit) :
    counted most earlier (hits ++ later) =
      counted most earlier hits ++ counted most (earlier ++ hits) later := by
  induction hits generalizing earlier with
  | nil => rw [List.nil_append, counted, List.nil_append, List.append_nil]
  | cons hit hits ih =>
    rw [List.cons_append, counted, ih, counted, List.append_assoc, List.append_assoc,
      List.singleton_append]

theorem worth_opened (env : Env) (tally : Tally) (number : Nat) :
    (tally ++ ({ opened := [number] } : Tally)).worth env =
      tally.worth env + (env.lexer.mode number).score := by
  change (append _ _).worth env = _
  simp only [worth, append, List.append_nil, List.map_append, List.sum_append, List.map_cons,
    List.map_nil, List.sum_cons, List.sum_nil]
  omega

theorem worth_hit (env : Env) (tally : Tally) (hit : Hit) :
    (tally ++ ({ hits := [hit] } : Tally)).worth env = tally.worth env +
      if tally.hits.countP (·.word = hit.word) + 1 ≤ env.settings.maxKeywordHits then
        hit.entry.relevance else 0 := by
  change (append _ _).worth env = _
  simp only [worth, append, List.append_nil, counted_append, List.nil_append, counted]
  split
  · simp only [List.map_append, List.sum_append, List.map_cons, List.map_nil, List.sum_cons,
      List.sum_nil]
    omega
  · simp only [List.append_nil]
    omega

theorem worth_embedded (env : Env) (tally : Tally) (mode : LexerMode) (result : Highlighted) :
    (tally ++ ({ embedded := [(mode, result)] } : Tally)).worth env = tally.worth env +
      if 0 < mode.relevance then result.relevance else 0 := by
  change (append _ _).worth env = _
  simp only [worth, append, List.append_nil, List.filter_append, List.map_append, List.sum_append]
  split
  · next hpositive =>
    rw [List.filter_cons_of_pos (by simpa using hpositive)]
    simp only [List.filter_nil, List.map_cons, List.map_nil, List.sum_cons, List.sum_nil]
    omega
  · next hnone =>
    rw [List.filter_cons_of_neg (by simpa using hnone)]
    simp only [List.filter_nil, List.map_nil, List.sum_nil]
    omega

end Tally

/-! ## What the tally looks at -/

theorem top_of_marks (h : marks state'.frames = marks state.frames) :
    state'.top env = state.top env := by
  have htop := @top_congr env state state'.frames (modes_of_marks h)
  exact htop

theorem hitsAtEdge_congr (h : state'.top env = state.top env) (found : RuleMatch)
    (edge : Option EdgeScope) :
    state'.hitsAtEdge env found edge = state.hitsAtEdge env found edge := by
  have hhits : ∀ text, state'.hitsIn env text = state.hitsIn env text := by
    intro text
    rw [State.hitsIn, h, State.hitsIn]
  unfold State.hitsAtEdge State.hitsInSegments
  simp only [hhits]

theorem enterTally_congr (h : state'.top env = state.top env) (found : RuleMatch) (number : Nat) :
    enterTally env found number state' = enterTally env found number state := by
  rw [enterTally, hitsAtEdge_congr h, enterTally]

/-- What modes are active decides on what is flushed at an end match. -/
theorem inputTally_endInput (h : marks frames = marks state.frames) :
    inputTally env nested (endInput env found { state with frames := frames }) =
      inputTally env nested (endInput env found state) := by
  have htop : ({ state with frames := frames } : State).top env = state.top env :=
    @top_of_marks env state { state with frames := frames } h
  have hflush : ∀ text,
      (({ state with frames := frames } : State).addToBuffer text).flushTally env nested =
        (state.addToBuffer text).flushTally env nested := by
    intro text
    have hsame : (({ state with frames := frames } : State).addToBuffer text).top env =
      (state.addToBuffer text).top env := htop
    simp only [State.flushTally, State.hitsIn, hsame]
    rfl
  have hkept := hflush ""
  rw [addToBuffer_empty, addToBuffer_empty] at hkept
  simp only [endInput, htop]
  cases (state.top env).endScope with
  | some scope => exact hkept
  | none =>
    simp only
    split
    · rfl
    · split
      · exact hflush (env.lexeme found)
      · exact hkept

/-! ## Keeping the tally -/

/-- The hits of a word have been counted, and the relevance and what is owed for the active modes
come to what was owed for the restored ones and to what the tally is worth. -/
structure State.Tallies (env : Env) (restored : Nat) (tally : Tally) (state : State) : Prop where
  hits : ∀ word, state.hits.getD word 0 = tally.hits.countP (·.word = word)
  relevance : state.relevance + env.owed state.frames = restored + tally.worth env

theorem owed_congr (h : marks frames = marks state.frames) :
    env.owed frames = env.owed state.frames := by
  have howed : ∀ frames, env.owed frames = ((marks frames).map fun mark =>
      if mark.2 then 0 else (env.lexer.mode mark.1).score).sum := by
    intro frames
    induction frames with
    | nil => rfl
    | cons frame frames ih =>
      rw [marks, List.map_cons, List.map_cons, List.sum_cons, ← marks, ← ih, Env.owed, Env.owed]
      cases hcredited : frame.isCredited <;> simp [Frame.mark, hcredited]
  rw [howed, howed, h]

theorem owed_cons (frame : Frame) (frames : List Frame) :
    env.owed (frame :: frames) =
      (if frame.isCredited then 0 else (env.lexer.mode frame.mode).score) + env.owed frames := by
  cases hcredited : frame.isCredited <;> simp [Env.owed, hcredited]


theorem append_hits (tally : Tally) (hits later : List Hit) :
    tally ++ ({ hits := hits ++ later } : Tally) =
      tally ++ ({ hits := hits } : Tally) ++ ({ hits := later } : Tally) := by
  rw [← Tally.append_assoc]
  rfl

namespace State.Tallies

theorem congr (h : state.Tallies env restored tally) (hhits : state'.hits = state.hits)
    (hrelevance : state'.relevance = state.relevance)
    (hmarks : marks state'.frames = marks state.frames) : state'.Tallies env restored tally where
  hits := by
    rw [hhits]
    exact h.hits
  relevance := by
    rw [hrelevance, owed_congr hmarks]
    exact h.relevance

theorem takeChar (h : state.Tallies env restored tally) (position : Nat) :
    (state.takeChar env position).Tallies env restored tally := by
  unfold State.takeChar
  split <;> exact ⟨h.hits, h.relevance⟩

theorem takeAsText (h : state.Tallies env restored tally) (found : RuleMatch) :
    (takeAsText env found state).1.Tallies env restored tally := by
  unfold Scan.takeAsText
  split
  · exact h.takeChar found.index
  · exact h.congr rfl rfl rfl

theorem markWord {marking : Marking} (h : marking.state.Tallies env restored tally)
    (keywords : LexerKeywords) (text : Array Char) (span : Regex.Span) :
    (markWord env keywords text marking span).state.Tallies env restored
      (tally ++ { hits := (hitAt? env keywords text span).toList }) := by
  simp only [Scan.markWord, hitAt?]
  generalize (if env.lexer.ignoreCase then Text.lower (span.text text) else span.text text) = word
  cases keywords.table.get? word with
  | none =>
    rw [Option.map_none, Option.toList_none, Tally.append_empty]
    exact h
  | some entry =>
    have hhit : ∀ tree : TokenTree, State.Tallies env restored
        (tally ++ { hits := [⟨word, entry⟩] }) { marking.state with
          tree := tree
          hits := marking.state.hits.insert word (marking.state.hits.getD word 0 + 1)
          relevance := if marking.state.hits.getD word 0 + 1 ≤ env.settings.maxKeywordHits then
            marking.state.relevance + entry.relevance else marking.state.relevance } := by
      intro tree
      refine ⟨fun other => ?_, ?_⟩
      · change _ = (tally.hits ++ [_]).countP _
        rw [Std.HashMap.getD_insert, List.countP_append, List.countP_singleton, ← h.hits]
        by_cases hword : word = other
        · subst hword
          simp
        · simp [hword]
      · have hrelevance := h.relevance
        rw [Tally.worth_hit, ← h.hits]
        split <;> simp only <;> omega
    simp only [Option.map_some, Option.toList_some]
    split
    · exact hhit _
    · exact hhit _

theorem markKeywords (h : state.Tallies env restored tally) (text : String) :
    (markKeywords env text state).Tallies env restored
      (tally ++ { hits := state.hitsIn env text }) := by
  unfold Scan.markKeywords State.hitsIn
  cases (state.top env).keywords with
  | none =>
    rw [Tally.append_empty]
    exact h.congr rfl rfl rfl
  | some keywords =>
    have hfold : ∀ (spans : List Regex.Span) (marking : Marking) (tally : Tally),
        marking.state.Tallies env restored tally →
        (spans.foldl (Scan.markWord env keywords text.toList.toArray) marking).state.Tallies env
          restored (tally ++
            { hits := spans.filterMap (hitAt? env keywords text.toList.toArray) }) := by
      intro spans
      induction spans with
      | nil =>
        intro marking tally h
        rw [List.filterMap_nil, Tally.append_empty]
        exact h
      | cons span spans ih =>
        intro marking tally h
        have hhits : (span :: spans).filterMap (hitAt? env keywords text.toList.toArray) =
            (hitAt? env keywords text.toList.toArray span).toList ++
              spans.filterMap (hitAt? env keywords text.toList.toArray) := by
          cases hhit : hitAt? env keywords text.toList.toArray span <;> simp [hhit]
        rw [hhits, append_hits]
        exact ih _ _ (h.markWord keywords text.toList.toArray span)
    have hmarked := hfold (keywords.regex.findAll text.toList.toArray) { state := state } tally h
    exact ⟨hmarked.hits, hmarked.relevance⟩

theorem addSegments (h : state.Tallies env restored tally) (found : RuleMatch)
    (segments : List SegmentScope) : (addSegments env found state segments).Tallies env restored
      (tally ++ { hits := state.hitsInSegments env found segments }) := by
  -- What is hit depends on the innermost mode only, and this stays the same.
  have hsegments : ∀ {current : State} {tally : Tally}, current.frames = state.frames →
      current.Tallies env restored tally → (Scan.addSegments env found current segments).Tallies env
        restored (tally ++ { hits := state.hitsInSegments env found segments }) := by
    induction segments with
    | nil =>
      intro current tally _ h
      rw [State.hitsInSegments, List.flatMap_nil, Tally.append_empty]
      exact h
    | cons segment segments ih =>
      intro current tally hframes h
      rw [State.hitsInSegments, List.flatMap_cons, append_hits, Scan.addSegments]
      cases found.groups[segment.group]?.join with
      | none =>
        simp only [Tally.append_empty]
        exact ih hframes h
      | some span =>
        cases segment.scope with
        | some scope =>
          simp only [Tally.append_empty]
          exact ih hframes (h.congr rfl rfl rfl)
        | none =>
          have hadds := markKeywords_adds env (span.text env.text) current
          have htop : current.top env = state.top env := by rw [State.top, State.top, hframes]
          have hmarked := h.markKeywords (span.text env.text)
          rw [State.hitsIn, htop] at hmarked
          exact ih (hadds.frames.trans hframes) hmarked
  exact hsegments rfl h

theorem scopeEnd (h : state.Tallies env restored tally) (found : RuleMatch) (mode : LexerMode) :
    (scopeEnd env found mode state).Tallies env restored
      (tally ++ { hits := state.hitsAtEdge env found mode.endScope }) := by
  unfold Scan.scopeEnd State.hitsAtEdge
  cases mode.endScope with
  | none =>
    simp only [Tally.append_empty]
    exact h
  | some scope =>
    cases scope with
    | whole scope =>
      simp only [Tally.append_empty]
      exact h.congr rfl rfl rfl
    | segments segments => exact h.addSegments found segments

/-- A mode that opens has not been credited. -/
theorem push (h : state.Tallies env restored tally) {data : FrameData}
    (hhits : state'.hits = state.hits) (hrelevance : state'.relevance = state.relevance)
    (hframes : state'.frames = { mode := number, data := data } :: state.frames) :
    state'.Tallies env restored (tally ++ { opened := [number] }) where
  hits word := by
    rw [hhits, h.hits word]
    exact congrArg _ (List.append_nil _).symm
  relevance := by
    have hworth := h.relevance
    rw [hrelevance, hframes, owed_cons, Tally.worth_opened]
    simp only [Bool.false_eq_true, if_false]
    omega

theorem enter (h : state.Tallies env restored tally) (found : RuleMatch) (number : Nat)
    (data : FrameData) : (enter env number found data state).Tallies env restored
      (tally ++ enterTally env found number state) := by
  rw [enterTally, Tally.append_assoc, enter_eq]
  unfold State.hitsAtEdge
  cases (env.lexer.mode number).beginScope with
  | none =>
    simp only [Tally.append_empty]
    exact h.push rfl rfl rfl
  | some scope =>
    cases scope with
    | whole scope =>
      simp only [Tally.append_empty]
      exact h.push rfl rfl rfl
    | segments segments =>
      have hopened : ({ state with tree := openScope env (env.lexer.mode number) state.tree } :
        State).Tallies env restored tally := h.congr rfl rfl rfl
      have hadds := addSegments_adds env found
        { state with tree := openScope env (env.lexer.mode number) state.tree } segments
      exact (hopened.addSegments found segments).push rfl rfl (by rw [hadds.frames])

theorem goOn (h : state.Tallies env restored tally) (found : RuleMatch) (next : Option Nat) :
    (goOn env found next state).Tallies env restored
      (tally ++ next.elim {} (enterTally env found · state)) := by
  cases next with
  | none =>
    rw [Option.elim_none, Tally.append_empty]
    exact h
  | some number => exact h.enter found number {}

/-- What is owed for a mode is paid when it is left. -/
theorem popFrame (h : state.Tallies env restored tally) :
    (state.popFrame env).Tallies env restored tally := by
  cases hframes : state.frames with
  | nil =>
    rw [State.popFrame, hframes]
    exact h
  | cons frame outer =>
    have hworth := h.relevance
    rw [hframes, owed_cons] at hworth
    rw [State.popFrame_eq hframes]
    exact ⟨h.hits, by simp only; omega⟩

theorem popFrames (h : state.Tallies env restored tally) (count : Nat) :
    (state.popFrames env count).Tallies env restored tally := by
  induction count generalizing state with
  | zero => exact h
  | succ count ih => exact ih h.popFrame

/-- The result of an embedded language adds to the relevance where its mode has one. -/
theorem addEmbedded (h : state.Tallies env restored tally) (mode : LexerMode)
    (result : Highlighted) : (addEmbedded mode result state).Tallies env restored
      (tally ++ { embedded := [(mode, result)] }) where
  hits word := by
    rw [Scan.addEmbedded, h.hits word]
    exact congrArg _ (List.append_nil _).symm
  relevance := by
    have hworth := h.relevance
    rw [Scan.addEmbedded, Tally.worth_embedded]
    split <;> simp only <;> omega

section

variable (hnested : nested.IsSteady)
include hnested

/-- What a language makes of a text does not depend on what has happened before. -/
theorem embed (h : state.Tallies env restored tally) {language : SubLanguage} {text : String}
    (hembed : Returns (embed env nested language text state) before state' after) :
    state'.Tallies env restored (tally ++
      { embedded := (state.embedded? nested language text).toList.map (state.top env, ·) }) := by
  unfold State.embedded?
  simp only [Scan.embed] at hembed
  split at hembed
  · next hempty =>
    obtain ⟨rfl, -⟩ := returns_pure_iff.mp hembed
    rw [if_pos hempty, Option.toList_none, List.map_nil, Tally.append_empty]
    exact h
  · next hempty =>
    rw [if_neg hempty]
    cases language with
    | named name =>
      simp only at hembed ⊢
      split at hembed
      · next hunknown =>
        obtain ⟨_, _, _, hpure⟩ := returns_bind_iff.mp hembed
        obtain ⟨rfl, -⟩ := returns_pure_iff.mp hpure
        rw [if_neg (by simpa using hunknown), Option.toList_none, List.map_nil,
          Tally.append_empty]
        exact h.congr rfl rfl rfl
      · next hknown =>
        obtain ⟨result, _, hresult, hpure⟩ := returns_bind_iff.mp hembed
        obtain ⟨rfl, -⟩ := returns_pure_iff.mp hpure
        have hagree := hnested.highlight name text (state.left name) _ rfl default before
        rw [show (nested.highlight name text (state.left name)).run.run before = _ from hresult]
          at hagree
        rw [if_pos (by simpa using hknown)]
        generalize ((nested.highlight name text (state.left name)).run.run default).1 =
          outcome at hagree ⊢
        cases hagree with
        | excused hlenient => cases hlenient
        | ok hsame =>
          rw [addEmbedded_congr hsame.bare.symm]
          refine State.Tallies.addEmbedded ?_ _ _
          exact h.congr rfl rfl rfl
    | candidates names =>
      obtain ⟨result, _, hresult, hpure⟩ := returns_bind_iff.mp hembed
      obtain ⟨rfl, -⟩ := returns_pure_iff.mp hpure
      have hsame := hnested.detect text (if names.isEmpty then none else some names)
        default before
      rw [show _ = _ from returns_lift_iff.mp hresult] at hsame
      rw [addEmbedded_congr hsame.symm]
      exact h.addEmbedded _ _

/-- A flush adds its tally. -/
theorem flush (h : state.Tallies env restored tally)
    (hflush : Returns (flush env nested state) before state' after) :
    state'.Tallies env restored (tally ++ state.flushTally env nested) := by
  have htop : ({ state with buffer := "" } : State).top env = state.top env := rfl
  have hemptied : ({ state with buffer := "" } : State).Tallies env restored tally :=
    h.congr rfl rfl rfl
  simp only [Scan.flush, htop] at hflush
  rw [State.flushTally]
  cases hsub : (state.top env).subLanguage with
  | none =>
    rw [hsub] at hflush
    obtain ⟨rfl, -⟩ := returns_pure_iff.mp hflush
    exact hemptied.markKeywords state.buffer
  | some language =>
    rw [hsub] at hflush
    exact hemptied.embed hnested hflush

theorem buffers {input : Option State} {ready : State} (h : state.Tallies env restored tally)
    (hready : Buffers env nested state input ready) :
    ready.Tallies env restored (tally ++ inputTally env nested input) ∧
      ready.frames = state.frames := by
  cases hready with
  | kept text =>
    rw [inputTally, Option.elim_none, Tally.append_empty]
    exact ⟨h.congr rfl rfl rfl, rfl⟩
  | flushed first second hflush =>
    have hinput : (state.addToBuffer first).Tallies env restored tally := h.congr rfl rfl rfl
    have hframes := flush_frames hflush
    exact ⟨(hinput.flush hnested hflush).congr rfl rfl rfl, hframes⟩

/-- Modes that are left add what is owed for them, once the match is in its place, and a mode that
follows adds what it opens with. -/
theorem leave {count : Nat} {placed : State} (h : state.Tallies env restored tally)
    (hmarks : marks frames = marks state.frames)
    (hplaced : Returns (placeEnd env nested found { state with frames := frames }) before placed
      after) :
    (Scan.goOn env found (outermost env state.frames count).next
      (placed.popFrames env count)).Tallies env restored
        (tally ++ moveTally env nested found state (.leave count)) := by
  have hlooked : ({ state with frames := frames } : State).Tallies env restored tally :=
    h.congr rfl rfl hmarks
  have htop : ({ state with frames := frames } : State).top env = state.top env :=
    top_of_marks hmarks
  obtain ⟨ready, hready, rfl⟩ := placeEnd_parts hplaced
  obtain ⟨hready, hframes⟩ := hlooked.buffers hnested hready
  have hmarks' : marks ready.frames = marks state.frames := by
    rw [hframes]
    exact hmarks
  have hkeeps := Keeps.scopeEnd env found (state.top env) ready
  have hplaced := hready.scopeEnd found (state.top env)
  have hleft := (hplaced.popFrames count).goOn found (outermost env state.frames count).next
  have hnext : ∀ number, enterTally env found number
      ((Scan.scopeEnd env found (state.top env) ready).popFrames env count) =
        enterTally env found number { state with frames := state.frames.drop count } := by
    intro number
    refine enterTally_congr (top_of_marks ?_) found number
    rw [frames_popFrames, marks_drop, marks_drop, hkeeps.marks, hmarks']
  rw [htop]
  simp only [hnext] at hleft
  rw [hitsAtEdge_congr (top_of_marks hmarks'), inputTally_endInput hmarks, ← Tally.append_assoc,
    ← Tally.append_assoc] at hleft
  rw [moveTally, ← Tally.append_assoc]
  exact hleft

/-- A match that is handled adds the tally of its move. -/
theorem handles {move : Move} {advance : Nat} (h : state.Tallies env restored tally)
    (hhandles : Handles env nested found state move state' advance) :
    state'.Tallies env restored
      (tally ++ moveTally env nested found (state.recorded found) move) := by
  have hrecorded : (state.recorded found).Tallies env restored tally := h.congr rfl rfl rfl
  cases hhandles with
  | empty hempty =>
    rw [moveTally, Tally.append_empty]
    exact h.takeChar found.index
  | ignored hkind hignore =>
    rw [moveTally, Tally.append_empty]
    unfold ignore
    split
    · exact hrecorded.takeChar found.index
    · exact h.congr rfl rfl rfl
  | @entered number data ready hkind haccept hready =>
    obtain ⟨hready, hframes⟩ := hrecorded.buffers hnested hready
    have hentered := hready.enter found number data
    rw [enterTally_congr (top_of_marks (congrArg marks hframes)), ← Tally.append_assoc]
      at hentered
    exact hentered
  | @unended frames hkind hended =>
    have hlooked : ({ state.recorded found with frames := frames } : State).Tallies env restored
      tally := h.congr rfl rfl (findEnded_default hended).1
    rw [moveTally, Tally.append_empty]
    exact hlooked.takeAsText found
  | left hkind hended hplaced =>
    exact hrecorded.leave hnested (findEnded_default hended).1 hplaced
  | illegal hkind =>
    rw [moveTally, Tally.append_empty]
    exact hrecorded.takeAsText found

/-- A step adds its tally. -/
theorem step {progress : Progress} (h : state.Tallies env restored tally)
    (hstep : Returns (step env nested state) before progress after) :
    progress.last.Tallies env restored (tally ++ stepTally env nested state) := by
  rcases step_cases hstep with ⟨⟨cursor, hfind⟩, rfl⟩ |
    ⟨found, cursor, state', advance, hfind, hhandle, hlast⟩
  · rw [stepTally, hfind, Tally.append_empty]
    exact h.congr rfl rfl rfl
  · have hreached : (state.reached env found cursor).Tallies env restored tally :=
      h.congr rfl rfl rfl
    rw [stepTally, hfind, hlast]
    exact (hreached.handles hnested (handle_parts hhandle)).congr rfl rfl rfl

/-- The flush of the rest of the text adds its tally. -/
theorem flushRest (h : state.Tallies env restored tally)
    (hrest : Returns (flushRest env nested state) before state' after) :
    state'.Tallies env restored (tally ++ restTally env nested state) := by
  have hinput : (state.addToBuffer (env.slice state.index env.text.size)).Tallies env restored
    tally := h.congr rfl rfl rfl
  exact hinput.flush hnested hrest

/-- A loop of steps, with the flush of the rest after it, adds its tally. -/
theorem loop {fuel : Nat} {last flushed : State} {between started : Trace}
    (h : state.Tallies env restored tally)
    (hloop : Gives (loop env nested fuel state) before (.done last) between)
    (hrest : Returns (Scan.flushRest env nested last) started flushed after) :
    flushed.Tallies env restored (tally ++ ((tallyFrom env nested fuel state).run before).1) := by
  induction fuel generalizing state tally before with
  | zero =>
    obtain ⟨heq, -⟩ := gives_pure_iff.mp hloop
    cases heq
    exact h.flushRest hnested hrest
  | succ fuel ih =>
    obtain ⟨outcome, next, hstep, hloop⟩ := gives_bind_iff.mp hloop
    rw [tallyFrom, StateT.run_bind, show (Scan.step env nested state).run.run before = _ from hstep]
    split at hloop
    · cases (gives_pure_iff.mp hloop).1
    · next done =>
      obtain ⟨heq, -⟩ := gives_pure_iff.mp hloop
      cases heq
      have hstepped := h.step hnested hstep
      have hflushed := hstepped.flushRest hnested hrest
      rw [← Tally.append_assoc] at hflushed
      exact hflushed
    · next more =>
      have hstepped := h.step hnested hstep
      have hlooped := ih hstepped hloop
      rw [← Tally.append_assoc] at hlooped
      exact hlooped

end

/-- At the end of the text all modes are left, and nothing is owed any more. -/
theorem conclude (h : state.Tallies env restored tally) :
    (conclude env state).relevance = restored + tally.worth env := by
  have hworth := (h.popFrames state.frames.length).relevance
  rw [frames_popFrames, List.drop_length] at hworth
  exact hworth

end State.Tallies

theorem restore_tallies (env : Env) (frames : List Frame) :
    (State.restore env frames).Tallies env (env.owed (State.restore env frames).frames) {} := by
  unfold State.restore
  split
  · exact ⟨fun word => Std.HashMap.getD_empty, Nat.add_comm _ _⟩
  · exact ⟨fun word => Std.HashMap.getD_empty, Nat.add_comm _ _⟩

/-- The relevance of a scan comes to what was owed for the modes that it goes on in, and to what its
tally is worth. -/
theorem run_relevance (hnested : nested.IsSteady) {result : Highlighted}
    (hrun : Gives (run env nested frames) before (.ok result) after) :
    result.relevance = env.owed (State.restore env frames).frames +
      ((Scan.tally env nested frames).run before).1.worth env := by
  obtain ⟨outcome, between, hloop, hrest⟩ := gives_bind_iff.mp hrun
  split at hrest
  · cases (gives_pure_iff.mp hrest).1
  · obtain ⟨flushed, _, hflush, hpure⟩ := gives_bind_iff.mp hrest
    split at hpure
    · cases (gives_pure_iff.mp hpure).1
    · obtain ⟨heq, -⟩ := gives_pure_iff.mp hpure
      cases heq
      exact ((restore_tallies env frames).loop hnested hloop hflush).conclude

/-- So does the relevance of a result, unless it has been recovered from illegal text or a fault. -/
theorem highlight_relevance (hnested : nested.IsSteady) {result : Highlighted}
    (h : Returns (highlight env nested frames) before result after)
    (hillegal : result.illegalBy = none) (herror : result.errorRaised = none) :
    result.relevance = env.owed (State.restore env frames).frames +
      ((Scan.tally env nested frames).run before).1.worth env := by
  rw [highlight_eq] at h
  obtain ⟨outcome, between, hrun, hsettle⟩ := returns_bind_iff.mp h
  cases outcome with
  | ok other =>
    obtain ⟨rfl, -⟩ := returns_pure_iff.mp hsettle
    exact run_relevance hnested (returns_lift_iff.mp hrun)
  | error failure =>
    obtain ⟨fault, active⟩ := failure
    simp only [settle, throw_bind] at hsettle
    split at hsettle
    · exact absurd hsettle not_returns_throw
    · split at hsettle
      · obtain ⟨rfl, -⟩ := returns_pure_iff.mp hsettle
        cases hillegal
      · obtain ⟨_, _, _, hpure⟩ := returns_bind_iff.mp hsettle
        obtain ⟨rfl, -⟩ := returns_pure_iff.mp hpure
        cases herror
      · exact absurd hsettle not_returns_throw

end Highlighter.Scan
