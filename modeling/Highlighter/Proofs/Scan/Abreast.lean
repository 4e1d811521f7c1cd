import Highlighter.Proofs.Lexer.Thinning
import Highlighter.Proofs.Scan.Lockstep
import Highlighter.Proofs.Scan.Veto

/-!
# Scans abreast

A scan goes on past the matches of idle rules. So it and a scan without these rules stay abreast:
they have the same matches of the other rules ahead, and have written the same up to wherever both
of them are. What an ignored match leaves behind is the iteration that it took, and itself as the
last match. -/

namespace Highlighter.Scan

variable {R : Nat → Nat → Prop} {C : String → List Frame → List Frame → Prop}
  {P : Registers → Registers → Prop} {env env' : Env} {nested nested' : Nested}
  {state state' : State} {found found' : RuleMatch} {cursor cursor' : Nat}

/-! ## What has been written -/

theorem takeChar_eq (env : Env) (state : State) (position : Nat) :
    state.takeChar env position =
      { state with buffer := state.buffer ++ env.slice position (position + 1) } := by
  unfold State.takeChar Env.slice
  cases hchar : env.text[position]? with
  | some c =>
    rw [Regex.Span.text_succ hchar]
    rfl
  | none =>
    have hsize := Array.getElem?_eq_none_iff.mp hchar
    rw [← Regex.Span.text_min, Regex.Span.text_of_le (Nat.le_trans (Nat.min_le_right _ _) hsize),
      String.append_empty]

/-- What the buffer holds once the text up to a position has been added to it. -/
def State.filled (env : Env) (state : State) (stop : Nat) : String :=
  state.buffer ++ env.slice state.index stop

/-- Two scans have written the same up to wherever both of them are. -/
structure State.Level (R : Nat → Nat → Prop) (C : String → List Frame → List Frame → Prop)
    (env env' : Env) (state state' : State) : Prop where
  frames : FramesAlike R state.frames state'.frames
  tree : state.tree = state'.tree
  relevance : state.relevance = state'.relevance
  hits : state.hits = state'.hits
  continuations : ContinuationsAlike C state.continuations state'.continuations
  filled : ∀ stop, state.index ≤ stop → state'.index ≤ stop →
    state.filled env stop = state'.filled env' stop

/-- After an ignored match, only the place where the scan is has changed. -/
theorem afterIgnored_spec (env : Env) (found : RuleMatch) (cursor : Nat) (state : State) :
    state.afterIgnored env found cursor =
      { state with
        iterations := state.iterations + 1
        lastMatch := some (found.kind, found.index)
        cursor := cursor
        resume := cursor ≠ 0
        index := found.index + if cursor = 0 then 1 else 0
        buffer := state.filled env found.index ++
          if cursor = 0 then env.slice found.index (found.index + 1) else "" } := by
  simp only [State.afterIgnored, ignore, State.reached, State.begun, State.filled]
  split
  · next hcursor => simp [takeChar_eq, hcursor]
  · next hcursor => simp [hcursor]

theorem filled_afterIgnored (hle : state.index ≤ found.index) {stop : Nat}
    (hstop : (state.afterIgnored env found cursor).index ≤ stop) :
    (state.afterIgnored env found cursor).filled env stop = state.filled env stop := by
  rw [afterIgnored_spec] at hstop ⊢
  simp only [State.filled, Env.slice] at hstop ⊢
  by_cases hcursor : cursor = 0
  · simp only [hcursor, if_true] at hstop ⊢
    rw [String.append_assoc, String.append_assoc,
      Regex.Span.text_append (Nat.le_succ found.index) hstop,
      Regex.Span.text_append hle (Nat.le_of_succ_le hstop)]
  · simp only [hcursor, if_false, Nat.add_zero] at hstop ⊢
    rw [String.append_empty, String.append_assoc, Regex.Span.text_append hle hstop]

theorem top_afterIgnored (env : Env) (found : RuleMatch) (cursor : Nat) (state : State) :
    (state.afterIgnored env found cursor).top env = state.top env := by
  rw [afterIgnored_spec]
  rfl

theorem lastMatch_afterIgnored (env : Env) (found : RuleMatch) (cursor : Nat) (state : State) :
    (state.afterIgnored env found cursor).lastMatch = some (found.kind, found.index) := by
  rw [afterIgnored_spec]

theorem iterations_afterIgnored (env : Env) (found : RuleMatch) (cursor : Nat) (state : State) :
    (state.afterIgnored env found cursor).iterations = state.iterations + 1 := by
  rw [afterIgnored_spec]

theorem index_le_afterIgnored (env : Env) (found : RuleMatch) (cursor : Nat) (state : State) :
    found.index ≤ (state.afterIgnored env found cursor).index := by
  rw [afterIgnored_spec]
  exact Nat.le_add_right _ _

/-- An ignored match of the first scan changes nothing that has been written. -/
theorem State.Level.afterIgnored_left (h : state.Level R C env env' state')
    (hle : state.index ≤ found.index) :
    (state.afterIgnored env found cursor).Level R C env env' state' := by
  have hindex := index_le_afterIgnored env found cursor state
  have hfilled : ∀ stop, (state.afterIgnored env found cursor).index ≤ stop → state'.index ≤ stop →
      (state.afterIgnored env found cursor).filled env stop = state'.filled env' stop := by
    intro stop hstop hstop'
    rw [filled_afterIgnored hle hstop]
    exact h.filled stop (Nat.le_trans hle (Nat.le_trans hindex hstop)) hstop'
  rw [afterIgnored_spec] at hfilled ⊢
  exact ⟨h.frames, h.tree, h.relevance, h.hits, h.continuations, hfilled⟩

theorem State.Level.afterIgnored_right (h : state.Level R C env env' state')
    (hle : state'.index ≤ found'.index) :
    state.Level R C env env' (state'.afterIgnored env' found' cursor') := by
  have hindex := index_le_afterIgnored env' found' cursor' state'
  have hfilled : ∀ stop, state.index ≤ stop →
      (state'.afterIgnored env' found' cursor').index ≤ stop →
      state.filled env stop = (state'.afterIgnored env' found' cursor').filled env' stop := by
    intro stop hstop hstop'
    rw [filled_afterIgnored hle hstop']
    exact h.filled stop hstop (Nat.le_trans hle (Nat.le_trans hindex hstop'))
  rw [afterIgnored_spec] at hfilled ⊢
  exact ⟨h.frames, h.tree, h.relevance, h.hits, h.continuations, hfilled⟩

/-- States that are alike and at one place are level. -/
theorem State.Alike.level (henv : env.Alike R env') (h : state.Alike R C P state') (index : Nat) :
    ({ state with index := index } : State).Level R C env env' { state' with index := index } :=
  ⟨h.frames, h.tree, h.relevance, h.hits, h.continuations, fun stop _ _ => by
    simp only [State.filled, h.buffer, henv.slice]⟩

/-- States that are level are alike when they reach related matches. -/
theorem State.Level.reached (h : state.Level R C env env' state') (hfound : found.Alike R found')
    (hle : state.index ≤ found.index) (hle' : state'.index ≤ found.index)
    (hregisters : P (state.reached env found cursor).registers
      (state'.reached env' found' cursor').registers) :
    (state.reached env found cursor).Alike R C P (state'.reached env' found' cursor') := by
  refine ⟨h.frames, h.tree, ?_, h.relevance, h.hits, h.continuations, hregisters⟩
  have hfilled := h.filled found.index hle hle'
  simp only [State.filled] at hfilled
  simp only [State.reached, ← hfound.index]
  exact hfilled

/-! ## Scans abreast -/

/-- Two scans of one text, the second one without rules that are idle in the first one. -/
structure Env.Thins (R : Nat → Nat → Prop) (env env' : Env) : Prop where
  alike : env.Alike R env'
  options : env.options = env'.options
  thins : ∀ number number', R number number' → ∃ isMatch isMatch' place,
    (env.lexer.mode number).rules.Thins R (fun number => (env.lexer.mode number).IsIdle) env.text
      isMatch isMatch' place (env'.lexer.mode number').rules

/-- The last matches are related, or the last one of the first scan was ignored and the second scan
does not have it. -/
inductive LastAlike (R : Nat → Nat → Prop) (env : Env) (state state' : State) : Prop where
  | alike (h : Option.Rel (fun last last' => last.1.Alike R last'.1 ∧ last.2 = last'.2)
      state.lastMatch state'.lastMatch)
  | ignored {number position : Nat} (h : state.lastMatch = some (.begin number, position))
      (hbehind : position ≤ state.index)
      (hends : (state.top env).rules.EndsBeyond env.text position)
      (hearlier : ∀ last, state'.lastMatch = some last → last.2 ≤ position)

/-- Two scans that are level have the same matches ahead, but for those of idle rules. -/
structure State.Abreast (R : Nat → Nat → Prop) (C : String → List Frame → List Frame → Prop)
    (env env' : Env) (state state' : State) : Prop where
  level : state.Level R C env env' state'
  ahead : ∃ isMatch isMatch' place,
    (state.top env).rules.Thins R (fun number => (env.lexer.mode number).IsIdle) env.text isMatch
      isMatch' place (state'.top env').rules ∧
    RuleSet.Aligned (state'.top env').rules env.text isMatch' place state.searchStart
      state'.searchStart
  cursor : state.searchStart.rule ≤ (state.top env).rules.rules.length - 1
  cursor' : state'.searchStart.rule ≤ (state'.top env').rules.rules.length - 1
  iterations : state'.iterations ≤ state.iterations
  last : LastAlike R env state state'
  behind : ∀ last, state'.lastMatch = some last → last.2 ≤ state.index

/-- Two scans have made given numbers of iterations, with related last matches that are not behind a
position, and their next searches start with the first rule. -/
structure Registers.Fresh (R : Nat → Nat → Prop) (iterations iterations' position : Nat)
    (registers registers' : Registers) : Prop where
  iterations : registers.iterations = iterations
  iterations' : registers'.iterations = iterations'
  last : Option.Rel (fun last last' => last.1.Alike R last'.1 ∧ last.2 = last'.2)
    registers.lastMatch registers'.lastMatch
  behind : ∀ last, registers'.lastMatch = some last → last.2 ≤ position
  resume : registers.resume = false
  resume' : registers'.resume = false

theorem Env.Thins.top (henv : env.Thins R env') (h : state.Level R C env env' state') :
    R ((state.frames.head?.map (·.mode)).getD Lexer.root)
      ((state'.frames.head?.map (·.mode)).getD Lexer.root) := by
  have hframes := h.frames
  generalize state.frames = frames at hframes ⊢
  generalize state'.frames = frames' at hframes ⊢
  cases hframes with
  | nil => exact henv.alike.lexer.root
  | cons hframe _ => exact hframe.mode

/-- States that are alike at one place are abreast when their searches start with the first rule. -/
theorem State.Alike.abreast (henv : env.Thins R env') {iterations iterations' position index : Nat}
    (h : state.Alike R C (Registers.Fresh R iterations iterations' position) state')
    (hle : iterations' ≤ iterations) (hindex : position ≤ index) :
    ({ state with index := index } : State).Abreast R C env env'
      { state' with index := index } := by
  have hlevel := h.level henv.alike index
  have hstart : ({ state with index := index } : State).searchStart = ⟨index, 0⟩ := by
    have hresume : state.resume = false := h.registers.resume
    simp [State.searchStart, State.begun, hresume]
  have hstart' : ({ state' with index := index } : State).searchStart = ⟨index, 0⟩ := by
    have hresume : state'.resume = false := h.registers.resume'
    simp [State.searchStart, State.begun, hresume]
  obtain ⟨isMatch, isMatch', place, hthins⟩ := henv.thins _ _ (henv.top hlevel)
  refine ⟨hlevel, ⟨isMatch, isMatch', place, hthins, ?_⟩, ?_, ?_, ?_, .alike h.registers.last, ?_⟩
  · rw [hstart, hstart']
    exact RuleSet.aligned_same index
  · rw [hstart]
    exact Nat.zero_le _
  · rw [hstart']
    exact Nat.zero_le _
  · have hfirst : state.iterations = iterations := h.registers.iterations
    have hsecond : state'.iterations = iterations' := h.registers.iterations'
    simp only [hfirst, hsecond]
    exact hle
  · exact fun last hlast => Nat.le_trans (h.registers.behind last hlast) hindex

/-- What the first of two scans abreast finds is a match that an idle mode ignores, or the second
scan finds it as well. Either way, the scans stay abreast when it is ignored. -/
theorem State.Abreast.search (h : state.Abreast R C env env' state')
    (htext : env.text = env'.text)
    (hfind : (state.top env).rules.find env.text state.index state.begun.cursor =
      .ok (some found, cursor)) :
    state.index ≤ found.index ∧ found.index ≤ env.text.size ∧
      ((∃ number, found.kind = .begin number ∧ (env.lexer.mode number).IsIdle ∧
          (state.afterIgnored env found cursor).Abreast R C env env' state') ∨
        ∃ found' cursor', (state'.top env').rules.find env'.text state'.index state'.begun.cursor =
            .ok (some found', cursor') ∧
          found.Alike R found' ∧ state'.index ≤ found.index ∧
          (state.afterIgnored env found cursor).Abreast R C env env'
            (state'.afterIgnored env' found' cursor')) := by
  obtain ⟨isMatch, isMatch', place, hthins, haligned⟩ := h.ahead
  obtain ⟨⟨_, _⟩, hfind', hfirst⟩ :=
    RuleSet.find_foundFirst hthins.finds state.index state.begun.cursor h.cursor
  cases hfind.symm.trans hfind'
  obtain ⟨⟨position, first⟩, rfl, rfl, hmatches, hafter, hleast⟩ := hfirst
  have hle : state.index ≤ found.index := by
    unfold Candidate.Before at hafter
    simp only at hafter
    omega
  have hstart := @searchStart_afterIgnored ⟨found.index, first⟩ env (state.top env).rules state
    found rfl
  have hindex := index_le_afterIgnored env found ((state.top env).rules.cursorAfter first) state
  have hcursor : (state.afterIgnored env found
      ((state.top env).rules.cursorAfter first)).searchStart.rule ≤
        (state.top env).rules.rules.length - 1 := by
    rw [hstart]
    exact (state.top env).rules.startAfter_rule_le _
  refine ⟨hle, hmatches.position, ?_⟩
  by_cases hkept : ∃ rule < (state'.top env').rules.rules.length, place rule = first
  · right
    obtain ⟨rule, hrule, rfl⟩ := hkept
    have hmatches' : (state'.top env').rules.Matches env.text isMatch' ⟨found.index, rule⟩ :=
      ⟨hrule, hmatches.position, (hthins.isMatch rule hrule _).mpr hmatches.isMatch⟩
    obtain ⟨found', hfound', halike, hafter'⟩ := hthins.find_kept h.cursor h.cursor' haligned
      hmatches' hfind rfl hafter hleast
    have hle' : state'.index ≤ found.index := by
      unfold Candidate.Before State.searchStart at hafter'
      simp only at hafter'
      omega
    have hstart' := @searchStart_afterIgnored ⟨found.index, rule⟩ env' (state'.top env').rules
      state' found' halike.index
    rw [htext] at hfound'
    refine ⟨found', _, hfound', halike, hle', ?_, ?_, ?_, ?_, ?_, .alike ?_, ?_⟩
    · exact (h.level.afterIgnored_left hle).afterIgnored_right (halike.index ▸ hle')
    · refine ⟨isMatch, isMatch', place, ?_, ?_⟩
      · rw [top_afterIgnored, top_afterIgnored]
        exact hthins
      · rw [top_afterIgnored, hstart, hstart']
        exact hthins.aligned_startAfter hmatches'
    · rw [top_afterIgnored]
      exact hcursor
    · rw [top_afterIgnored, hstart']
      exact (state'.top env').rules.startAfter_rule_le _
    · rw [iterations_afterIgnored, iterations_afterIgnored]
      exact Nat.succ_le_succ h.iterations
    · rw [lastMatch_afterIgnored, lastMatch_afterIgnored]
      exact .some ⟨halike.kind, halike.index⟩
    · intro last hlast
      rw [lastMatch_afterIgnored] at hlast
      cases hlast
      exact halike.index ▸ hindex
  · left
    have hnot : ∀ rule < (state'.top env').rules.rules.length, place rule ≠ first :=
      fun rule hrule heq => hkept ⟨rule, hrule, heq⟩
    obtain ⟨number, hkind, hidle, hends⟩ := hthins.idle _ _ _ _ h.cursor hfind
      (by rw [RuleSet.ruleBefore_cursorAfter hmatches.rule]; exact hnot)
    refine ⟨number, hkind, hidle, h.level.afterIgnored_left hle, ?_, ?_, h.cursor', ?_,
      .ignored (hkind ▸ lastMatch_afterIgnored ..) hindex ?_ ?_, ?_⟩
    · refine ⟨isMatch, isMatch', place, ?_, fun other hother => ?_⟩
      · rw [top_afterIgnored]
        exact hthins
      · rw [hstart, hthins.before_startAfter_iff hmatches hafter hleast hnot hother]
        exact haligned other hother
    · rw [top_afterIgnored]
      exact hcursor
    · rw [iterations_afterIgnored]
      exact Nat.le_succ_of_le h.iterations
    · rw [top_afterIgnored]
      exact hends
    · exact fun last hlast => Nat.le_trans (h.behind last hlast) hle
    · exact fun last hlast => Nat.le_trans (h.behind last hlast) (Nat.le_trans hle hindex)

/-- Where the first of two scans abreast finds nothing, the second one does not either. -/
theorem State.Abreast.search_nothing (h : state.Abreast R C env env' state')
    (htext : env.text = env'.text)
    (hfind : (state.top env).rules.find env.text state.index state.begun.cursor =
      .ok (none, cursor)) :
    ∃ cursor', (state'.top env').rules.find env'.text state'.index state'.begun.cursor =
      .ok (none, cursor') := by
  obtain ⟨isMatch, isMatch', place, hthins, haligned⟩ := h.ahead
  obtain ⟨⟨_, _⟩, hfind', hfirst⟩ :=
    RuleSet.find_foundFirst hthins.finds state.index state.begun.cursor h.cursor
  cases hfind.symm.trans hfind'
  rw [← htext]
  exact hthins.find_nothing h.cursor' fun candidate hmatches =>
    (haligned candidate hmatches).mp (hfirst _ (hthins.matches_lift hmatches))

/-- Where the first of two scans abreast is behind the text, the second one finds nothing. -/
theorem State.Abreast.search_behind (h : state.Abreast R C env env' state')
    (htext : env.text = env'.text) (hend : env.text.size < state.index) :
    ∃ cursor', (state'.top env').rules.find env'.text state'.index state'.begun.cursor =
      .ok (none, cursor') := by
  obtain ⟨isMatch, isMatch', place, hthins, haligned⟩ := h.ahead
  rw [← htext]
  exact hthins.find_nothing h.cursor' fun candidate hmatches =>
    (haligned candidate hmatches).mp (.inl (Nat.lt_of_le_of_lt hmatches.position hend))

/-! ## Steps of scans abreast -/

theorem emptyMode?_eq_some {number : Nat} (h : emptyMode? found state = some number) :
    state.lastMatch = some (.begin number, found.index) ∧ found.kind = .finish ∧
      width found = 0 := by
  unfold emptyMode? at h
  split at h
  · next number' index hlast =>
    split at h
    · next hempty =>
      cases h
      simp only [Bool.and_eq_true, decide_eq_true_eq] at hempty
      exact ⟨hempty.1.2 ▸ hlast, hempty.1.1, hempty.2⟩
    · cases h
  · cases h

/-- Where no mode ends without text, the last match has no part in handling the next one. -/
theorem handle_forget (nested : Nested) (h : emptyMode? found state = none) :
    handle env nested found state = handle env nested found { state with lastMatch := none } := by
  have hnone : emptyMode? found { state with lastMatch := none } = none := rfl
  simp only [handle, h, hnone]
  rfl

theorem isRunaway_eq_false_iff {position : Nat} :
    isRunaway env position state = false ↔
      state.iterations ≤ env.settings.iterationLimit (Text.byteOffset env.text position) := by
  have hfloor : env.settings.iterationFloor ≤
      env.settings.iterationLimit (Text.byteOffset env.text position) := Nat.le_max_left _ _
  rw [isRunaway, Bool.and_eq_false_iff, decide_eq_false_iff_not, decide_eq_false_iff_not]
  omega

/-- A scan that has made fewer iterations is within its limits where one with more is. -/
theorem isRunaway_mono (henv : env.Alike R env') (hindex : found.index = found'.index)
    (hle : state'.iterations ≤ state.iterations) (h : isRunaway env found.index state = false) :
    isRunaway env' found'.index state' = false := by
  rw [isRunaway_eq_false_iff] at h ⊢
  rw [← henv.settings, ← henv.text, ← hindex]
  exact Nat.le_trans hle h

/-- Scans abreast handle related matches alike while the first one is within its limits. -/
theorem State.Abreast.handle_agree (henv : env.Thins R env')
    (hnested : nested.Alike false C nested') (h : state.Abreast R C env env' state')
    (hfind : (state.top env).rules.find env.text state.index state.begun.cursor =
      .ok (some found, cursor)) (hfound : found.Alike R found')
    (hle : state.index ≤ found.index) (hle' : state'.index ≤ found.index)
    (hallowed : isRunaway env found.index (state.reached env found cursor) = false) :
    AgreeExcept false
      (HandledAlike R C
        (Registers.Fresh R (state.iterations + 1) (state'.iterations + 1) found.index)
        (ignore env found.index ((state.reached env found cursor).recorded found))
        (ignore env' found'.index ((state'.reached env' found' cursor').recorded found')))
      (handle env nested found (state.reached env found cursor))
      (handle env' nested' found' (state'.reached env' found' cursor')) := by
  have hoptions : env.options.Alike false env'.options := by
    rw [henv.options]
    exact .same rfl
  have hallowed' : isRunaway env' found'.index (state'.reached env' found' cursor') = false :=
    @isRunaway_mono R env env' (state.reached env found cursor) (state'.reached env' found' cursor')
      found found' henv.alike hfound.index (Nat.succ_le_succ h.iterations) hallowed
  obtain ⟨hframes, htree, hbuffer, hrelevance, hhits, hcontinuations, -⟩ :=
    @State.Level.reached R C (fun _ _ => True) env env' state state' found found' cursor cursor'
      h.level hfound hle hle' trivial
  have hready : ∀ last last', Option.Rel (fun last last' => last.1.Alike R last'.1 ∧
        last.2 = last'.2) last last' → (∀ entry, last' = some entry → entry.2 ≤ found.index) →
      ({ state.reached env found cursor with lastMatch := last } : State).Alike R C
        (Registers.Fresh R (state.iterations + 1) (state'.iterations + 1) found.index)
        { state'.reached env' found' cursor' with lastMatch := last' } :=
    fun last last' hlast hbehind => ⟨hframes, htree, hbuffer, hrelevance, hhits, hcontinuations,
      rfl, rfl, hlast, hbehind, rfl, rfl⟩
  have hrecorded := hready (some (found.kind, found.index)) (some (found'.kind, found'.index))
    (.some ⟨hfound.kind, hfound.index⟩) fun entry hentry => by
      cases hentry
      exact Nat.le_of_eq hfound.index.symm
  cases h.last with
  | alike hlast =>
    have hfresh := hready state.lastMatch state'.lastMatch hlast
      fun last hbehind => Nat.le_trans (h.behind last hbehind) hle
    refine Scan.handle_agree henv.alike hnested hoptions hfound hfresh hrecorded ?_ ?_
    · exact hallowed.trans hallowed'.symm
    · exact emptyMode?_alike hlast hfound
  | @ignored number position hlast hbehind hends hearlier =>
    -- no end match without text is found where the last match was ignored, so neither scan minds it
    have hnot : found.kind = .finish → width found = 0 → found.index ≠ position :=
      fun hkind hwidth hindex => hends _ _ found _ h.cursor hfind hkind hindex hwidth
    have hnone : emptyMode? found (state.reached env found cursor) = none := by
      refine Option.eq_none_iff_forall_not_mem.mpr fun other hother => ?_
      obtain ⟨hsame, hkind, hwidth⟩ := emptyMode?_eq_some hother
      cases hlast.symm.trans hsame
      exact hnot hkind hwidth rfl
    have hnone' : emptyMode? found' (state'.reached env' found' cursor') = none := by
      refine Option.eq_none_iff_forall_not_mem.mpr fun other hother => ?_
      obtain ⟨hsame, hkind, hwidth⟩ := emptyMode?_eq_some hother
      have hbefore : found'.index ≤ position := hearlier _ hsame
      have hkind' : found.kind = .finish := by
        rcases kind_cases hfound with ⟨_, _, -, hbegin, -⟩ | ⟨hfinish, -⟩ | ⟨-, hillegal⟩
        · cases hkind.symm.trans hbegin
        · exact hfinish
        · cases hkind.symm.trans hillegal
      refine hnot hkind' ((width_alike hfound).trans hwidth) ?_
      have hindex := hfound.index
      omega
    rw [handle_forget nested hnone, handle_forget nested' hnone']
    have hfresh := hready none none .none fun _ hnone => by cases hnone
    exact Scan.handle_agree henv.alike hnested hoptions hfound hfresh hrecorded
      (hallowed.trans hallowed'.symm) .none

end Highlighter.Scan
