import Highlighter.Proofs.Lexer.Search
import Highlighter.Proofs.Scan.Preservation

/-!
# Searching past ignored matches

After a match that is ignored, a scan tries the later rules at the same position, and once no rule
is left, all rules from the next character on. Taken together, these searches go through all matches
of all rules in order, by position and then by rule, and stop at the first one that is not ignored.
-/

namespace Highlighter

namespace Scan

variable {env : Env} {isMatch : Nat → Nat → Prop} {isVetoed : Candidate → Bool}

/-- Where a scan goes on when the match that it has found is ignored. -/
def State.afterIgnored (env : Env) (found : RuleMatch) (cursor : Nat) (state : State) : State :=
  let (next, advance) := ignore env found.index
    { state.reached env found cursor with lastMatch := some (found.kind, found.index) }
  { next with index := found.index + advance }

/-- How a search past vetoed matches ends. -/
inductive Sought where
  | accepted (candidate : Candidate) (found : RuleMatch)
  | nothing
  | failed (error : Regex.Error)

/-- Repeats the search of a scan, at most `fuel` times, for as long as the matches are vetoed. The
matches that have been visited are listed in order. -/
def seek (env : Env) (isVetoed : Candidate → Bool) :
    (fuel : Nat) → State → Option (List Candidate × Sought)
  | 0, _ => none
  | fuel + 1, state =>
    match (state.top env).rules.find env.text state.index state.begun.cursor with
    | .error error => some ([], .failed error)
    | .ok (none, _) => some ([], .nothing)
    | .ok (some found, cursor) =>
      let candidate : Candidate := ⟨found.index, (state.top env).rules.ruleBefore cursor⟩
      if isVetoed candidate then
        let next := state.afterIgnored env found cursor
        if env.text.size < next.index then some ([candidate], .nothing)
        else (seek env isVetoed fuel next).map fun (visited, sought) =>
          (candidate :: visited, sought)
      else some ([candidate], .accepted candidate found)

/-- The matches that a search visits are all matches from `start` on, up to the first one that is
not vetoed, each of them once and in order. -/
def Exhausts (set : RuleSet) (text : Array Char) (isMatch : Nat → Nat → Prop)
    (isVetoed : Candidate → Bool) (start : Candidate) : List Candidate × Sought → Prop
  | (visited, .accepted candidate found) =>
    found.index = candidate.position ∧ set.Matches text isMatch candidate ∧
      ¬ candidate.Before start ∧ isVetoed candidate = false ∧
      (∀ other, set.Matches text isMatch other → ¬ other.Before start → isVetoed other = false →
        ¬ other.Before candidate) ∧
      visited.Pairwise Candidate.Before ∧
      ∀ other, other ∈ visited ↔
        set.Matches text isMatch other ∧ ¬ other.Before start ∧ ¬ candidate.Before other
  | (visited, .nothing) =>
    (∀ other, set.Matches text isMatch other → ¬ other.Before start → isVetoed other = true) ∧
      visited.Pairwise Candidate.Before ∧
      ∀ other, other ∈ visited ↔ set.Matches text isMatch other ∧ ¬ other.Before start
  | (_, .failed _) => False

variable {set : RuleSet} {text : Array Char} {start candidate : Candidate} {sought : Sought}
  {visited : List Candidate}

/-- A vetoed match comes first among the matches that are visited. -/
theorem Exhausts.cons (hmatches : set.Matches text isMatch candidate)
    (hafter : ¬ candidate.Before start)
    (hleast : ∀ other, set.Matches text isMatch other → ¬ other.Before start →
      ¬ other.Before candidate)
    (hvetoed : isVetoed candidate = true)
    (h : Exhausts set text isMatch isVetoed (set.startAfter candidate) (visited, sought)) :
    Exhausts set text isMatch isVetoed start (candidate :: visited, sought) := by
  have hbehind : ∀ other, set.Matches text isMatch other →
      (¬ other.Before (set.startAfter candidate) ↔ candidate.Before other) :=
    fun other hother => RuleSet.not_before_startAfter_iff hmatches.rule hother.rule
  -- a match from the start on is the vetoed one or comes after it
  have hsplit : ∀ other, set.Matches text isMatch other →
      (¬ other.Before start ↔ other = candidate ∨ candidate.Before other) := by
    intro other hother
    constructor
    · intro hnot
      refine Decidable.or_iff_not_imp_right.mpr fun hlater => ?_
      exact Candidate.eq_of_not_before (hleast other hother hnot) hlater
    · rintro (rfl | hlater) hbefore
      · exact hafter hbefore
      · exact hafter (hlater.trans hbefore)
  cases sought with
  | failed error => exact h
  | nothing =>
    obtain ⟨hall, hordered, hvisited⟩ := h
    refine ⟨?_, ?_, ?_⟩
    · intro other hother hnot
      rcases (hsplit other hother).mp hnot with rfl | hlater
      · exact hvetoed
      · exact hall other hother ((hbehind other hother).mpr hlater)
    · refine List.pairwise_cons.mpr ⟨fun other hmem => ?_, hordered⟩
      obtain ⟨hother, hnot⟩ := (hvisited other).mp hmem
      exact (hbehind other hother).mp hnot
    · intro other
      rw [List.mem_cons, hvisited]
      constructor
      · rintro (rfl | ⟨hother, hnot⟩)
        · exact ⟨hmatches, hafter⟩
        · exact ⟨hother, (hsplit other hother).mpr (.inr ((hbehind other hother).mp hnot))⟩
      · rintro ⟨hother, hnot⟩
        rcases (hsplit other hother).mp hnot with rfl | hlater
        · exact .inl rfl
        · exact .inr ⟨hother, (hbehind other hother).mpr hlater⟩
  | accepted final found =>
    obtain ⟨hindex, hfinal, hnot, haccepted, hfirst, hordered, hvisited⟩ := h
    have hlater := (hbehind final hfinal).mp hnot
    refine ⟨hindex, hfinal, (hsplit final hfinal).mpr (.inr hlater), haccepted, ?_, ?_, ?_⟩
    · intro other hother hstart hopen
      rcases (hsplit other hother).mp hstart with rfl | hother'
      · cases hvetoed.symm.trans hopen
      · exact hfirst other hother ((hbehind other hother).mpr hother') hopen
    · refine List.pairwise_cons.mpr ⟨fun other hmem => ?_, hordered⟩
      obtain ⟨hother, hnot, -⟩ := (hvisited other).mp hmem
      exact (hbehind other hother).mp hnot
    · intro other
      rw [List.mem_cons, hvisited]
      constructor
      · rintro (rfl | ⟨hother, hnot, hle⟩)
        · exact ⟨hmatches, hafter,
            fun hbefore => Candidate.not_before_self _ (hlater.trans hbefore)⟩
        · exact ⟨hother, (hsplit other hother).mpr (.inr ((hbehind other hother).mp hnot)), hle⟩
      · rintro ⟨hother, hstart, hle⟩
        rcases (hsplit other hother).mp hstart with rfl | hother'
        · exact .inl rfl
        · exact .inr ⟨hother, (hbehind other hother).mpr hother', hle⟩

/-- No match is left behind the end of the text. -/
theorem Exhausts.nil (h : text.size < start.position) :
    Exhausts set text isMatch isVetoed start ([], .nothing) := by
  have hnone : ∀ other, set.Matches text isMatch other → other.Before start :=
    fun other hother => .inl (Nat.lt_of_le_of_lt hother.position h)
  refine ⟨fun other hother hnot => absurd (hnone other hother) hnot, .nil, fun other => ?_⟩
  simp only [List.not_mem_nil, false_iff, not_and, Decidable.not_not]
  exact hnone other

theorem takeChar_resume (state : State) (position : Nat) :
    (state.takeChar env position).resume = state.resume := by
  unfold State.takeChar
  split <;> rfl

theorem afterIgnored_eq (env : Env) (found : RuleMatch) (cursor : Nat) (state : State) :
    (state.afterIgnored env found cursor).frames = state.frames ∧
      (state.afterIgnored env found cursor).begun.cursor = cursor ∧
      (state.afterIgnored env found cursor).index = found.index + if cursor = 0 then 1 else 0 := by
  have hreached : (state.reached env found cursor).cursor = cursor := rfl
  simp only [State.afterIgnored, ignore, hreached]
  by_cases hcursor : cursor = 0
  · simp only [if_pos hcursor]
    refine ⟨takeChar_frames env _ _, ?_, trivial⟩
    simp only [State.begun, takeChar_resume]
    exact hcursor.symm
  · simp only [if_neg hcursor]
    exact ⟨rfl, rfl, trivial⟩

/-- A step in which the hooks ignore a begin match goes on where a search past vetoed matches
does. -/
theorem step_ignored {nested : Nested} {state : State} {found : RuleMatch} {cursor number : Nat}
    (hfind : (state.top env).rules.find env.text state.index state.begun.cursor =
      .ok (some found, cursor)) (hkind : found.kind = .begin number)
    (hallowed : isRunaway env found.index (state.reached env found cursor) = false)
    (hignored : ((askAll (env.info found) (beginHooks (env.lexer.mode number)) {}).run
      default).1.1 = .ignore) (before : Trace) :
    ∃ after, Returns (step env nested state) before
      (if env.text.size < (state.afterIgnored env found cursor).index
        then .done (state.afterIgnored env found cursor)
        else .more (state.afterIgnored env found cursor)) after := by
  have hask : ∃ data after, Gives (askAll (env.info found)
      (beginHooks (env.lexer.mode number)) {}) before (.ignore, data) after := by
    have hsteady := steady_askAll (env.info found) (beginHooks (env.lexer.mode number)) {}
    refine ⟨_, _, Prod.ext (Prod.ext ?_ rfl) rfl⟩
    rw [hsteady before default, hignored]
  obtain ⟨data, after, hask⟩ := hask
  have hbegin : Returns (begin env nested number found
      { state.reached env found cursor with lastMatch := some (found.kind, found.index) }) before
      (ignore env found.index
        { state.reached env found cursor with lastMatch := some (found.kind, found.index) })
      after := by
    simp only [begin]
    refine returns_bind_iff.mpr ⟨_, _, returns_lift_iff.mpr hask, ?_⟩
    simp only [if_true]
    exact returns_pure_iff.mpr ⟨rfl, rfl⟩
  have hempty : emptyMode? found (state.reached env found cursor) = none := by
    unfold emptyMode?
    rw [hkind]
    split <;> rfl
  have hhandle : Returns (handle env nested found (state.reached env found cursor)) before
      (ignore env found.index
        { state.reached env found cursor with lastMatch := some (found.kind, found.index) })
      after := by
    simp only [handle, hallowed, hempty, hkind, Bool.false_eq_true, if_false]
    rw [hkind] at hbegin
    exact hbegin
  rw [step_eq, hfind]
  exact ⟨after, returns_bind_iff.mpr ⟨_, _, hhandle, returns_pure_iff.mpr ⟨rfl, rfl⟩⟩⟩

/-- Where the search of a scan starts. -/
def State.searchStart (state : State) : Candidate :=
  ⟨state.index, state.begun.cursor⟩

/-- After an ignored match, the next search starts behind it. -/
theorem searchStart_afterIgnored (env : Env) (set : RuleSet) (state : State) {found : RuleMatch}
    (hposition : candidate.position = found.index) :
    (state.afterIgnored env found (set.cursorAfter candidate.rule)).searchStart =
      set.startAfter candidate := by
  obtain ⟨-, hcursor, hindex⟩ :=
    afterIgnored_eq env found (set.cursorAfter candidate.rule) state
  rw [State.searchStart, hcursor, hindex, RuleSet.startAfter, hposition]

/-- Every search starts behind the one before it, so that the candidates bound their number. -/
theorem seek_exhausts_from {fuel : Nat} {state : State} (isVetoed : Candidate → Bool)
    (hset : (state.top env).rules = set)
    (hfinds : set.FindsLeftmost env.text isMatch)
    (hcursor : state.begun.cursor ≤ set.rules.length - 1)
    (hfuel : (env.text.size + 1) * (set.rules.length + 1) ≤
      fuel + state.searchStart.place (set.rules.length + 1)) (hpositive : 0 < fuel) :
    ∃ result, seek env isVetoed fuel state = some result ∧
      Exhausts set env.text isMatch isVetoed state.searchStart result := by
  induction fuel generalizing state with
  | zero => cases hpositive
  | succ fuel ih =>
    obtain ⟨⟨found, cursor⟩, hfind, hfirst⟩ :=
      RuleSet.find_foundFirst hfinds state.index state.begun.cursor hcursor
    simp only [seek, hset, hfind]
    cases found with
    | none =>
      refine ⟨_, rfl, fun other hother hnot => absurd (hfirst other hother) hnot, .nil, ?_⟩
      intro other
      simp only [List.not_mem_nil, false_iff, not_and, Decidable.not_not]
      exact hfirst other
    | some found =>
      obtain ⟨candidate, hposition, rfl, hmatches, hafter, hleast⟩ := hfirst
      have hvisit : (⟨found.index, set.ruleBefore (set.cursorAfter candidate.rule)⟩ : Candidate) =
          candidate := by
        rw [RuleSet.ruleBefore_cursorAfter hmatches.rule, ← hposition]
      simp only [hvisit]
      cases hvetoed : isVetoed candidate with
      | false =>
        refine ⟨_, rfl, hposition.symm, hmatches, hafter, hvetoed,
          fun other hother hnot _ => hleast other hother hnot,
          List.pairwise_singleton _ _, fun other => ?_⟩
        rw [List.mem_singleton]
        constructor
        · rintro rfl
          exact ⟨hmatches, hafter, Candidate.not_before_self _⟩
        · rintro ⟨hother, hnot, hle⟩
          exact Candidate.eq_of_not_before (hleast other hother hnot) hle
      | true =>
        simp only [if_true]
        have hnext := searchStart_afterIgnored env set state hposition
        obtain ⟨hframes, hcursor', -⟩ :=
          afterIgnored_eq env found (set.cursorAfter candidate.rule) state
        split
        · next hend =>
          exact ⟨_, rfl, .cons hmatches hafter hleast hvetoed (.nil (by rwa [← hnext]))⟩
        · next hinside =>
          have hbehind := set.startAfter_rule_le candidate
          have hrule : state.searchStart.rule < set.rules.length + 1 :=
            Nat.lt_succ_of_le (Nat.le_trans hcursor (Nat.sub_le _ _))
          have hplace : state.searchStart.place (set.rules.length + 1) <
              (set.startAfter candidate).place (set.rules.length + 1) :=
            Nat.lt_of_le_of_lt (Candidate.place_le_of_not_before hafter hrule)
              ((set.before_startAfter candidate).place_lt (Nat.lt_succ_of_lt hmatches.rule))
          have hbound : (set.startAfter candidate).place (set.rules.length + 1) <
              (env.text.size + 1) * (set.rules.length + 1) :=
            Candidate.place_lt (by rw [← hnext]; exact Nat.le_of_not_lt hinside) (by omega)
          obtain ⟨⟨visited, sought⟩, hseek, hexhausts⟩ := ih
            (by rw [State.top, hframes]; exact hset) (by rw [hcursor']; exact hbehind)
            (by rw [hnext]; omega) (by omega)
          rw [hnext] at hexhausts
          exact ⟨_, by rw [hseek]; rfl, .cons hmatches hafter hleast hvetoed hexhausts⟩

/-- Searches that go on past vetoed matches, as a scan does past ignored ones, visit the matches of
all rules in order, each of them once, and stop at the first one that is not vetoed. -/
theorem seek_exhausts {fuel : Nat} {state : State} (hset : (state.top env).rules = set)
    (hfinds : set.FindsLeftmost env.text isMatch) (hresume : state.resume = false)
    (hfuel : (env.text.size + 1) * (set.rules.length + 1) ≤ fuel)
    (isVetoed : Candidate → Bool) :
    ∃ result, seek env isVetoed fuel state = some result ∧
      Exhausts set env.text isMatch isVetoed ⟨state.index, 0⟩ result := by
  have hcursor : state.begun.cursor = 0 := by simp [State.begun, hresume]
  have hbound := Nat.mul_pos env.text.size.succ_pos set.rules.length.succ_pos
  have hseek := seek_exhausts_from isVetoed hset hfinds (by rw [hcursor]; exact Nat.zero_le _)
    (Nat.le_trans hfuel (Nat.le_add_right _ _)) (Nat.lt_of_lt_of_le hbound hfuel)
  rwa [State.searchStart, hcursor] at hseek

/-- Two rules that both match at a letter `a`. -/
def overlapping : List Rule := [⟨"a", .begin 1⟩, ⟨"[ab]", .begin 2⟩]

/-- A lexer whose top mode has the two rules. -/
def overlappingLexer : Lexer where
  name := "overlapping"
  ignoreCase := false
  scopeAliases := []
  modes := #[{ (default : LexerMode) with
    rules := (RuleSet.build false overlapping).toOption.getD {} }]

/-- A scan of a text with the two rules. -/
def overlappingEnv : Env where
  lexer := overlappingLexer
  language := "overlapping"
  text := #['a', 'b']
  options := ⟨false, false⟩
  settings := {}

/-- The expressions of the two rules alone. -/
def overlappingRegexes : List Regex :=
  overlapping.map fun rule =>
    ((Regex.compileFrom (Regex.startFlags false) rule.source).toOption.getD default).1

theorem overlapping_findsLeftmost :
    (overlappingEnv.lexer.mode Lexer.root).rules.FindsLeftmost overlappingEnv.text
      (RuleSet.MatchesAlone overlappingRegexes overlappingEnv.text) := by
  have hrules : (overlappingEnv.lexer.mode Lexer.root).rules =
      (RuleSet.build false overlapping).toOption.getD {} := rfl
  obtain ⟨hok, hjoined⟩ : (RuleSet.build false overlapping).isOk = true ∧
      ∀ left ≤ overlapping.length - 1,
        ((overlappingEnv.lexer.mode Lexer.root).rules.joinedFrom left).isOk = true := by
    decide +kernel
  have hbuild : RuleSet.build false overlapping =
      .ok (overlappingEnv.lexer.mode Lexer.root).rules := by
    rw [hrules]
    exact eq_ok_of_isOk hok {}
  have hsecond : JoinedRules.Alone (Regex.startFlags false) (overlapping.drop 1)
      (overlappingRegexes.drop 1) :=
    .cons (by decide +kernel) (by cbv) (by decide +kernel) rfl .nil
  have halone : ∀ left, JoinedRules.Alone (Regex.startFlags false) (overlapping.drop left)
      (overlappingRegexes.drop left) := by
    rintro (_ | _ | left)
    · exact .cons (by decide +kernel) (by cbv) (by decide +kernel) rfl hsecond
    · exact hsecond
    · simpa [overlapping, overlappingRegexes] using .nil
  exact RuleSet.findsLeftmost_of_build hbuild halone
    (fun left hleft => exists_ok_of_isOk (hjoined left hleft)) overlappingEnv.text

/-- Both rules are vetoed at the letter `a`, so that the search comes to the letter `b`. -/
theorem seek_overlapping :
    (overlappingEnv.lexer.mode Lexer.root).rules.FindsLeftmost overlappingEnv.text
      (RuleSet.MatchesAlone overlappingRegexes overlappingEnv.text) ∧
    ∃ result, seek overlappingEnv (fun candidate => candidate.position == 0) 9 {} = some result ∧
      result.1 = [⟨0, 0⟩, ⟨0, 1⟩, ⟨1, 1⟩] ∧
      Exhausts (overlappingEnv.lexer.mode Lexer.root).rules overlappingEnv.text
        (RuleSet.MatchesAlone overlappingRegexes overlappingEnv.text)
        (fun candidate => candidate.position == 0) ⟨0, 0⟩ result := by
  obtain ⟨result, hseek, hexhausts⟩ := @seek_exhausts overlappingEnv _ _ 9 {} rfl
    overlapping_findsLeftmost rfl (by decide +kernel) (fun candidate => candidate.position == 0)
  have hvisited : (seek overlappingEnv (fun candidate => candidate.position == 0) 9 {}).map (·.1) =
      some [⟨0, 0⟩, ⟨0, 1⟩, ⟨1, 1⟩] := by decide +kernel
  rw [hseek, Option.map_some, Option.some.injEq] at hvisited
  exact ⟨overlapping_findsLeftmost, result, hseek, hvisited, hexhausts⟩

end Scan

end Highlighter
