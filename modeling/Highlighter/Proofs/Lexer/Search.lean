import Highlighter.Proofs.Lexer.Joined

/-!
# Where a search finds a match

A search starts at a position, and there with one of the rules. When the rules from any number on,
joined, find their leftmost match and the first of the rules that match there, the search finds the
first match at or after its start, by position and then by rule.
-/

namespace Highlighter

/-- A rule, by its place among the rules of a mode, and a position at which it may match. -/
structure Candidate where
  position : Nat
  rule : Nat
  deriving DecidableEq, Repr

namespace Candidate

/-- Candidates are tried by position, and by rule at one position. -/
def Before (first second : Candidate) : Prop :=
  first.position < second.position ∨
    first.position = second.position ∧ first.rule < second.rule

instance (first second : Candidate) : Decidable (first.Before second) :=
  inferInstanceAs (Decidable (_ ∨ _))

theorem Before.trans {first second third : Candidate} (h : first.Before second)
    (h' : second.Before third) : first.Before third := by
  unfold Before at *
  omega

theorem not_before_self (candidate : Candidate) : ¬ candidate.Before candidate := by
  unfold Before
  omega

theorem eq_of_not_before {first second : Candidate} (h : ¬ first.Before second)
    (h' : ¬ second.Before first) : first = second := by
  obtain ⟨position, rule⟩ := first
  obtain ⟨position', rule'⟩ := second
  unfold Before at h h'
  simp only at h h'
  obtain rfl : position = position' := by omega
  obtain rfl : rule = rule' := by omega
  rfl

/-- The place of a candidate when all of them are lined up, `width` to a position. -/
def place (width : Nat) (candidate : Candidate) : Nat :=
  candidate.position * width + candidate.rule

theorem Before.place_lt {width : Nat} {first second : Candidate} (h : first.Before second)
    (hrule : first.rule < width) : first.place width < second.place width := by
  unfold place
  rcases h with hless | ⟨heq, hless⟩
  · have hmul := Nat.mul_le_mul_right width (Nat.succ_le_of_lt hless)
    rw [Nat.succ_mul] at hmul
    omega
  · rw [heq]
    omega

theorem place_le_of_not_before {width : Nat} {first second : Candidate}
    (h : ¬ second.Before first) (hrule : first.rule < width) :
    first.place width ≤ second.place width := by
  by_cases hbefore : first.Before second
  · exact Nat.le_of_lt (hbefore.place_lt hrule)
  · exact Nat.le_of_eq (congrArg (place width) (eq_of_not_before hbefore h))

/-- The places of the candidates in a text lie below a bound. -/
theorem place_lt {width : Nat} {text : Array Char} {candidate : Candidate}
    (hposition : candidate.position ≤ text.size) (hrule : candidate.rule < width) :
    candidate.place width < (text.size + 1) * width := by
  have hmul := Nat.mul_le_mul_right width hposition
  rw [Nat.succ_mul]
  unfold place
  omega

end Candidate

namespace RuleSet

variable {set : RuleSet} {text : Array Char} {isMatch : Nat → Nat → Prop}

/-- A candidate whose rule matches at its position. -/
structure Matches (set : RuleSet) (text : Array Char) (isMatch : Nat → Nat → Prop)
    (candidate : Candidate) : Prop where
  rule : candidate.rule < set.rules.length
  position : candidate.position ≤ text.size
  isMatch : isMatch candidate.rule candidate.position

/-- However many rules are left to try, a search finds the leftmost match of any of them, and the
first of the rules that match there. -/
structure FindsLeftmost (set : RuleSet) (text : Array Char) (isMatch : Nat → Nat → Prop) :
    Prop where
  joined : ∀ first, first ≤ set.rules.length - 1 → ∃ joined, set.joinedFrom first = .ok joined
  nothing : ∀ first joined start, first ≤ set.rules.length - 1 →
    set.joinedFrom first = .ok joined → joined.find? text start = none →
    ∀ candidate, set.Matches text isMatch candidate → first ≤ candidate.rule →
      candidate.position < start
  found : ∀ first joined start found, first ≤ set.rules.length - 1 →
    set.joinedFrom first = .ok joined → joined.find? text start = some found →
    set.Matches text isMatch ⟨found.index, first + found.position⟩ ∧ start ≤ found.index ∧
      ∀ candidate, set.Matches text isMatch candidate → first ≤ candidate.rule →
        start ≤ candidate.position →
        ¬ candidate.Before ⟨found.index, first + found.position⟩

/-- The rule that has matched, by the cursor for the search after it. -/
def ruleBefore (set : RuleSet) (cursor : Nat) : Nat :=
  if cursor = 0 then set.rules.length - 1 else cursor - 1

/-- The cursor for the search after a match of a rule. -/
def cursorAfter (set : RuleSet) (rule : Nat) : Nat :=
  if set.rules.length ≤ rule + 1 then 0 else rule + 1

theorem ruleBefore_cursorAfter {rule : Nat} (h : rule < set.rules.length) :
    set.ruleBefore (set.cursorAfter rule) = rule := by
  unfold ruleBefore cursorAfter
  split
  · rw [if_pos rfl]
    omega
  · rw [if_neg (Nat.succ_ne_zero rule)]
    rfl

/-- Where the search after a match starts: at the next rule, or at the next character when the match
is that of the last rule. -/
def startAfter (set : RuleSet) (candidate : Candidate) : Candidate :=
  ⟨candidate.position + if set.cursorAfter candidate.rule = 0 then 1 else 0,
    set.cursorAfter candidate.rule⟩

theorem startAfter_rule_le (set : RuleSet) (candidate : Candidate) :
    (set.startAfter candidate).rule ≤ set.rules.length - 1 := by
  unfold startAfter cursorAfter
  simp only
  split <;> omega

/-- Behind a match there are the candidates that come after it, and no others. -/
theorem not_before_startAfter_iff {candidate other : Candidate}
    (hrule : candidate.rule < set.rules.length) (hother : other.rule < set.rules.length) :
    ¬ other.Before (set.startAfter candidate) ↔ candidate.Before other := by
  unfold startAfter cursorAfter Candidate.Before
  split
  · simp only [if_true]
    omega
  · simp only [Nat.add_one_ne_zero, if_false]
    omega

theorem before_startAfter (set : RuleSet) (candidate : Candidate) :
    candidate.Before (set.startAfter candidate) := by
  unfold startAfter cursorAfter Candidate.Before
  split
  · simp only [if_true]
    omega
  · simp only [Nat.add_one_ne_zero, if_false]
    omega

/-- The first candidate that a search may find. -/
def FoundFirst (set : RuleSet) (text : Array Char) (isMatch : Nat → Nat → Prop)
    (start : Candidate) : Option RuleMatch × Nat → Prop
  | (none, _) => ∀ candidate, set.Matches text isMatch candidate → candidate.Before start
  | (some found, cursor) => ∃ candidate : Candidate, candidate.position = found.index ∧
      cursor = set.cursorAfter candidate.rule ∧ set.Matches text isMatch candidate ∧
      ¬ candidate.Before start ∧
      ∀ other, set.Matches text isMatch other → ¬ other.Before start → ¬ other.Before candidate

/-- Where the rules from `first` on find nothing at a position, none of them matches there. -/
theorem FindsLeftmost.position_ne (hfinds : set.FindsLeftmost text isMatch) {first start : Nat}
    {joined : JoinedRules} (hfirst : first ≤ set.rules.length - 1)
    (hjoined : set.joinedFrom first = .ok joined)
    (hmiss : (joined.find? text start).map (·.index) ≠ some start) {candidate : Candidate}
    (hmatches : set.Matches text isMatch candidate) (hrule : first ≤ candidate.rule) :
    candidate.position ≠ start := by
  intro heq
  cases hfind : joined.find? text start with
  | none =>
    have hless := hfinds.nothing first joined start hfirst hjoined hfind candidate hmatches hrule
    omega
  | some found =>
    obtain ⟨-, hle, hleast⟩ := hfinds.found first joined start found hfirst hjoined hfind
    have hnot := hleast candidate hmatches hrule (by omega)
    rw [hfind, Option.map_some, ne_eq, Option.some.injEq] at hmiss
    unfold Candidate.Before at hnot
    simp only at hnot
    omega

/-- A search finds the first match at or after its start, which is a position together with the rule
to try first there. -/
theorem find_foundFirst (hfinds : set.FindsLeftmost text isMatch) (start cursor : Nat)
    (hcursor : cursor ≤ set.rules.length - 1) :
    ∃ result, set.find text start cursor = .ok result ∧
      set.FoundFirst text isMatch ⟨start, cursor⟩ result := by
  obtain ⟨joined, hjoined⟩ := hfinds.joined cursor hcursor
  have hzero : set.joinedFrom 0 = .ok set.joined := rfl
  simp only [find, hjoined, bind, Except.bind]
  by_cases hresume : (cursor ≠ 0 && (joined.find? text start).map (·.index) != some start) = true
  · -- the later rules do not match at the start, so all rules are tried behind it
    simp only [hresume, if_true]
    simp only [Bool.and_eq_true, bne_iff_ne, decide_eq_true_eq] at hresume
    have hbehind : ∀ candidate, set.Matches text isMatch candidate →
        ¬ candidate.Before ⟨start, cursor⟩ → start + 1 ≤ candidate.position := by
      intro candidate hmatches hafter
      unfold Candidate.Before at hafter
      simp only at hafter
      have hne := fun hrule => hfinds.position_ne hcursor hjoined hresume.2 hmatches hrule
      omega
    by_cases hinside : start < text.size
    · simp only [hinside, if_true]
      cases hfind : set.joined.find? text (start + 1) with
      | none =>
        refine ⟨_, rfl, fun candidate hmatches => Decidable.byContradiction fun hafter => ?_⟩
        have hless := hfinds.nothing 0 _ _ (Nat.zero_le _) hzero hfind candidate hmatches
          (Nat.zero_le _)
        have hle := hbehind candidate hmatches hafter
        omega
      | some found =>
        obtain ⟨hmatches, hle, hleast⟩ :=
          hfinds.found 0 _ _ found (Nat.zero_le _) hzero hfind
        refine ⟨_, rfl, _, rfl, rfl, hmatches, ?_, fun other hother hafter =>
          hleast other hother (Nat.zero_le _) (hbehind other hother hafter)⟩
        unfold Candidate.Before
        simp only
        omega
    · simp only [hinside, if_false]
      refine ⟨_, rfl, fun candidate hmatches => Decidable.byContradiction fun hafter => ?_⟩
      have hle := hbehind candidate hmatches hafter
      have hposition := hmatches.position
      omega
  · simp only [hresume, Bool.false_eq_true, if_false]
    simp only [Bool.and_eq_true, bne_iff_ne, decide_eq_true_eq, not_and, Decidable.not_not]
      at hresume
    cases hfind : joined.find? text start with
    | none =>
      have hstart : cursor = 0 := by
        refine Decidable.byContradiction fun hpositive => ?_
        have hfound := hresume hpositive
        rw [hfind] at hfound
        cases hfound
      refine ⟨_, rfl, fun candidate hmatches => .inl ?_⟩
      exact hfinds.nothing cursor _ _ hcursor hjoined hfind candidate hmatches (by omega)
    | some found =>
      have hstart : cursor = 0 ∨ found.index = start := by
        refine Decidable.or_iff_not_imp_left.mpr fun hpositive => ?_
        have hfound := hresume hpositive
        rw [hfind] at hfound
        cases hfound
        rfl
      obtain ⟨hmatches, hle, hleast⟩ := hfinds.found cursor _ _ found hcursor hjoined hfind
      refine ⟨_, rfl, _, rfl, rfl, hmatches, ?_, fun other hother hafter => ?_⟩
      · unfold Candidate.Before
        simp only
        omega
      · have hnot := hleast other hother
        unfold Candidate.Before at hafter hnot ⊢
        simp only at hafter hnot ⊢
        omega

/-- A rule matches at a position as it does alone. -/
def MatchesAlone (regexes : List Regex) (text : Array Char) (rule position : Nat) : Prop :=
  ∃ regex hit, regexes[rule]? = some regex ∧ regex.matchAt? text position = some hit

/-- The rules from any number on are joined in the same way as all of them. -/
theorem build_of_joinedFrom {ignoreCase : Bool} {rules : List Rule} {first : Nat}
    {joined : JoinedRules} (hbuild : build ignoreCase rules = .ok set)
    (hfirst : first ≤ rules.length - 1) (hjoined : set.joinedFrom first = .ok joined) :
    JoinedRules.build ignoreCase (rules.drop first) = .ok joined := by
  obtain ⟨all, hall, hpure⟩ := ok_of_bind_eq_ok hbuild
  cases hpure
  unfold joinedFrom at hjoined
  split at hjoined
  · next hzero =>
    cases hjoined
    rw [hzero, List.drop_zero]
    exact hall
  · rwa [Nat.min_eq_left hfirst] at hjoined

/-- Rules that can be read alone, whichever of them are left out in front, find their leftmost
match. -/
theorem findsLeftmost_of_build {ignoreCase : Bool} {rules : List Rule} {regexes : List Regex}
    (hbuild : build ignoreCase rules = .ok set)
    (halone : ∀ first, JoinedRules.Alone (Regex.startFlags ignoreCase) (rules.drop first)
      (regexes.drop first))
    (hjoined : ∀ first, first ≤ rules.length - 1 → ∃ joined, set.joinedFrom first = .ok joined)
    (text : Array Char) : set.FindsLeftmost text (MatchesAlone regexes text) := by
  have hrules : set.rules = rules := by
    obtain ⟨_, _, hpure⟩ := ok_of_bind_eq_ok hbuild
    cases hpure
    rfl
  -- a rule that matches alone is among those that are left when `first` of them are left out
  have hlisted : ∀ candidate first, set.Matches text (MatchesAlone regexes text) candidate →
      first ≤ candidate.rule → ∃ regex hit,
        (regexes.drop first)[candidate.rule - first]? = some regex ∧
          regex.matchAt? text candidate.position = some hit := by
    intro candidate first hmatches hle
    obtain ⟨regex, hit, hregex, hhit⟩ := hmatches.isMatch
    refine ⟨regex, hit, ?_, hhit⟩
    rw [List.getElem?_drop, Nat.add_sub_cancel' hle]
    exact hregex
  constructor
  · rw [hrules]
    exact hjoined
  · intro first joined start hfirst hjoin hfind candidate hmatches hle
    rw [hrules] at hfirst
    have hnone := (JoinedRules.find?_eq_none_iff (build_of_joinedFrom hbuild hfirst hjoin)
      (halone first)).mp hfind
    obtain ⟨regex, hit, hregex, hhit⟩ := hlisted candidate first hmatches hle
    refine Nat.lt_of_not_le fun hstart => ?_
    have hmiss := hnone _ hstart hmatches.position regex (List.mem_of_getElem? hregex)
    cases hmiss.symm.trans hhit
  · intro first joined start found hfirst hjoin hfind
    rw [hrules] at hfirst
    obtain ⟨hle, hwithin, hearlier, rule, regex, hit, hrule, -, hfirstAt, -⟩ :=
      JoinedRules.find?_eq_some_alone (build_of_joinedFrom hbuild hfirst hjoin) (halone first) hfind
    have hlist := hfirstAt.listed
    rw [List.getElem?_drop] at hrule hlist
    refine ⟨⟨?_, hwithin, regex, hit, hlist, hfirstAt.hit⟩, hle, ?_⟩
    · rw [hrules]
      exact (List.getElem?_eq_some_iff.mp hrule).1
    · intro candidate hmatches hcandidate hstart hbefore
      obtain ⟨other, otherHit, hother, hotherHit⟩ := hlisted candidate first hmatches hcandidate
      rcases hbefore with hless | ⟨hsame, hless⟩
      · have hmiss := hearlier _ hstart hless other (List.mem_of_getElem? hother)
        cases hmiss.symm.trans hotherHit
      · simp only at hsame hless
        have hmem : other ∈ (regexes.drop first).take found.position :=
          List.mem_of_getElem? (i := candidate.rule - first)
            (by rw [List.getElem?_take_of_lt (by omega), hother])
        have hmiss := hfirstAt.earlier other hmem
        rw [← hsame] at hmiss
        cases hmiss.symm.trans hotherHit

end RuleSet

end Highlighter
