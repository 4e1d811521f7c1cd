import Highlighter.Proofs.Lexer.Renumbering
import Highlighter.Proofs.Lexer.Search
import Highlighter.Proofs.Outline.Pruning

/-!
# Rules without idle ones

A rule is idle when it begins a mode whose hooks ignore every match. A search among rules from which
idle ones have been left out finds what a search among all rules comes to once it has gone on past
the matches of the idle ones.
-/

namespace Highlighter

/-- A mode whose begin matches are all ignored. -/
def LexerMode.IsIdle (mode : LexerMode) : Prop :=
  ∃ hook, mode.onBegin = some hook ∧ hook.Ignores

namespace RuleSet

/-- No empty end match is found at a position. -/
def EndsBeyond (set : RuleSet) (text : Array Char) (position : Nat) : Prop :=
  ∀ start cursor found after, cursor ≤ set.rules.length - 1 →
    set.find text start cursor = .ok (some found, after) → found.kind = .finish →
    found.index = position → Scan.width found ≠ 0

/-- A candidate of fewer rules, among all of them. -/
def lift (place : Nat → Nat) (candidate : Candidate) : Candidate :=
  ⟨candidate.position, place candidate.rule⟩

/-- A rule set has the rules of another one, at the places given by `place`, but for some that begin
idle modes. Where one of those matches, there is no empty end match. -/
structure Thins (R : Nat → Nat → Prop) (isIdle : Nat → Prop) (text : Array Char)
    (isMatch isMatch' : Nat → Nat → Prop) (place : Nat → Nat) (set set' : RuleSet) : Prop where
  finds : set.FindsLeftmost text isMatch
  finds' : set'.FindsLeftmost text isMatch'
  mono : ∀ rule rule', rule < rule' ↔ place rule < place rule'
  within : ∀ rule < set'.rules.length, place rule < set.rules.length
  isMatch : ∀ rule < set'.rules.length, ∀ position,
    isMatch' rule position ↔ isMatch (place rule) position
  alike : ∀ start cursor found after start' cursor' found' after',
    cursor ≤ set.rules.length - 1 → cursor' ≤ set'.rules.length - 1 →
    set.find text start cursor = .ok (some found, after) →
    set'.find text start' cursor' = .ok (some found', after') →
    set.ruleBefore after = place (set'.ruleBefore after') → found.index = found'.index →
    found.Alike R found'
  idle : ∀ start cursor found after, cursor ≤ set.rules.length - 1 →
    set.find text start cursor = .ok (some found, after) →
    (∀ rule < set'.rules.length, place rule ≠ set.ruleBefore after) →
    ∃ number, found.kind = .begin number ∧ isIdle number ∧ set.EndsBeyond text found.index

/-- From two starts on, two rule sets have the same matches ahead, but for those of idle rules. -/
def Aligned (set' : RuleSet) (text : Array Char) (isMatch' : Nat → Nat → Prop)
    (place : Nat → Nat) (start start' : Candidate) : Prop :=
  ∀ candidate, set'.Matches text isMatch' candidate →
    ((lift place candidate).Before start ↔ candidate.Before start')

section Thins

variable {R : Nat → Nat → Prop} {isIdle : Nat → Prop} {text : Array Char}
  {isMatch isMatch' : Nat → Nat → Prop} {place : Nat → Nat} {set set' : RuleSet}
  {start start' candidate other : Candidate} {found : RuleMatch}

theorem Thins.lift_before (h : set.Thins R isIdle text isMatch isMatch' place set')
    (candidate other : Candidate) :
    (lift place candidate).Before (lift place other) ↔ candidate.Before other := by
  unfold Candidate.Before lift
  rw [h.mono candidate.rule other.rule]

theorem Thins.matches_lift (h : set.Thins R isIdle text isMatch isMatch' place set')
    (hmatches : set'.Matches text isMatch' candidate) :
    set.Matches text isMatch (lift place candidate) where
  rule := h.within _ hmatches.rule
  position := hmatches.position
  isMatch := (h.isMatch _ hmatches.rule _).mp hmatches.isMatch

theorem aligned_same (position : Nat) :
    Aligned set' text isMatch' place ⟨position, 0⟩ ⟨position, 0⟩ := by
  intro candidate _
  unfold Candidate.Before lift
  simp only [Nat.not_lt_zero, and_false, or_false]

/-- Matches of rules that both sets have come behind matches that are counterparts. -/
theorem Thins.aligned_startAfter (h : set.Thins R isIdle text isMatch isMatch' place set')
    (hmatches : set'.Matches text isMatch' candidate) :
    Aligned set' text isMatch' place (set.startAfter (lift place candidate))
      (set'.startAfter candidate) := by
  intro other hother
  rw [← not_iff_not,
    not_before_startAfter_iff (h.matches_lift hmatches).rule (h.matches_lift hother).rule,
    not_before_startAfter_iff hmatches.rule hother.rule, h.lift_before]

/-- A first match of an idle rule leaves the matches of the other rules ahead. -/
theorem Thins.before_startAfter_iff (h : set.Thins R isIdle text isMatch isMatch' place set')
    (hmatches : set.Matches text isMatch candidate)
    (hafter : ¬ candidate.Before start)
    (hleast : ∀ other, set.Matches text isMatch other → ¬ other.Before start →
      ¬ other.Before candidate)
    (hidle : ∀ rule < set'.rules.length, place rule ≠ candidate.rule)
    (hother : set'.Matches text isMatch' other) :
    (lift place other).Before (set.startAfter candidate) ↔ (lift place other).Before start := by
  have hlifted := h.matches_lift hother
  rw [← not_iff_not, not_before_startAfter_iff hmatches.rule hlifted.rule]
  constructor
  · intro hbefore hstart
    exact hafter (hbefore.trans hstart)
  · intro hstart
    refine Decidable.byContradiction fun hnot => ?_
    have heq := Candidate.eq_of_not_before (hleast _ hlifted hstart) hnot
    exact hidle other.rule hother.rule (congrArg Candidate.rule heq)

/-- Where nothing is found among all rules, nothing is found among fewer of them. -/
theorem Thins.find_nothing (h : set.Thins R isIdle text isMatch isMatch' place set')
    (hcursor : start'.rule ≤ set'.rules.length - 1)
    (hnone : ∀ candidate, set'.Matches text isMatch' candidate → candidate.Before start') :
    ∃ cursor, set'.find text start'.position start'.rule = .ok (none, cursor) := by
  obtain ⟨⟨found, cursor⟩, hfind, hfirst⟩ :=
    find_foundFirst h.finds' start'.position start'.rule hcursor
  cases found with
  | none => exact ⟨cursor, hfind⟩
  | some found =>
    obtain ⟨candidate, -, -, hmatches, hafter, -⟩ := hfirst
    exact absurd (hnone candidate hmatches) hafter

/-- The first match among all rules, if it is not that of an idle rule, is found among the others as
well. -/
theorem Thins.find_kept (h : set.Thins R isIdle text isMatch isMatch' place set')
    (hcursor : start.rule ≤ set.rules.length - 1) (hcursor' : start'.rule ≤ set'.rules.length - 1)
    (haligned : Aligned set' text isMatch' place start start')
    (hmatches : set'.Matches text isMatch' candidate)
    (hfind : set.find text start.position start.rule =
      .ok (some found, set.cursorAfter (place candidate.rule)))
    (hposition : candidate.position = found.index)
    (hafter : ¬ (lift place candidate).Before start)
    (hleast : ∀ other, set.Matches text isMatch other → ¬ other.Before start →
      ¬ other.Before (lift place candidate)) :
    ∃ found', set'.find text start'.position start'.rule =
        .ok (some found', set'.cursorAfter candidate.rule) ∧
      found.Alike R found' ∧ ¬ candidate.Before start' := by
  have hafter' : ¬ candidate.Before start' := fun hbefore =>
    hafter ((haligned candidate hmatches).mpr hbefore)
  obtain ⟨⟨found', cursor'⟩, hfind', hfirst⟩ :=
    find_foundFirst h.finds' start'.position start'.rule hcursor'
  cases found' with
  | none => exact absurd (hfirst candidate hmatches) hafter'
  | some found' =>
    obtain ⟨first, hposition', rfl, hfirst, hbehind, hleast'⟩ := hfirst
    have hnot : ¬ first.Before candidate := by
      intro hbefore
      refine hleast _ (h.matches_lift hfirst) ?_ ((h.lift_before first candidate).mpr hbefore)
      exact fun hstart => hbehind ((haligned first hfirst).mp hstart)
    obtain rfl : first = candidate :=
      Candidate.eq_of_not_before hnot (hleast' candidate hmatches hafter')
    refine ⟨found', hfind', ?_, hafter'⟩
    refine h.alike _ _ _ _ _ _ _ _ hcursor hcursor' hfind hfind' ?_ ?_
    · rw [ruleBefore_cursorAfter (h.within _ hmatches.rule), ruleBefore_cursorAfter hmatches.rule]
    · rw [← hposition, ← hposition']

end Thins

end RuleSet

/-! ## Rules that stand alone -/

/-- The expression of a rule alone. -/
def Rule.regex (ignoreCase : Bool) (rule : Rule) : Regex :=
  ((Regex.compileFrom (Regex.startFlags ignoreCase) rule.source).toOption.map (·.1)).getD default

/-- A rule that matches among others as it does alone, and leaves no flags in force for them. -/
structure Rule.StandsAlone (ignoreCase : Bool) (rule : Rule) : Prop where
  clear : Pattern.IsClear rule.source.toList
  compiles : Regex.compileFrom (Regex.startFlags ignoreCase) rule.source =
    .ok (rule.regex ignoreCase, Regex.startFlags ignoreCase)
  count : Pattern.countGroups rule.source = (rule.regex ignoreCase).groups

/-- A rule stands alone where its source can be read and the flags come out as they went in: what
the source is read as needs no comparison. -/
theorem Rule.standsAlone_iff {ignoreCase : Bool} {rule : Rule} :
    rule.StandsAlone ignoreCase ↔ Pattern.IsClear rule.source.toList ∧
      (Regex.compileFrom (Regex.startFlags ignoreCase) rule.source).toOption.map (·.2) =
        some (Regex.startFlags ignoreCase) ∧
      Pattern.countGroups rule.source = (rule.regex ignoreCase).groups := by
  constructor
  · rintro ⟨hclear, hcompiles, hcount⟩
    exact ⟨hclear, by rw [hcompiles]; rfl, hcount⟩
  · rintro ⟨hclear, hflags, hcount⟩
    refine ⟨hclear, ?_, hcount⟩
    unfold Rule.regex
    cases hread : Regex.compileFrom (Regex.startFlags ignoreCase) rule.source with
    | error _ =>
      rw [hread] at hflags
      cases hflags
    | ok result =>
      rw [hread] at hflags
      obtain ⟨regex, flags⟩ := result
      obtain rfl : flags = Regex.startFlags ignoreCase := Option.some.inj hflags
      rfl

instance (ignoreCase : Bool) (rule : Rule) : Decidable (rule.StandsAlone ignoreCase) :=
  decidable_of_iff _ Rule.standsAlone_iff.symm

theorem Outline.anywhere_standsAlone (ignoreCase : Bool) :
    (⟨Outline.anywhere, .finish⟩ : Rule).StandsAlone ignoreCase := by
  cases ignoreCase <;> decide +kernel

theorem JoinedRules.Alone.of_standsAlone {ignoreCase : Bool} {rules : List Rule}
    (h : ∀ rule ∈ rules, rule.StandsAlone ignoreCase) :
    Alone (Regex.startFlags ignoreCase) rules (rules.map (·.regex ignoreCase)) := by
  induction rules with
  | nil => exact .nil
  | cons rule rules ih =>
    obtain ⟨hrule, hrules⟩ := List.forall_mem_cons.mp h
    exact .cons hrule.clear hrule.compiles hrule.count rfl (ih hrules)

/-- Rules that stand alone can be read alone whichever of them are left to try. -/
theorem RuleSet.spansMatch_of_standsAlone {ignoreCase : Bool} {rules : List Rule} {set : RuleSet}
    (hbuild : RuleSet.build ignoreCase rules = .ok set)
    (h : ∀ rule ∈ rules, rule.StandsAlone ignoreCase) : set.SpansMatch :=
  RuleSet.spansMatch_of_build hbuild fun _ =>
    ⟨_, .of_standsAlone fun rule hmem => h rule (List.mem_of_mem_drop hmem)⟩

namespace RuleSet

variable {R : Nat → Nat → Prop} {isIdle : Nat → Prop} {ignoreCase : Bool} {rules rules' : List Rule}
  {set set' : RuleSet} {text : Array Char} {found : RuleMatch} {start cursor after : Nat}

/-- Whichever rules are left to try, they can be joined. -/
def Joinable (set : RuleSet) : Prop :=
  ∀ first, first ≤ set.rules.length - 1 → ∃ joined, set.joinedFrom first = .ok joined

/-- The rules of a set match as they do alone. -/
abbrev MatchesByRule (ignoreCase : Bool) (rules : List Rule) (text : Array Char) :
    Nat → Nat → Prop :=
  MatchesAlone (rules.map (·.regex ignoreCase)) text

theorem findsLeftmost_of_standsAlone (hset : build ignoreCase rules = .ok set)
    (halone : ∀ rule ∈ rules, rule.StandsAlone ignoreCase) (hjoined : set.Joinable)
    (text : Array Char) : set.FindsLeftmost text (MatchesByRule ignoreCase rules text) := by
  refine findsLeftmost_of_build hset (fun first => ?_) ?_ text
  · rw [← List.map_drop]
    exact .of_standsAlone fun rule hmem => halone rule (List.mem_of_mem_drop hmem)
  · rw [← (build_eq_ok hset).1]
    exact hjoined

/-- A match is that of the rule at a place, and it is what this rule matches alone. -/
def IsMatchOf (ignoreCase : Bool) (rules : List Rule) (text : Array Char) (found : RuleMatch)
    (place : Nat) : Prop :=
  ∃ rule hit, rules[place]? = some rule ∧ found.kind = rule.kind ∧
    (rule.regex ignoreCase).matchAt? text found.index = some hit ∧
    JoinedRules.HasGroups found (rule.regex ignoreCase) hit

/-- The rules from any number on find the match of a rule alone. -/
theorem isMatchOf_of_joinedFrom (hset : build ignoreCase rules = .ok set)
    (halone : ∀ rule ∈ rules, rule.StandsAlone ignoreCase) {first : Nat} {joined : JoinedRules}
    (hfirst : first ≤ set.rules.length - 1) (hjoined : set.joinedFrom first = .ok joined)
    (hfound : joined.find? text start = some found) :
    IsMatchOf ignoreCase rules text found (first + found.position) := by
  have hbuild := build_of_joinedFrom hset ((build_eq_ok hset).1 ▸ hfirst) hjoined
  obtain ⟨-, -, -, rule, regex, hit, hrule, hkind, hfirstAt, hgroups⟩ :=
    JoinedRules.find?_eq_some_alone hbuild
      (.of_standsAlone fun rule hmem => halone rule (List.mem_of_mem_drop hmem)) hfound
  have hregex := hfirstAt.listed
  rw [List.getElem?_map, hrule] at hregex
  cases hregex
  rw [List.getElem?_drop] at hrule
  exact ⟨rule, hit, hrule, hkind, hfirstAt.hit, hgroups⟩

/-- What a search answers is the match of a rule alone, where the matches it chooses from are. -/
theorem isMatchOf_of_answer (hset : build ignoreCase rules = .ok set) (base : Nat)
    (answer : Option RuleMatch) :
    (∀ found, answer = some found →
      IsMatchOf ignoreCase rules text found (base + found.position)) →
    (match answer with
      | none => pure (none, cursor)
      | some found => pure (some found, set.cursorAfter (base + found.position)) :
        Except Regex.Error (Option RuleMatch × Nat)) = .ok (some found, after) →
    IsMatchOf ignoreCase rules text found (set.ruleBefore after) := by
  intro hanswer heq
  cases answer with
  | none => cases heq
  | some answer =>
    cases heq
    have hmatch := hanswer _ rfl
    have ⟨rule, _, hrule, _⟩ := hmatch
    have hlisted := (List.getElem?_eq_some_iff.mp hrule).1
    rw [← (build_eq_ok hset).1] at hlisted
    rwa [ruleBefore_cursorAfter hlisted]

/-- What a search finds is the match of a rule alone. -/
theorem isMatchOf_of_find (hset : build ignoreCase rules = .ok set)
    (halone : ∀ rule ∈ rules, rule.StandsAlone ignoreCase)
    (hcursor : cursor ≤ set.rules.length - 1)
    (hfind : set.find text start cursor = .ok (some found, after)) :
    IsMatchOf ignoreCase rules text found (set.ruleBefore after) := by
  unfold find at hfind
  obtain ⟨joined, hjoined, hfind⟩ := ok_of_bind_eq_ok hfind
  by_cases hresume :
      (decide (cursor ≠ 0) && (joined.find? text start).map (·.index) != some start) = true
  · simp only [hresume, if_true] at hfind
    refine isMatchOf_of_answer hset 0 _ (fun other hother => ?_) hfind
    split at hother
    · exact isMatchOf_of_joinedFrom hset halone (Nat.zero_le _) rfl hother
    · cases hother
  · simp only [hresume, Bool.false_eq_true, if_false] at hfind
    exact isMatchOf_of_answer hset cursor _
      (fun other hother => isMatchOf_of_joinedFrom hset halone hcursor hjoined hother) hfind

/-! ## Leaving idle rules out -/

/-- Rules, and related ones without some of those that begin idle modes. -/
inductive Thinned (R : Nat → Nat → Prop) (isIdle : Nat → Prop) : List Rule → List Rule → Prop where
  | nil : Thinned R isIdle [] []
  | kept {rule rule' : Rule} {rules rules' : List Rule} (hrule : rule.Alike R rule')
      (hrest : Thinned R isIdle rules rules') : Thinned R isIdle (rule :: rules) (rule' :: rules')
  | dropped {rule : Rule} {number : Nat} {rules rules' : List Rule}
      (hkind : rule.kind = .begin number) (hidle : isIdle number)
      (hrest : Thinned R isIdle rules rules') : Thinned R isIdle (rule :: rules) rules'

theorem Thinned.of_alike (h : List.Forall₂ (Rule.Alike R) rules rules') :
    Thinned R isIdle rules rules' := by
  induction h with
  | nil => exact .nil
  | cons hrule _ ih => exact .kept hrule ih

theorem Thinned.append {later later' : List Rule} (h : Thinned R isIdle rules rules')
    (hlater : Thinned R isIdle later later') :
    Thinned R isIdle (rules ++ later) (rules' ++ later') := by
  induction h with
  | nil => exact hlater
  | kept hrule _ ih => exact .kept hrule ih
  | dropped hkind hidle _ ih => exact .dropped hkind hidle ih

/-- Wherever an idle rule matches, the end rules match some text or not at all. -/
def EndsApart (ignoreCase : Bool) (isIdle : Nat → Prop) (text : Array Char) (rules : List Rule) :
    Prop :=
  ∀ rule ∈ rules, ∀ number, rule.kind = .begin number → isIdle number →
    ∀ ending ∈ rules, ending.kind = .finish → ∀ position ≤ text.size, ∀ hit ended,
      (rule.regex ignoreCase).matchAt? text position = some hit →
      (ending.regex ignoreCase).matchAt? text position = some ended → position < ended.span.stop

/-- Whether the end rules match some text or not at all wherever any begin rule matches. -/
def beginsApart (ignoreCase : Bool) (text : Array Char) (rules : List Rule) : Bool :=
  rules.all fun rule => rules.all fun ending =>
    rule.kind = .finish || ending.kind ≠ .finish ||
      (List.range (text.size + 1)).all fun position =>
        ((rule.regex ignoreCase).matchAt? text position).isNone ||
          ((ending.regex ignoreCase).matchAt? text position).all (position < ·.span.stop)

theorem EndsApart.of_beginsApart (h : beginsApart ignoreCase text rules = true) :
    EndsApart ignoreCase isIdle text rules := by
  intro rule hrule number hkind _ ending hending hfinish position hposition hit ended hhit hended
  simp only [beginsApart, List.all_eq_true, Bool.or_eq_true, decide_eq_true_eq] at h
  rcases h rule hrule ending hending with (hends | hbegins) | hall
  · cases hkind.symm.trans hends
  · exact absurd hfinish hbegins
  · have hapart := hall position (List.mem_range.mpr (Nat.lt_succ_of_le hposition))
    rw [hhit, hended] at hapart
    simpa using hapart

/-- The places of the rules that are left among all rules. -/
theorem Thinned.exists_place (h : Thinned R isIdle rules rules') :
    ∃ place : Nat → Nat, (∀ rule rule', rule < rule' ↔ place rule < place rule') ∧
      (∀ left rule', rules'[left]? = some rule' →
        ∃ rule, rules[place left]? = some rule ∧ rule.Alike R rule') ∧
      ∀ listed rule, rules[listed]? = some rule →
        (∀ left < rules'.length, place left ≠ listed) →
        ∃ number, rule.kind = .begin number ∧ isIdle number := by
  induction h with
  | nil => exact ⟨id, fun _ _ => Iff.rfl, nofun, nofun⟩
  | @kept rule rule' rules rules' hrule _ ih =>
    obtain ⟨place, hmono, hplace, hdropped⟩ := ih
    refine ⟨fun left => left.casesOn 0 (place · + 1), ?_, ?_, ?_⟩
    · rintro (_ | left) (_ | left')
      · simp
      · simp
      · simp
      · simpa using hmono left left'
    · rintro (_ | left) other hother
      · cases hother
        exact ⟨rule, rfl, hrule⟩
      · exact hplace left other hother
    · rintro (_ | listed) other hother hnot
      · exact absurd rfl (hnot 0 (Nat.succ_pos _))
      · refine hdropped listed other hother fun left hleft heq => ?_
        exact hnot (left + 1) (Nat.succ_lt_succ hleft) (congrArg (· + 1) heq)
  | @dropped rule number rules rules' hkind hidle _ ih =>
    obtain ⟨place, hmono, hplace, hdropped⟩ := ih
    refine ⟨fun left => place left + 1, ?_, hplace, ?_⟩
    · intro left left'
      rw [hmono left left', Nat.add_lt_add_iff_right]
    · rintro (_ | listed) other hother hnot
      · cases hother
        exact ⟨number, hkind, hidle⟩
      · exact hdropped listed other hother fun left hleft heq =>
          hnot left hleft (congrArg (· + 1) heq)

theorem regex_alike {rule rule' : Rule} (h : rule.Alike R rule') :
    rule.regex ignoreCase = rule'.regex ignoreCase := by
  rw [Rule.regex, Rule.regex, h.source]

/-- Matches of related rules at one position are related. -/
theorem alike_of_isMatchOf {found' : RuleMatch} {place place' : Nat}
    (h : IsMatchOf ignoreCase rules text found place)
    (h' : IsMatchOf ignoreCase rules' text found' place') (hindex : found.index = found'.index)
    (hrules : ∀ rule rule', rules[place]? = some rule → rules'[place']? = some rule' →
      rule.Alike R rule') : found.Alike R found' := by
  obtain ⟨rule, hit, hrule, hkind, hhit, hgroups⟩ := h
  obtain ⟨rule', hit', hrule', hkind', hhit', hgroups'⟩ := h'
  have halike := hrules rule rule' hrule hrule'
  rw [regex_alike halike, hindex] at hhit
  cases hhit.symm.trans hhit'
  rw [regex_alike halike] at hgroups
  refine ⟨hindex, fun number => ?_, ?_⟩
  · by_cases hown : number ≤ (rule'.regex ignoreCase).groups
    · rw [hgroups.own number hown, hgroups'.own number hown]
    · have hlater := Nat.lt_of_not_le hown
      rw [hgroups.later number hlater, hgroups'.later number hlater]
  · rw [hkind, hkind']
    exact halike.kind

theorem index_le_of_find {isMatch : Nat → Nat → Prop} (h : set.FindsLeftmost text isMatch)
    (hcursor : cursor ≤ set.rules.length - 1)
    (hfind : set.find text start cursor = .ok (some found, after)) : found.index ≤ text.size := by
  obtain ⟨⟨_, _⟩, hfind', hfirst⟩ := find_foundFirst h start cursor hcursor
  cases hfind.symm.trans hfind'
  obtain ⟨candidate, hposition, -, hmatches, -⟩ := hfirst
  exact hposition ▸ hmatches.position

/-- Rules that stand alone find the same without some of the idle ones. -/
theorem Thinned.thins (h : Thinned R isIdle rules rules')
    (hset : build ignoreCase rules = .ok set) (hset' : build ignoreCase rules' = .ok set')
    (halone : ∀ rule ∈ rules, rule.StandsAlone ignoreCase) (hjoined : set.Joinable)
    (hjoined' : set'.Joinable) (hapart : EndsApart ignoreCase isIdle text rules) :
    ∃ place, set.Thins R isIdle text (MatchesByRule ignoreCase rules text)
      (MatchesByRule ignoreCase rules' text) place set' := by
  obtain ⟨place, hmono, hplace, hdropped⟩ := h.exists_place
  have hrules := (build_eq_ok hset).1
  have hrules' := (build_eq_ok hset').1
  have hlisted : ∀ left < rules'.length, ∃ rule rule', rules[place left]? = some rule ∧
      rules'[left]? = some rule' ∧ rule.Alike R rule' := by
    intro left hleft
    have hget := List.getElem?_eq_getElem hleft
    obtain ⟨rule, hrule, halike⟩ := hplace left _ hget
    exact ⟨rule, _, hrule, hget, halike⟩
  have halone' : ∀ rule' ∈ rules', rule'.StandsAlone ignoreCase := by
    intro rule' hmem
    obtain ⟨left, hleft⟩ := List.mem_iff_getElem?.mp hmem
    obtain ⟨rule, hrule, halike⟩ := hplace left rule' hleft
    obtain ⟨hclear, hcompiles, hcount⟩ := halone rule (List.mem_of_getElem? hrule)
    rw [halike.source] at hclear hcompiles hcount
    rw [regex_alike halike] at hcompiles hcount
    exact ⟨hclear, hcompiles, hcount⟩
  refine ⟨place, findsLeftmost_of_standsAlone hset halone hjoined text,
    findsLeftmost_of_standsAlone hset' halone' hjoined' text, hmono, ?_, ?_, ?_, ?_⟩
  · intro left hleft
    rw [hrules'] at hleft
    obtain ⟨rule, -, hrule, -⟩ := hlisted left hleft
    rw [hrules]
    exact (List.getElem?_eq_some_iff.mp hrule).1
  · intro left hleft position
    rw [hrules'] at hleft
    obtain ⟨rule, rule', hrule, hrule', halike⟩ := hlisted left hleft
    simp only [MatchesByRule, MatchesAlone, List.getElem?_map, hrule, hrule', Option.map_some,
      regex_alike halike]
  · intro start cursor found after start' cursor' found' after' hcursor hcursor' hfind hfind' hsame
      hindex
    refine alike_of_isMatchOf (isMatchOf_of_find hset halone hcursor hfind)
      (isMatchOf_of_find hset' halone' hcursor' hfind') hindex fun rule rule' hrule hrule' => ?_
    obtain ⟨other, hother, halike⟩ := hplace _ _ hrule'
    rw [hsame, hother] at hrule
    cases hrule
    exact halike
  · intro start cursor found after hcursor hfind hnot
    obtain ⟨rule, hit, hrule, hkind, hhit, -⟩ := isMatchOf_of_find hset halone hcursor hfind
    have hwithin := index_le_of_find (findsLeftmost_of_standsAlone hset halone hjoined text)
      hcursor hfind
    obtain ⟨number, hnumber, hidle⟩ := hdropped _ rule hrule (hrules' ▸ hnot)
    refine ⟨number, hkind.trans hnumber, hidle, ?_⟩
    intro start' cursor' found' after' hcursor' hfind' hfinish hindex hwidth
    obtain ⟨ending, ended, hending, hkind', hended, hgroups⟩ :=
      isMatchOf_of_find hset halone hcursor' hfind'
    rw [hindex] at hended
    have hless := hapart rule (List.mem_of_getElem? hrule) number hnumber hidle ending
      (List.mem_of_getElem? hending) (hkind'.symm.trans hfinish) found.index hwithin hit
      ended hhit hended
    have hspan : found'.span = ended.span := by
      rw [RuleMatch.span, hgroups.own 0 (Nat.zero_le _)]
      rfl
    have hstart : ended.span.start = found.index := by
      obtain ⟨state, -, rfl⟩ := Option.map_eq_some_iff.mp hended
      rfl
    rw [Scan.width, hspan, hstart] at hwidth
    omega

end RuleSet

end Highlighter
