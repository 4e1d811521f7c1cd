import Highlighter.Proofs.Lexer.Rules
import Highlighter.Proofs.Regex.Choice
import Mathlib

/-!
# Joined rules match as they do alone

Rules are joined into one expression, and the group that took part tells which of them has matched.
Where every source refers to groups by plain numbers and has its groups counted right, the first
match of the joined expression is the leftmost match of any rule, among several rules there it is
that of the first one, and the groups are those of that rule alone. A rule alone is read with the
flags in force that the rules before it leave, since flags that a source sets outside of its groups
stay in force to the right of it.
-/

namespace Highlighter

namespace Regex

/-- The expression of a source that is read with the given flags in force, and the flags that are in
force at its end. -/
def compileFrom (flags : Flags) (source : String) : Except Error (Regex × Flags) := do
  let (tree, progress, rest) ← Tree.readExpression Tree.maxLevels { flags := flags } source.toList
  if rest.isEmpty then
    return (⟨← tree.plan progress.referenced false, progress.groups⟩, progress.flags)
  else throw .unexpectedClose

/-- The flags in force before the first rule. -/
def startFlags (ignoreCase : Bool) : Flags :=
  { ignoreCase := ignoreCase, multiLine := true }

theorem compile_eq (ignoreCase : Bool) (source : String) :
    compile ignoreCase source = (compileFrom (startFlags ignoreCase) source).map (·.1) := by
  simp only [compile, compileFrom, Tree.read, startFlags]
  generalize Tree.readExpression Tree.maxLevels _ source.toList = reading
  cases reading with
  | error error => rfl
  | ok result =>
    obtain ⟨tree, progress, rest⟩ := result
    cases rest with
    | cons c rest => rfl
    | nil =>
      simp only [bind, Except.bind, List.isEmpty_nil, if_true, pure, Except.pure]
      cases Tree.plan progress.referenced false tree <;> rfl

end Regex

namespace JoinedRules

variable {rules : List Rule} {joined : JoinedRules} {regexes : List Regex} {flags : Regex.Flags}
  {text : Array Char} {start : Nat} {found : RuleMatch} {ignoreCase : Bool}

/-- The expressions of rules alone, each read with the flags in force that the one before it leaves.
The sources refer to groups by plain numbers only, their groups are counted right, and none of them
goes on ignoring blanks. -/
inductive Alone : Regex.Flags → List Rule → List Regex → Prop where
  | nil {flags : Regex.Flags} : Alone flags [] []
  | cons {flags after : Regex.Flags} {rule : Rule} {rules : List Rule} {regex : Regex}
      {regexes : List Regex} (hclear : Pattern.IsClear rule.source.toList)
      (hcompile : Regex.compileFrom flags rule.source = .ok (regex, after))
      (hcount : Pattern.countGroups rule.source = regex.groups)
      (hblank : after.ignoreBlank = false) (hrest : Alone after rules regexes) :
      Alone flags (rule :: rules) (regex :: regexes)

theorem Alone.groups_eq (h : Alone flags rules regexes) :
    rules.map (fun rule => Pattern.countGroups rule.source) = regexes.map (·.groups) := by
  induction h with
  | nil => rfl
  | cons _ _ hcount _ _ ih => rw [List.map_cons, List.map_cons, hcount, ih]

/-- What rules alone read as. -/
theorem Alone.readInTurn (h : Alone flags rules regexes) :
    ∃ reads, Regex.Tree.ReadInTurn flags (rules.map (·.source)) reads ∧
      reads.map Regex.Tree.Source.regex = regexes.map .ok := by
  induction h with
  | nil => exact ⟨[], .nil, rfl⟩
  | @cons flags after rule rules regex regexes hclear hcompile hcount hblank _ ih =>
    obtain ⟨reads, hreads, hregexes⟩ := ih
    obtain ⟨⟨tree, progress, rest⟩, hread, hcompile⟩ := ok_of_bind_eq_ok hcompile
    simp only at hcompile
    split at hcompile
    · next hnil =>
      obtain ⟨program, hprogram, hpure⟩ := ok_of_bind_eq_ok hcompile
      cases hpure
      obtain rfl := List.isEmpty_iff.mp hnil
      refine ⟨_, .cons hclear hread hcount hblank hreads, ?_⟩
      rw [List.map_cons, List.map_cons, hregexes, Regex.Tree.Source.regex, hprogram]
      rfl
    · cases hcompile

/-- The first of several expressions that matches at a position, with its place among them. -/
structure FirstAt (regexes : List Regex) (text : Array Char) (position place : Nat) (regex : Regex)
    (hit : Regex.Match) : Prop where
  listed : regexes[place]? = some regex
  hit : regex.matchAt? text position = some hit
  earlier : ∀ other ∈ regexes.take place, other.matchAt? text position = none

theorem FirstAt.cons {position place : Nat} {first regex : Regex} {hit : Regex.Match}
    (hfirst : first.matchAt? text position = none)
    (h : FirstAt regexes text position place regex hit) :
    FirstAt (first :: regexes) text position (place + 1) regex hit where
  listed := h.listed
  hit := h.hit
  earlier other hmem := by
    rw [List.take_succ_cons, List.mem_cons] at hmem
    rcases hmem with rfl | hmem
    · exact hfirst
    · exact h.earlier other hmem

/-- A match of one of the joined expressions: it is the first of them that matches alone, and its
groups stand from number `group` on. -/
structure Attributed (regexes : List Regex) (text : Array Char) (position : Nat)
    (after : Regex.State) (group place : Nat) (regex : Regex) (alone : Regex.State) : Prop where
  first : FirstAt regexes text position place regex ⟨⟨position, alone.position⟩, alone.groups⟩
  grouped : Regex.State.Grouped group regex.groups position alone after

/-- Whichever of the programs matches, the entries lead to the rule it belongs to. -/
theorem matchedEntry_choices {groups position : Nat} {choices : List Regex.Program}
    {state after : Regex.State} (hchoices : Regex.Tree.Choices text groups regexes choices)
    (hrules : rules.map (fun rule => Pattern.countGroups rule.source) = regexes.map (·.groups))
    (hfresh : state.Fresh) (hposition : state.position = position)
    (h : (choices.findSome? fun choice => choice.run text some state) = some after) :
    ∃ group place rule regex alone, Attributed regexes text position after group place regex alone ∧
      groups < group ∧ group + regex.groups ≤ groups + (regexes.map (·.groups + 1)).sum ∧
      rules[place]? = some rule ∧
      ∀ origin, matchedEntry ⟨⟨position, after.position⟩, after.groups⟩ origin
          (groupEntries (groups + 1) rules) =
        some (group, rule.kind, origin + place, ⟨position, after.position⟩) := by
  induction hchoices generalizing rules with
  | nil => cases h
  | @cons groups regex regexes choice choices hfirst _ ih =>
    obtain ⟨rule, rules, rfl, (hcount : Pattern.countGroups rule.source = regex.groups), hrules⟩ :=
      List.map_eq_cons_iff.mp hrules
    have htries := hfirst { position := position } state (Regex.State.fresh_start position) hfresh
      hposition
    rw [List.findSome?_cons] at h
    cases halone : regex.program.run text some { position := position } with
    | some alone =>
      cases hrun : choice.run text some state with
      | none =>
        rw [halone, hrun] at htries
        cases htries
      | some after' =>
        rw [hrun] at h
        cases h
        rw [halone, hrun] at htries
        cases htries with
        | some hgrouped =>
        refine ⟨groups + 1, 0, rule, regex, alone, ⟨⟨rfl, ?_, ?_⟩, hgrouped⟩, ?_, ?_, rfl, ?_⟩
        · rw [Regex.matchAt?, halone]
          rfl
        · intro other hmem
          cases hmem
        · exact Nat.lt_succ_self groups
        · rw [List.map_cons, List.sum_cons]
          omega
        · intro origin
          rw [groupEntries, matchedEntry, Regex.Match.group?_of_state _ _ (Nat.succ_pos groups),
            hgrouped.whole, hgrouped.position]
          rfl
    | none =>
      cases hrun : choice.run text some state with
      | some after' =>
        rw [halone, hrun] at htries
        cases htries
      | none =>
        rw [hrun] at h
        obtain ⟨group, place, rule', regex', alone, hattributed, hless, hle, hrule, hentry⟩ :=
          ih hrules h
        have hmiss : regex.matchAt? text position = none := by
          rw [Regex.matchAt?, halone]
          rfl
        refine ⟨group, place + 1, rule', regex', alone,
          ⟨hattributed.first.cons hmiss, hattributed.grouped⟩, by omega, ?_, hrule, ?_⟩
        · rw [List.map_cons, List.sum_cons]
          omega
        · intro origin
          have hbelow := hattributed.grouped.below (groups + 1) (by omega)
          rw [groupEntries, matchedEntry, Regex.Match.group?_of_state _ _ (Nat.succ_pos groups),
            hbelow]
          have hnext := hentry (origin + 1)
          rw [Nat.add_right_comm origin 1 place] at hnext
          rw [hcount]
          exact hnext

/-- A position from which none of several expressions matches. -/
def NoneAt (regexes : List Regex) (text : Array Char) (position : Nat) : Prop :=
  ∀ regex ∈ regexes, regex.matchAt? text position = none

theorem findSome?_eq_none {groups position : Nat} {choices : List Regex.Program}
    {state : Regex.State} (hchoices : Regex.Tree.Choices text groups regexes choices)
    (hfresh : state.Fresh) (hposition : state.position = position) :
    (choices.findSome? fun choice => choice.run text some state) = none ↔
      NoneAt regexes text position := by
  induction hchoices with
  | nil => exact ⟨fun _ _ hmem => (List.not_mem_nil hmem).elim, fun _ => rfl⟩
  | @cons groups regex regexes choice choices hfirst _ ih =>
    have htries := hfirst { position := position } state (Regex.State.fresh_start position) hfresh
      hposition
    rw [List.findSome?_cons, NoneAt, List.forall_mem_cons, ← NoneAt, Regex.matchAt?,
      Option.map_eq_none_iff]
    cases halone : regex.program.run text some { position := position } <;>
      cases hrun : choice.run text some state <;> rw [halone, hrun] at htries
    · simp [ih]
    · cases htries
    · cases htries
    · simp

/-- A joined expression tries the expressions of the rules in turn, and its groups are theirs. -/
structure Joins (regex : Regex) (regexes : List Regex) (text : Array Char) : Prop where
  choices : ∃ choices, Regex.Tree.Choices text 0 regexes choices ∧
    Regex.Tree.RunsEach text regex.program choices
  groups : regex.groups = (regexes.map (·.groups + 1)).sum

theorem Joins.matchAt?_eq_none_iff {regex : Regex} (h : Joins regex regexes text)
    (position : Nat) : regex.matchAt? text position = none ↔ NoneAt regexes text position := by
  obtain ⟨choices, hchoices, hruns⟩ := h.choices
  obtain ⟨state, hfresh, hposition, hrun⟩ := hruns _ (Regex.State.fresh_start position)
  rw [Regex.matchAt?, hrun, Option.map_eq_none_iff, findSome?_eq_none hchoices hfresh hposition]

/-- The groups of a match are those of the match of an expression alone. -/
structure HasGroups (found : RuleMatch) (regex : Regex) (hit : Regex.Match) : Prop where
  own : ∀ number, number ≤ regex.groups → found.groups[number]? = some (hit.group? number)
  later : ∀ number, regex.groups < number → found.groups[number]?.join = none

/-- The groups from number `group` on are those of the match alone. -/
theorem Attributed.hasGroups {position group place total : Nat} {regex : Regex}
    {alone after : Regex.State} (h : Attributed regexes text position after group place regex alone)
    (hpositive : 0 < group) (hle : group + regex.groups ≤ total)
    (hfound : found.groups = (List.range' group (total + 1 - group)).map
      (⟨⟨position, after.position⟩, after.groups⟩ : Regex.Match).group?) :
    HasGroups found regex ⟨⟨position, alone.position⟩, alone.groups⟩ := by
  have hget : ∀ number, number < total + 1 - group →
      found.groups[number]? = some (after.group? (number + group)) := by
    intro number hless
    rw [hfound, List.getElem?_map, List.getElem?_range' hless, Nat.one_mul, Option.map_some,
      Regex.Match.group?_of_state _ _ (Nat.add_pos_left hpositive number),
      Nat.add_comm group number]
  constructor
  · intro number hnumber
    rw [hget number (by omega)]
    rcases Nat.eq_zero_or_pos number with rfl | hnumber'
    · rw [Nat.zero_add, h.grouped.whole]
      rfl
    · rw [h.grouped.moved number hnumber',
        Regex.Match.group?_of_state _ _ hnumber']
  · intro number hnumber
    by_cases hless : number < total + 1 - group
    · rw [hget number hless, h.grouped.moved number (by omega), h.grouped.beyond number hnumber]
      rfl
    · rw [hfound, List.getElem?_eq_none]
      · rfl
      · rw [List.length_map, List.length_range']
        omega

/-- What joined rules find at a position is the match of the first of the rules that match there. -/
theorem Joins.matchAt?_eq_some {regex : Regex} (h : Joins regex regexes text)
    (hrules : rules.map (fun rule => Pattern.countGroups rule.source) = regexes.map (·.groups))
    {position : Nat} {hit : Regex.Match} (hhit : regex.matchAt? text position = some hit) :
    ∃ group place rule own alone after,
      Attributed regexes text position after group place own alone ∧
      0 < group ∧ group + own.groups ≤ regex.groups ∧ rules[place]? = some rule ∧
      hit = ⟨⟨position, after.position⟩, after.groups⟩ ∧
      matchedEntry hit 0 (groupEntries 1 rules) = some (group, rule.kind, place, hit.span) := by
  obtain ⟨choices, hchoices, hruns⟩ := h.choices
  obtain ⟨state, hfresh, hposition, hrun⟩ := hruns _ (Regex.State.fresh_start position)
  rw [Regex.matchAt?, hrun, Option.map_eq_some_iff] at hhit
  obtain ⟨after, hafter, rfl⟩ := hhit
  obtain ⟨group, place, rule, own, alone, hattributed, hless, hle, hrule, hentry⟩ :=
    matchedEntry_choices hchoices hrules hfresh hposition hafter
  refine ⟨group, place, rule, own, alone, after, hattributed, hless, ?_, hrule, rfl, ?_⟩
  · rw [h.groups]
    omega
  · have hfirst := hentry 0
    rwa [Nat.zero_add place] at hfirst

theorem wrapGroups_eq {reads : List Regex.Tree.Source} (groups : Nat)
    (h : reads.map Regex.Tree.Source.regex = regexes.map .ok) :
    Regex.Tree.wrapGroups groups reads = groups + (regexes.map (·.groups + 1)).sum := by
  induction reads generalizing groups regexes with
  | nil =>
    cases regexes with
    | nil => rfl
    | cons regex regexes => cases h
  | cons read reads ih =>
    obtain ⟨program, others, -, rfl, hothers⟩ := Regex.Tree.map_regex_cons h
    rw [Regex.Tree.wrapGroups, ih _ hothers, List.map_cons, List.sum_cons, Nat.add_assoc groups,
      Nat.add_comm 1, Nat.add_assoc groups]

/-- Rules that can be read alone are joined by an expression that tries them in turn. -/
theorem joins_of_build (hbuild : build ignoreCase rules = .ok joined)
    (halone : Alone (Regex.startFlags ignoreCase) rules regexes) (hsome : rules ≠ []) :
    ∃ regex, joined.regex = some regex ∧ joined.entries = groupEntries 1 rules ∧
      ∀ text, Joins regex regexes text := by
  have hsources : rules.map (·.source) ≠ [] := fun hnil => hsome (List.map_eq_nil_iff.mp hnil)
  obtain ⟨reads, hreads, hregexes⟩ := halone.readInTurn
  have hreads' : reads ≠ [] := by
    rintro rfl
    generalize rules.map (·.source) = sources at hreads hsources
    cases hreads
    exact hsources rfl
  simp only [build, List.isEmpty_iff, if_neg hsome] at hbuild
  obtain ⟨regex, hcompile, hpure⟩ := ok_of_bind_eq_ok hbuild
  cases hpure
  obtain ⟨read, hread, hregex⟩ := ok_of_bind_eq_ok hcompile
  obtain ⟨hclosed, rfl⟩ := Regex.Tree.read_joinGroups hreads hsources hread
  obtain ⟨program, hprogram, hpure⟩ := ok_of_bind_eq_ok hregex
  cases hpure
  refine ⟨_, rfl, rfl, fun text => ⟨?_, ?_⟩⟩
  · exact Regex.Tree.exists_choices hreads' hclosed hregexes hprogram
  · rw [wrapGroups_eq 0 hregexes, Nat.zero_add]

/-- The group of the rule that has matched spans the match. -/
theorem spansMatch_of_build (hbuild : build ignoreCase rules = .ok joined)
    (halone : Alone (Regex.startFlags ignoreCase) rules regexes) : joined.SpansMatch := by
  intro regex hregex text start hit group kind position span hfind hentry
  have hsome : rules ≠ [] := by
    rintro rfl
    cases hbuild
    cases hregex
  obtain ⟨regex', hregex', hentries, hjoins⟩ := joins_of_build hbuild halone hsome
  cases hregex.symm.trans hregex'
  obtain ⟨place, _, _, hhit, _⟩ := Regex.findWithin_eq_some_iff.mp hfind
  obtain ⟨_, _, _, _, _, _, _, _, _, _, _, hfirst⟩ :=
    (hjoins text).matchAt?_eq_some halone.groups_eq hhit
  rw [← hentries] at hfirst
  cases hfirst.symm.trans hentry
  rfl

/-- Joined rules find nothing exactly where none of the rules alone matches. -/
theorem find?_eq_none_iff (hbuild : build ignoreCase rules = .ok joined)
    (halone : Alone (Regex.startFlags ignoreCase) rules regexes) :
    joined.find? text start = none ↔
      ∀ position, start ≤ position → position ≤ text.size → NoneAt regexes text position := by
  by_cases hsome : rules = []
  · subst hsome
    cases hbuild
    cases halone
    exact ⟨fun _ _ _ _ _ hmem => (List.not_mem_nil hmem).elim, fun _ => rfl⟩
  obtain ⟨regex, hregex, hentries, hjoins⟩ := joins_of_build hbuild halone hsome
  rw [find?, hregex]
  simp only [Option.bind_eq_bind, Option.bind_some, Option.pure_def]
  cases hmatch : regex.find? text start with
  | none =>
    have hnone := Regex.findWithin_eq_none_iff.mp hmatch
    simp only [Option.bind_none, true_iff]
    exact fun position hle hwithin =>
      ((hjoins text).matchAt?_eq_none_iff position).mp (hnone position hle (by omega))
  | some hit =>
    obtain ⟨position, hle, hless, hhit, -⟩ := Regex.findWithin_eq_some_iff.mp hmatch
    obtain ⟨_, _, _, _, _, _, _, _, _, _, _, hfirst⟩ :=
      (hjoins text).matchAt?_eq_some halone.groups_eq hhit
    simp only [hentries, hfirst, Option.bind_some, reduceCtorEq, false_iff]
    intro h
    have hmiss := ((hjoins text).matchAt?_eq_none_iff position).mpr (h position hle (by omega))
    rw [hmiss] at hhit
    cases hhit

/-- What joined rules find is made from the match of a rule alone: of the first one that matches at
the least position where any of them does. -/
theorem find?_attributed (hbuild : build ignoreCase rules = .ok joined)
    (halone : Alone (Regex.startFlags ignoreCase) rules regexes)
    (hfound : joined.find? text start = some found) :
    start ≤ found.index ∧ found.index ≤ text.size ∧
      (∀ position, start ≤ position → position < found.index → NoneAt regexes text position) ∧
      ∃ rule regex alone after group, rules[found.position]? = some rule ∧
        found.kind = rule.kind ∧
        Attributed regexes text found.index after group found.position regex alone ∧
        HasGroups found regex ⟨⟨found.index, alone.position⟩, alone.groups⟩ := by
  have hsome : rules ≠ [] := by
    rintro rfl
    cases hbuild
    cases hfound
  obtain ⟨regex, hregex, hentries, hjoins⟩ := joins_of_build hbuild halone hsome
  obtain ⟨regex', hit, group, span, hregex', hmatch, hentry, -, hindex, hgroups⟩ :=
    find?_eq_some hfound
  cases hregex.symm.trans hregex'
  obtain ⟨position, hle, hless, hhit, hearlier⟩ := Regex.findWithin_eq_some_iff.mp hmatch
  obtain ⟨group', place, rule, own, alone, after, hattributed, hpositive, hbound, hrule, rfl,
    hfirst⟩ := (hjoins text).matchAt?_eq_some halone.groups_eq hhit
  rw [hentries, hfirst] at hentry
  simp only [Option.some.injEq, Prod.mk.injEq] at hentry
  obtain ⟨rfl, hkind, hplace, rfl⟩ := hentry
  simp only at hindex
  rw [hindex, ← hplace, ← hkind]
  exact ⟨hle, by omega,
    fun earlier hstart hbefore =>
      ((hjoins text).matchAt?_eq_none_iff earlier).mp (hearlier earlier hstart hbefore),
    rule, own, alone, after, group', hrule, rfl, hattributed,
    hattributed.hasGroups hpositive hbound hgroups⟩

/-- What joined rules find is the match of a rule alone: of the first one that matches at the least
position where any of them does. -/
theorem find?_eq_some_alone (hbuild : build ignoreCase rules = .ok joined)
    (halone : Alone (Regex.startFlags ignoreCase) rules regexes)
    (hfound : joined.find? text start = some found) :
    start ≤ found.index ∧ found.index ≤ text.size ∧
      (∀ position, start ≤ position → position < found.index → NoneAt regexes text position) ∧
      ∃ rule regex hit, rules[found.position]? = some rule ∧ found.kind = rule.kind ∧
        FirstAt regexes text found.index found.position regex hit ∧ HasGroups found regex hit := by
  obtain ⟨hle, hwithin, hearlier, rule, regex, alone, after, group, hrule, hkind, hattributed,
    hgroups⟩ := find?_attributed hbuild halone hfound
  exact ⟨hle, hwithin, hearlier, rule, regex, _, hrule, hkind, hattributed.first, hgroups⟩

/-- Two rules, of which the first one sets a flag outside of its groups. -/
def flagged : List Rule := [⟨"(?i)a", .begin 1⟩, ⟨"b", .begin 2⟩]

/-- Two rules with groups, the second of which refers to its own group. -/
def grouped : List Rule := [⟨"(x)y", .begin 1⟩, ⟨"(a+)-\\1", .begin 2⟩]

end JoinedRules

/-- Where the rules can be read alone, whichever of them are left to try, the group of the matched
rule spans the whole match. -/
theorem RuleSet.spansMatch_of_build {ignoreCase : Bool} {rules : List Rule} {set : RuleSet}
    (hbuild : RuleSet.build ignoreCase rules = .ok set)
    (halone : ∀ first, ∃ regexes,
      JoinedRules.Alone (Regex.startFlags ignoreCase) (rules.drop first) regexes) :
    set.SpansMatch := by
  obtain ⟨joined, hjoined, hpure⟩ := ok_of_bind_eq_ok hbuild
  cases hpure
  intro first other hother
  unfold joinedFrom at hother
  split at hother
  · cases hother
    obtain ⟨regexes, hregexes⟩ := halone 0
    exact JoinedRules.spansMatch_of_build hjoined hregexes
  · obtain ⟨regexes, hregexes⟩ := halone (min first (rules.length - 1))
    exact JoinedRules.spansMatch_of_build hother hregexes

end Highlighter
