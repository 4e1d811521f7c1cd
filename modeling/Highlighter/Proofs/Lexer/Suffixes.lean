import Highlighter.Proofs.Lexer.Numbers
import Highlighter.Proofs.Lexer.Thinning
import Highlighter.Proofs.Regex.Suffix

/-!
# Rules that are left

After a match that was ignored, only the later rules are tried, and they are joined when they are
needed. Rules whose sources read on their own can be joined again without those before them, so a
search never fails once all rules have been joined.
-/

namespace Highlighter

/-- A rule whose source reads on its own and leaves the flags in force as they were. -/
def Rule.ReadsAlone (ignoreCase : Bool) (rule : Rule) : Prop :=
  ∃ tree alone, Regex.Tree.ReadsAlone (Regex.startFlags ignoreCase) rule.source tree alone

/-- Whether a rule refers to a group by its number while it names others. -/
def Rule.mixesReferences (ignoreCase : Bool) (rule : Rule) : Bool :=
  match Regex.Tree.readExpression Regex.Tree.maxLevels { flags := Regex.startFlags ignoreCase }
      rule.source.toList with
  | .ok (_, alone, _) => Regex.Tree.mixesReferences alone
  | .error _ => false

theorem Rule.ReadsAlone.of_standsAlone {ignoreCase : Bool} {rule : Rule}
    (h : rule.StandsAlone ignoreCase) : rule.ReadsAlone ignoreCase := by
  obtain ⟨⟨tree, alone, rest⟩, hread, hcompile⟩ := ok_of_bind_eq_ok h.compiles
  simp only at hcompile
  split at hcompile
  · next hnil =>
    obtain ⟨program, -, hpure⟩ := ok_of_bind_eq_ok hcompile
    obtain rfl := List.isEmpty_iff.mp hnil
    obtain ⟨hregex, hflags⟩ := Prod.mk.inj (Except.ok.inj hpure)
    refine ⟨tree, alone, h.clear, hread, ?_, hflags⟩
    rw [h.count, ← hregex]
  · cases hcompile

namespace JoinedRules

variable {ignoreCase : Bool} {rules before : List Rule} {rule : Rule} {joined : JoinedRules}

theorem build_isOk_iff (hsome : rules ≠ []) :
    (∃ joined, build ignoreCase rules = .ok joined) ↔
      ∃ read, Regex.Tree.read (Regex.startFlags ignoreCase)
          (Pattern.joinGroups "|" (rules.map (·.source))) = .ok read ∧
        Regex.Tree.Plans read.referenced read.tree := by
  have hempty : rules.isEmpty = false := List.isEmpty_eq_false_iff.mpr hsome
  unfold build
  rw [hempty, if_neg Bool.false_ne_true]
  constructor
  · rintro ⟨joined, h⟩
    obtain ⟨regex, hregex, -⟩ := ok_of_bind_eq_ok h
    obtain ⟨read, hread, h⟩ := ok_of_bind_eq_ok hregex
    obtain ⟨program, hprogram, -⟩ := ok_of_bind_eq_ok h
    exact ⟨read, hread, program, hprogram⟩
  · rintro ⟨read, hread, program, hprogram⟩
    have hregex : Regex.compile ignoreCase (Pattern.joinGroups "|" (rules.map (·.source))) =
        .ok ⟨program, read.groups⟩ :=
      (bind_eq_of_ok hread).trans (bind_eq_of_ok hprogram)
    exact ⟨_, bind_eq_of_ok hregex⟩

/-- The last ones of rules that can be joined can be joined as well. -/
theorem build_append (halone : ∀ other ∈ before ++ rule :: rules, other.ReadsAlone ignoreCase)
    (hsingle : rules = [] → rule.mixesReferences ignoreCase = false)
    (hbuild : build ignoreCase (before ++ rule :: rules) = .ok joined) :
    ∃ joined', build ignoreCase (rule :: rules) = .ok joined' := by
  obtain ⟨read, hread, hplans⟩ := (build_isOk_iff
    (List.append_ne_nil_of_right_ne_nil _ (List.cons_ne_nil _ _))).mp ⟨joined, hbuild⟩
  rw [build_isOk_iff (List.cons_ne_nil _ _), List.map_cons]
  rw [List.map_append, List.map_cons] at hread
  refine Regex.Tree.plans_joinGroups_append rfl (fun source hmem => ?_)
    (fun hnil tree alone hreads => ?_) hread hplans
  case refine_2 =>
    have hmixes := hsingle (List.map_eq_nil_iff.mp hnil)
    rwa [Rule.mixesReferences, hreads.read] at hmixes
  rw [← List.map_cons, ← List.map_append] at hmem
  obtain ⟨other, hother, rfl⟩ := List.mem_map.mp hmem
  exact halone other hother

end JoinedRules

namespace RuleSet

variable {ignoreCase : Bool} {rules : List Rule} {set : RuleSet}

/-- Whichever rules are left, they can be joined. -/
theorem build_drop (hset : build ignoreCase rules = .ok set)
    (halone : ∀ rule ∈ rules, rule.ReadsAlone ignoreCase)
    (hlast : ∀ rule, rules.getLast? = some rule →
      rule.mixesReferences ignoreCase = false) (first : Nat) :
    ∃ joined, JoinedRules.build ignoreCase (rules.drop first) = .ok joined := by
  cases hdrop : rules.drop first with
  | nil => exact ⟨_, rfl⟩
  | cons rule later =>
    have hrules : rules = rules.take first ++ rule :: later := by
      rw [← hdrop, List.take_append_drop]
    have hbuild := (build_eq_ok hset).2.2
    rw [hrules] at halone hbuild
    refine JoinedRules.build_append halone (fun hnil => hlast rule ?_) hbuild
    rw [hrules, hnil, List.getLast?_append_of_ne_nil _ (List.cons_ne_nil _ _)]
    rfl

/-- A search fails only where the rules from its first one on cannot be joined. -/
theorem find_isOk (hjoined : ∀ first, ∃ joined, set.joinedFrom first = .ok joined)
    (text : Array Char) (start cursor : Nat) : ∃ result, set.find text start cursor = .ok result := by
  obtain ⟨joined, hjoined⟩ := hjoined cursor
  unfold find
  rw [bind_eq_of_ok hjoined]
  dsimp only
  split
  · exact ⟨_, rfl⟩
  · exact ⟨_, rfl⟩

theorem joinedFrom_isOk (hset : build ignoreCase rules = .ok set)
    (halone : ∀ rule ∈ rules, rule.ReadsAlone ignoreCase)
    (hlast : ∀ rule, rules.getLast? = some rule →
      rule.mixesReferences ignoreCase = false) (first : Nat) :
    ∃ joined, set.joinedFrom first = .ok joined := by
  obtain ⟨hrules, hcase, -⟩ := build_eq_ok hset
  unfold joinedFrom
  split
  · exact ⟨_, rfl⟩
  · rw [hrules, hcase]
    exact build_drop hset halone hlast _

/-- Rules that have been joined can be joined without any number of the first ones, if each of them
reads on its own and the last one does not mix names and numbers. So no search in a mode of a lexer
that has these rules fails, wherever it starts and whichever rules are left to try. -/
theorem suffixes_build (hset : build ignoreCase rules = .ok set)
    (halone : ∀ rule ∈ rules, rule.ReadsAlone ignoreCase)
    (hlast : ∀ rule, rules.getLast? = some rule → rule.mixesReferences ignoreCase = false) :
    (∀ first, ∃ joined, JoinedRules.build ignoreCase (rules.drop first) = .ok joined) ∧
      (∀ text start cursor, ∃ result, set.find text start cursor = .ok result) ∧
      ∀ (grammar : Grammar) lexer number, grammar.compile = .ok lexer →
        (lexer.mode number).rules.rules = rules →
        (lexer.mode number).rules.ignoreCase = ignoreCase → ∀ text start cursor, ∃ result,
          (lexer.mode number).rules.find text start cursor = .ok result := by
  refine ⟨build_drop hset halone hlast, find_isOk (joinedFrom_isOk hset halone hlast), ?_⟩
  rintro grammar lexer number hcompile rfl rfl
  obtain ⟨ignoreCase, hmode⟩ := ((grammar.compile_linked hcompile).modes number).built
  rw [(build_eq_ok hmode).2.1] at halone hlast
  exact find_isOk (joinedFrom_isOk hmode halone hlast)

/-- A grammar whose top mode has rules with groups, names and references of their own. -/
def marks : Grammar where
  name := "marks"
  root := .of {} (["(?<x>b)|c", "[de](?i:f)", "(a+)-\\1|g"].map fun source =>
    .own (.of { wholePattern := some (.regex source) }))

/-- The rules of its top mode. -/
def markRules : List Rule :=
  [⟨"(?<x>b)|c", .begin 1⟩, ⟨"[de](?i:f)", .begin 2⟩, ⟨"(a+)-\\1|g", .begin 3⟩]

theorem suffixes_build_marks : ∃ set lexer, build false markRules = .ok set ∧
    (∀ text start cursor, ∃ result, set.find text start cursor = .ok result) ∧
    marks.compile = .ok lexer ∧ ∀ text start cursor, ∃ result,
      (lexer.mode 0).rules.find text start cursor = .ok result := by
  obtain ⟨hcompile, hstands, hmode⟩ : marks.compile.isOk = true ∧
      (∀ rule ∈ markRules, rule.StandsAlone false) ∧
      (marks.compile.toOption.map fun lexer =>
        ((lexer.mode 0).rules.rules, (lexer.mode 0).rules.ignoreCase)) =
          some (markRules, false) := by decide +kernel
  have halone : ∀ rule ∈ markRules, rule.ReadsAlone false :=
    fun rule hrule => .of_standsAlone (hstands rule hrule)
  have hlast : ∀ rule, markRules.getLast? = some rule → rule.mixesReferences false = false := by
    intro rule hrule
    cases hrule
    decide +kernel
  obtain ⟨lexer, hlexer⟩ := exists_ok_of_isOk hcompile
  rw [hlexer] at hmode
  obtain ⟨hrules, hcase⟩ := Prod.mk.inj (Option.some.inj hmode)
  -- the rules of the top mode have been joined already
  obtain ⟨ignoreCase, hset⟩ := ((marks.compile_linked hlexer).modes 0).built
  rw [hrules, ← (build_eq_ok hset).2.1, hcase] at hset
  obtain ⟨-, hfind, hmodes⟩ := suffixes_build hset halone hlast
  exact ⟨_, lexer, hset, hfind, hlexer, hmodes marks lexer 0 hlexer hrules hcase⟩

/-- Rules where the last one refers to a group that the first one names. -/
def crossing : List Rule := [⟨"(?<n>a)", .begin 1⟩, ⟨"b", .begin 2⟩, ⟨"c\\k<n>", .begin 3⟩]

/-- They can be joined, but the last one cannot be tried without the first one. -/
theorem crossing_fails : ∃ set, build false crossing = .ok set ∧
    JoinedRules.build false (crossing.drop 2) = .error .unknownGroup ∧
    set.find "b".toList.toArray 0 2 = .error .unknownGroup := by
  obtain ⟨hbuild, hfind⟩ : (build false crossing).isOk = true ∧
      ((build false crossing).toOption.getD {}).find "b".toList.toArray 0 2 =
        .error .unknownGroup := by decide +kernel
  exact ⟨_, eq_ok_of_isOk hbuild {}, by cbv, hfind⟩

end RuleSet

end Highlighter
