import Highlighter.Proofs.Lexer.Construction
import Highlighter.Proofs.Scan.Lockstep

/-!
# Lexers of one outline

Two numbers are related when they represent the same outline inside the same mode, each in its own
lexer. Modes with related numbers have the same properties, and rules with the same sources, which
find related matches: so two lexers that represent one outline do the same, however often a mode has
been built in the one or in the other.
-/

namespace Highlighter

/-- Two rules with the same source that stand for the same. -/
structure Rule.Alike (R : Nat → Nat → Prop) (rule rule' : Rule) : Prop where
  source : rule.source = rule'.source
  kind : rule.kind.Alike R rule'.kind

section Rules

variable {R : Nat → Nat → Prop} {rules rules' : List Rule}

theorem map_source_alike (h : List.Forall₂ (Rule.Alike R) rules rules') :
    rules.map (·.source) = rules'.map (·.source) := by
  induction h with
  | nil => rfl
  | cons hrule _ ih => rw [List.map_cons, List.map_cons, hrule.source, ih]

/-! ## Related rules find related matches -/

namespace JoinedRules

/-- The same expression, with groups for rules that stand for the same. -/
structure Alike (R : Nat → Nat → Prop) (joined joined' : JoinedRules) : Prop where
  regex : joined.regex = joined'.regex
  entries : List.Forall₂ (fun entry entry' => entry.1 = entry'.1 ∧ entry.2.Alike R entry'.2)
    joined.entries joined'.entries

variable {joined joined' : JoinedRules}

theorem groupEntries_alike (h : List.Forall₂ (Rule.Alike R) rules rules') (group : Nat) :
    List.Forall₂ (fun entry entry' => entry.1 = entry'.1 ∧ entry.2.Alike R entry'.2)
      (groupEntries group rules) (groupEntries group rules') := by
  induction h generalizing group with
  | nil => exact .nil
  | cons hrule _ ih =>
    rw [groupEntries, groupEntries, hrule.source]
    exact .cons ⟨rfl, hrule.kind⟩ (ih _)

/-- Rules with the same sources are joined into the same expression, or cannot be joined. -/
theorem build_alike (h : List.Forall₂ (Rule.Alike R) rules rules') (ignoreCase : Bool) :
    (∃ error, build ignoreCase rules = .error error ∧ build ignoreCase rules' = .error error) ∨
      ∃ joined joined', build ignoreCase rules = .ok joined ∧
        build ignoreCase rules' = .ok joined' ∧ joined.Alike R joined' := by
  unfold build
  have hempty : rules.isEmpty = rules'.isEmpty := by
    cases h <;> rfl
  rw [hempty, map_source_alike h]
  split
  · exact .inr ⟨_, _, rfl, rfl, rfl, .nil⟩
  · cases Regex.compile ignoreCase (Pattern.joinGroups "|" (rules'.map (·.source))) with
    | error error => exact .inl ⟨error, rfl, rfl⟩
    | ok regex => exact .inr ⟨_, _, rfl, rfl, rfl, groupEntries_alike h 1⟩

theorem matchedEntry_alike {entries entries' : List (Nat × RuleKind)}
    (h : List.Forall₂ (fun entry entry' => entry.1 = entry'.1 ∧ entry.2.Alike R entry'.2) entries
      entries') (found : Regex.Match) (position : Nat) :
    Option.Rel (fun entry entry' => entry.1 = entry'.1 ∧ entry.2.1.Alike R entry'.2.1 ∧
        entry.2.2 = entry'.2.2)
      (matchedEntry found position entries) (matchedEntry found position entries') := by
  induction h generalizing position with
  | nil => exact .none
  | @cons entry entry' _ _ hentry _ ih =>
    obtain ⟨group, kind⟩ := entry
    obtain ⟨group', kind'⟩ := entry'
    obtain ⟨hgroup, hkind⟩ := hentry
    simp only at hgroup hkind
    subst hgroup
    simp only [matchedEntry]
    split
    · exact .some ⟨rfl, hkind, rfl⟩
    · exact ih _

theorem find?_alike (h : joined.Alike R joined') (text : Array Char) (start : Nat) :
    Option.Rel (fun found found' => found.Alike R found' ∧ found.position = found'.position)
      (joined.find? text start) (joined'.find? text start) := by
  simp only [find?, h.regex]
  cases joined'.regex with
  | none => exact .none
  | some regex =>
    simp only [Option.bind_eq_bind, Option.bind_some]
    cases regex.find? text start with
    | none => exact .none
    | some hit =>
      have hentry := matchedEntry_alike h.entries hit 0
      simp only [Option.bind_some]
      generalize matchedEntry hit 0 joined.entries = entry at hentry ⊢
      generalize matchedEntry hit 0 joined'.entries = entry' at hentry ⊢
      cases hentry with
      | none => exact .none
      | @some entry entry' hsame =>
        obtain ⟨group, kind, rest⟩ := entry
        obtain ⟨group', kind', rest'⟩ := entry'
        obtain ⟨hgroup, hkind, hrest⟩ := hsame
        simp only at hgroup hkind hrest
        subst hgroup hrest
        exact .some ⟨⟨rfl, fun _ => rfl, hkind⟩, rfl⟩

end JoinedRules

namespace RuleSet

variable {ignoreCase : Bool} {set set' : RuleSet}

theorem build_eq_ok (h : build ignoreCase rules = .ok set) :
    set.rules = rules ∧ set.ignoreCase = ignoreCase ∧
      JoinedRules.build ignoreCase rules = .ok set.joined := by
  obtain ⟨joined, hjoined, hset⟩ := ok_of_bind_eq_ok h
  cases hset
  exact ⟨rfl, rfl, hjoined⟩

theorem joined_alike (h : List.Forall₂ (Rule.Alike R) rules rules')
    (hset : build ignoreCase rules = .ok set) (hset' : build ignoreCase rules' = .ok set') :
    set.joined.Alike R set'.joined := by
  have hwhole := JoinedRules.build_alike h ignoreCase
  rw [(build_eq_ok hset).2.2, (build_eq_ok hset').2.2] at hwhole
  obtain ⟨error, herror, -⟩ | ⟨joined, joined', hok, hok', halike⟩ := hwhole
  · cases herror
  · cases hok
    cases hok'
    exact halike

theorem joinedFrom_alike (h : List.Forall₂ (Rule.Alike R) rules rules')
    (hset : build ignoreCase rules = .ok set) (hset' : build ignoreCase rules' = .ok set')
    (first : Nat) :
    (∃ error, set.joinedFrom first = .error error ∧ set'.joinedFrom first = .error error) ∨
      ∃ joined joined', set.joinedFrom first = .ok joined ∧ set'.joinedFrom first = .ok joined' ∧
        joined.Alike R joined' := by
  obtain ⟨hrules, hcase, -⟩ := build_eq_ok hset
  obtain ⟨hrules', hcase', -⟩ := build_eq_ok hset'
  unfold joinedFrom
  split
  · exact .inr ⟨_, _, rfl, rfl, joined_alike h hset hset'⟩
  · rw [hrules, hrules', hcase, hcase', h.length_eq]
    exact JoinedRules.build_alike (List.forall₂_drop _ h) ignoreCase

theorem index_alike {found found' : Option RuleMatch}
    (h : Option.Rel (fun found found' => found.Alike R found' ∧ found.position = found'.position)
      found found') : found.map (·.index) = found'.map (·.index) := by
  cases h with
  | none => rfl
  | some hsame => exact congrArg some hsame.1.index

/-- Searches that choose among related matches answer alike. -/
theorem searchAlike_of_answers (base count cursor : Nat) (found found' : Option RuleMatch) :
    Option.Rel (fun found found' => found.Alike R found' ∧ found.position = found'.position)
        found found' →
      SearchAlike R
        (match found with
          | none => pure (none, cursor)
          | some found => pure (some found, if count ≤ base + found.position + 1 then 0
            else base + found.position + 1))
        (match found' with
          | none => pure (none, cursor)
          | some found => pure (some found, if count ≤ base + found.position + 1 then 0
            else base + found.position + 1)) := by
  intro hfound
  cases hfound with
  | none => exact .nothing _ _
  | some hsame =>
    simp only [hsame.2]
    exact .found hsame.1 _

/-- Rules with the same sources that stand for the same find related matches. -/
theorem find_alike (h : List.Forall₂ (Rule.Alike R) rules rules')
    (hset : build ignoreCase rules = .ok set) (hset' : build ignoreCase rules' = .ok set')
    (text : Array Char) (start cursor : Nat) :
    SearchAlike R (set.find text start cursor) (set'.find text start cursor) := by
  have hlength : set.rules.length = set'.rules.length := by
    rw [(build_eq_ok hset).1, (build_eq_ok hset').1, h.length_eq]
  unfold find
  obtain ⟨error, herror, herror'⟩ | ⟨joined, joined', hjoined, hjoined', halike⟩ :=
    joinedFrom_alike h hset hset' cursor
  · rw [herror, herror']
    exact .failed error
  · rw [hjoined, hjoined']
    have hfound := JoinedRules.find?_alike halike text start
    simp only [bind, Except.bind, hlength, index_alike hfound]
    by_cases hresume :
        (decide (cursor ≠ 0) && (joined'.find? text start).map (·.index) != some start) = true
    · by_cases hstart : start < text.size
      · simp only [hresume, hstart, if_true]
        exact searchAlike_of_answers 0 _ _ _ _
          (JoinedRules.find?_alike (joined_alike h hset hset') text (start + 1))
      · simp only [hresume, hstart, if_true, if_false]
        exact searchAlike_of_answers 0 0 _ none none .none
    · simp only [hresume, Bool.false_eq_true, if_false]
      exact searchAlike_of_answers cursor _ _ _ _ hfound

end RuleSet

end Rules

/-! ## Counterparts -/

namespace Lexer

variable {grammar : Grammar} {lexer lexer' : Lexer} {number number' : Nat}

/-- Two numbers that represent one outline, each in its own lexer. -/
def Counterparts (grammar : Grammar) (lexer lexer' : Lexer) (number number' : Nat) : Prop :=
  ∃ outer outline, lexer.Stands grammar outer outline number ∧
    lexer'.Stands grammar outer outline number'

theorem Counterparts.beginSource (h : Counterparts grammar lexer lexer' number number') :
    (lexer.mode number).beginSource = (lexer'.mode number').beginSource := by
  obtain ⟨outer, outline, hstands, hstands'⟩ := h
  obtain ⟨base, hbase, hsource⟩ := hstands.survey
  obtain ⟨base', hbase', hsource'⟩ := hstands'.survey
  cases hbase.symm.trans hbase'
  exact hsource.trans hsource'.symm

/-- The modes inside two modes are counterparts if these two are. -/
theorem RepresentsChildren.counterparts {terminator : Option String}
    {children : List (Option Outline)} {numbers numbers' : List Nat}
    (howner : Counterparts grammar lexer lexer' number number')
    (h : RepresentsChildren grammar lexer.modes (· < lexer.modeCount) number terminator children
      numbers)
    (h' : RepresentsChildren grammar lexer'.modes (· < lexer'.modeCount) number' terminator children
      numbers') :
    List.Forall₂ (Counterparts grammar lexer lexer') numbers numbers' := by
  induction children generalizing numbers numbers' with
  | nil =>
    rw [RepresentsChildren] at h h'
    subst h h'
    exact .nil
  | cons child children ih =>
    cases child with
    | none =>
      rw [RepresentsChildren] at h h'
      obtain ⟨rest, rfl, hrest⟩ := h
      obtain ⟨rest', rfl, hrest'⟩ := h'
      exact .cons howner (ih hrest hrest')
    | some child =>
      rw [RepresentsChildren] at h h'
      obtain ⟨inner, rest, rfl, hinner, hrest⟩ := h
      obtain ⟨inner', rest', rfl, hinner', hrest'⟩ := h'
      exact .cons ⟨_, child, hinner, hinner'⟩ (ih hrest hrest')

theorem RepresentsNext.counterparts {outer : Option (Option String)} {next : Option Outline}
    {following following' : Option Nat}
    (h : RepresentsNext grammar lexer.modes (· < lexer.modeCount) outer next following)
    (h' : RepresentsNext grammar lexer'.modes (· < lexer'.modeCount) outer next following') :
    Option.Rel (Counterparts grammar lexer lexer') following following' := by
  cases next with
  | none =>
    rw [RepresentsNext] at h h'
    subst h h'
    exact .none
  | some next =>
    rw [RepresentsNext] at h h'
    obtain ⟨inner, terminator, rfl, rfl, hinner⟩ := h
    obtain ⟨inner', terminator', rfl, houter, hinner'⟩ := h'
    cases houter
    exact .some ⟨_, next, hinner, hinner'⟩

/-- A rule that begins no mode stands for the same in all lexers. -/
theorem endRule_alike {R : Nat → Nat → Prop} {kind : RuleKind} (hkind : kind.Alike R kind)
    (source : Option String) :
    List.Forall₂ (Rule.Alike R) (source.map fun source => Rule.mk source kind).toList
      (source.map fun source => Rule.mk source kind).toList := by
  cases source with
  | none => exact .nil
  | some source => exact .cons ⟨rfl, hkind⟩ .nil

/-- Counterparts have rules with the same sources, for modes that are counterparts. -/
theorem rulesOf_alike {base : LexerMode} {numbers numbers' : List Nat}
    (h : List.Forall₂ (Counterparts grammar lexer lexer') numbers numbers') :
    List.Forall₂ (Rule.Alike (Counterparts grammar lexer lexer'))
      (rulesOf ⟨lexer.modes, []⟩ base numbers) (rulesOf ⟨lexer'.modes, []⟩ base numbers') := by
  refine List.rel_append (List.rel_append ?_ (endRule_alike .finish _)) (endRule_alike .illegal _)
  refine List.forall₂_map_left_iff.mpr (List.forall₂_map_right_iff.mpr (h.imp ?_))
  intro number number' hnumber
  exact ⟨congrArg (Option.getD · "") hnumber.beginSource, .begin hnumber⟩

/-- Lexers whose top modes represent one outline do the same. -/
theorem bisimilar_of_root (hroot : Counterparts grammar lexer lexer' root root)
    (hcase : lexer.ignoreCase = lexer'.ignoreCase)
    (haliases : lexer.scopeAliases = lexer'.scopeAliases) :
    lexer.Bisimilar (Counterparts grammar lexer lexer') lexer' := by
  have hparts : ∀ number number', Counterparts grammar lexer lexer' number number' →
      ∃ base numbers numbers' following following' rules rules',
        lexer.mode number = { base with contains := numbers, next := following, rules := rules } ∧
        lexer'.mode number' =
          { base with contains := numbers', next := following', rules := rules' } ∧
        RuleSet.build grammar.caseInsensitive (rulesOf ⟨lexer.modes, []⟩ base numbers) =
          .ok rules ∧
        RuleSet.build grammar.caseInsensitive (rulesOf ⟨lexer'.modes, []⟩ base numbers') =
          .ok rules' ∧
        List.Forall₂ (Counterparts grammar lexer lexer') numbers numbers' ∧
        Option.Rel (Counterparts grammar lexer lexer') following following' := by
    intro number number' hnumber
    have ⟨outer, ⟨place, isTied, hook, fields, contains, next⟩, hstands, hstands'⟩ := hnumber
    obtain ⟨-, base, numbers, following, rules, hbase, hmode, hrules, hchildren, hnext⟩ :=
      represents_mk.mp hstands
    obtain ⟨-, base', numbers', following', rules', hbase', hmode', hrules', hchildren', hnext'⟩ :=
      represents_mk.mp hstands'
    cases hbase.symm.trans hbase'
    exact ⟨base, numbers, numbers', following, following', rules, rules', hmode, hmode', hrules,
      hrules', RepresentsChildren.counterparts hnumber hchildren hchildren',
      RepresentsNext.counterparts hnext hnext'⟩
  refine ⟨⟨hroot, ?_, ?_, ?_, hcase, haliases⟩, ?_⟩
  · intro number number' ⟨_, _, hstands, hstands'⟩
    exact iff_of_true hstands.done hstands'.done
  · intro number number' hnumber
    obtain ⟨base, _, _, _, _, _, _, hmode, hmode', -⟩ := hparts number number' hnumber
    rw [hmode, hmode']
    rfl
  · intro number number' hnumber
    obtain ⟨base, _, _, _, _, _, _, hmode, hmode', -, -, -, hnext⟩ := hparts number number' hnumber
    rw [hmode, hmode']
    exact hnext
  · intro number number' hnumber text start cursor
    obtain ⟨base, _, _, _, _, _, _, hmode, hmode', hrules, hrules', hnumbers, -⟩ :=
      hparts number number' hnumber
    rw [hmode, hmode']
    exact RuleSet.find_alike (rulesOf_alike hnumbers) hrules hrules' text start cursor

end Lexer

end Highlighter
