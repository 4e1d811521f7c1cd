import Highlighter.Proofs.Lexer.Thinning

/-!
# Lexers of pruned outlines

A pruned outline becomes modes with the same properties as the modes of the whole one. Their rules
are the same as well, but for those of the idle modes that have been left out.
-/

namespace Highlighter.Lexer

open Outline (ChildrenPruned NextPruned)

variable {grammar : Grammar} {lexer lexer' : Lexer} {number number' : Nat}

/-- Two numbers, each in its own lexer: the first one represents an outline, and the second one the
same outline without some idle modes. -/
def PrunedTo (grammar : Grammar) (lexer lexer' : Lexer) (number number' : Nat) : Prop :=
  ∃ outer outline outline', outline.Pruned outline' ∧ lexer.Stands grammar outer outline number ∧
    lexer'.Stands grammar outer outline' number'

/-- A mode becomes what its own fields say. -/
theorem modeOf_of_survey {place : Option Place} {isTied : Bool} {hook : Option Hook}
    {fields : Except Misuse ModeFields} {contains : List (Option Outline)} {next : Option Outline}
    {outer : Option (Option String)} {base : LexerMode}
    (h : survey grammar outer (.mk place isTied hook fields contains next) = .ok base) :
    ∃ sound, fields = .ok sound ∧ modeOf grammar sound hook (outerMode outer) = .ok base := by
  rw [survey] at h
  obtain ⟨mode, hmode, h⟩ := ok_of_bind_eq_ok h
  obtain ⟨_, -, h⟩ := ok_of_bind_eq_ok h
  obtain ⟨_, -, h⟩ := ok_of_bind_eq_ok h
  obtain ⟨sound, hsound, hmode⟩ := ok_of_bind_eq_ok hmode
  split at h
  · cases h
  · cases h
    exact ⟨sound, hsound, hmode⟩

/-- A number that represents an idle outline has an idle mode. -/
theorem isIdle_of_stands {outer : Option (Option String)} {outline : Outline}
    (hidle : outline.IsIdle) (h : lexer.Stands grammar outer outline number) :
    (lexer.mode number).IsIdle := by
  obtain ⟨place, isTied, hook, fields, contains, next⟩ := outline
  obtain ⟨-, base, numbers, following, rules, hsurvey, hmode, -⟩ := represents_mk.mp h
  obtain ⟨sound, rfl, hbase⟩ := modeOf_of_survey hsurvey
  obtain ⟨-, -, -, -, -, -, -, honBegin, -⟩ := modeOf_eq_ok hbase
  obtain ⟨ignores, hsound, hignores⟩ := hidle sound rfl
  refine ⟨ignores, ?_, hignores⟩
  rw [Lexer.mode, hmode]
  exact honBegin.trans hsound

/-- What a mode becomes does not depend on the modes inside it. -/
theorem survey_pruned {outline outline' : Outline} {outer : Option (Option String)}
    {base base' : LexerMode} (h : outline.Pruned outline')
    (hbase : survey grammar outer outline = .ok base)
    (hbase' : survey grammar outer outline' = .ok base') : base = base' := by
  cases h with
  | mk =>
    obtain ⟨sound, rfl, hmode⟩ := modeOf_of_survey hbase
    obtain ⟨sound', hsound, hmode'⟩ := modeOf_of_survey hbase'
    cases hsound
    cases hmode.symm.trans hmode'
    rfl

theorem PrunedTo.beginSource (h : PrunedTo grammar lexer lexer' number number') :
    (lexer.mode number).beginSource = (lexer'.mode number').beginSource := by
  obtain ⟨outer, outline, outline', hpruned, hstands, hstands'⟩ := h
  obtain ⟨base, hbase, hsource⟩ := hstands.survey
  obtain ⟨base', hbase', hsource'⟩ := hstands'.survey
  cases survey_pruned hpruned hbase hbase'
  exact hsource.trans hsource'.symm

/-- The rule for a mode inside another one. -/
def beginRule (lexer : Lexer) (number : Nat) : Rule :=
  ⟨((lexer.mode number).beginSource).getD "", .begin number⟩

theorem PrunedTo.beginRule (h : PrunedTo grammar lexer lexer' number number') :
    (lexer.beginRule number).Alike (PrunedTo grammar lexer lexer') (lexer'.beginRule number') :=
  ⟨congrArg (Option.getD · "") h.beginSource, .begin h⟩

/-- The rules for the modes inside a pruned mode are those of the whole one, without idle ones. -/
theorem thinned_children {terminator : Option String} {children children' : List (Option Outline)}
    {numbers numbers' : List Nat} (howner : PrunedTo grammar lexer lexer' number number')
    (hpruned : ChildrenPruned children children')
    (h : RepresentsChildren grammar lexer.modes (· < lexer.modeCount) number terminator children
      numbers)
    (h' : RepresentsChildren grammar lexer'.modes (· < lexer'.modeCount) number' terminator
      children' numbers') :
    RuleSet.Thinned (PrunedTo grammar lexer lexer') (fun number => (lexer.mode number).IsIdle)
      (numbers.map lexer.beginRule) (numbers'.map lexer'.beginRule) := by
  induction children generalizing children' numbers numbers' with
  | nil =>
    cases hpruned
    rw [RepresentsChildren] at h h'
    subst h h'
    exact .nil
  | cons child children ih =>
    cases hpruned with
    | itself hrest =>
      rw [RepresentsChildren] at h h'
      obtain ⟨rest, rfl, hchildren⟩ := h
      obtain ⟨rest', rfl, hchildren'⟩ := h'
      exact .kept howner.beginRule (ih hrest hchildren hchildren')
    | @kept child child' _ _ hchild hrest =>
      rw [RepresentsChildren] at h h'
      obtain ⟨inner, rest, rfl, hinner, hchildren⟩ := h
      obtain ⟨inner', rest', rfl, hinner', hchildren'⟩ := h'
      have hrelated : PrunedTo grammar lexer lexer' inner inner' :=
        ⟨_, child, child', hchild, hinner, hinner'⟩
      exact .kept hrelated.beginRule (ih hrest hchildren hchildren')
    | dropped hidle hrest =>
      rw [RepresentsChildren] at h
      obtain ⟨inner, rest, rfl, hinner, hchildren⟩ := h
      exact .dropped rfl (isIdle_of_stands hidle hinner) (ih hrest hchildren h')

theorem pruned_next {outer : Option (Option String)} {next next' : Option Outline}
    {following following' : Option Nat} (hpruned : NextPruned next next')
    (h : RepresentsNext grammar lexer.modes (· < lexer.modeCount) outer next following)
    (h' : RepresentsNext grammar lexer'.modes (· < lexer'.modeCount) outer next' following') :
    Option.Rel (PrunedTo grammar lexer lexer') following following' := by
  cases hpruned with
  | none =>
    rw [RepresentsNext] at h h'
    subst h h'
    exact .none
  | @some next next' hnext =>
    rw [RepresentsNext] at h h'
    obtain ⟨inner, terminator, rfl, rfl, hinner⟩ := h
    obtain ⟨inner', terminator', rfl, houter, hinner'⟩ := h'
    cases houter
    exact .some ⟨_, next, next', hnext, hinner, hinner'⟩

/-- A mode of a pruned outline, beside that of the whole one. -/
structure ModesPruned (grammar : Grammar) (lexer lexer' : Lexer) (mode mode' : LexerMode) :
    Prop where
  bare : mode.bare = mode'.bare
  next : Option.Rel (PrunedTo grammar lexer lexer') mode.next mode'.next
  built : ∃ rules, RuleSet.build grammar.caseInsensitive rules = .ok mode.rules
  built' : ∃ rules, RuleSet.build grammar.caseInsensitive rules = .ok mode'.rules
  thinned : RuleSet.Thinned (PrunedTo grammar lexer lexer')
    (fun number => (lexer.mode number).IsIdle) mode.rules.rules mode'.rules.rules

theorem PrunedTo.modes (h : PrunedTo grammar lexer lexer' number number') :
    ModesPruned grammar lexer lexer' (lexer.mode number) (lexer'.mode number') := by
  have ⟨outer, outline, outline', hpruned, hstands, hstands'⟩ := h
  have hsame := @survey_pruned grammar outline outline' outer
  cases hpruned with
  | mk hcontains hnext =>
    obtain ⟨-, base, numbers, following, rules, hbase, hmode, hrules, hchildren, hfollowing⟩ :=
      represents_mk.mp hstands
    obtain ⟨-, base', numbers', following', rules', hbase', hmode', hrules', hchildren',
      hfollowing'⟩ := represents_mk.mp hstands'
    cases hsame (.mk hcontains hnext) hbase hbase'
    rw [Lexer.mode, Lexer.mode, hmode, hmode']
    refine ⟨rfl, pruned_next hnext hfollowing hfollowing', ⟨_, hrules⟩, ⟨_, hrules'⟩, ?_⟩
    simp only [(RuleSet.build_eq_ok hrules).1, (RuleSet.build_eq_ok hrules').1]
    refine .append (.append (thinned_children h hcontains hchildren hchildren') ?_) ?_
    · exact .of_alike (endRule_alike .finish _)
    · exact .of_alike (endRule_alike .illegal _)

/-- Modes of pruned outlines are alike. -/
theorem alike_of_pruned (hroot : PrunedTo grammar lexer lexer' root root)
    (hcase : lexer.ignoreCase = lexer'.ignoreCase)
    (haliases : lexer.scopeAliases = lexer'.scopeAliases) :
    lexer.Alike (PrunedTo grammar lexer lexer') lexer' where
  root := hroot
  within := by
    rintro number number' ⟨_, _, _, _, hstands, hstands'⟩
    exact iff_of_true hstands.done hstands'.done
  bare _ _ h := h.modes.bare
  next _ _ h := h.modes.next
  ignoreCase := hcase
  scopeAliases := haliases

end Highlighter.Lexer
