import Highlighter.Proofs.Regex.Lookahead
import Highlighter.Proofs.Scan.Tiling

/-!
# Modes that need something before them

A mode that needs something before it becomes three modes. The first one begins with what must stand
before, looks for the begin pattern of the mode, and ends at once. It is followed by a bare mode,
which tries the begin pattern of the mode itself before it ends at once as well.
-/

namespace Highlighter

/-- An expression as it matches in front of something that may turn a match down. -/
def Regex.compileInFront (ignoreCase : Bool) (source : String) : Except Error Regex :=
  Tree.read (startFlags ignoreCase) source >>= Tree.Source.inFront

/-- What matches at once matches nothing, wherever the text stands. -/
theorem Outline.matchAt?_anywhere {ignoreCase : Bool} {regex : Regex}
    (h : Regex.compile ignoreCase anywhere = .ok regex) (text : Array Char) (position : Nat) :
    (regex.matchAt? text position).map (·.span) = some ⟨position, position⟩ := by
  obtain rfl : regex = ⟨.alt (.anchor .notWordBoundary) (.anchor .wordBoundary), 0⟩ := by
    cases ignoreCase <;> exact Except.ok.inj (h.symm.trans (by cbv))
  by_cases hsame : Regex.wordBefore text position = Regex.wordAt text position <;>
    simp [Regex.matchAt?, Regex.Program.run, Regex.Anchor.holds, Regex.prefer, hsame]

/-- A mode without scopes, flags and hooks. -/
structure LexerMode.IsUnmarked (mode : LexerMode) : Prop where
  scope : mode.scope = none
  beginScope : mode.beginScope = none
  endScope : mode.endScope = none
  skip : mode.skip = false
  excludeBegin : mode.excludeBegin = false
  excludeEnd : mode.excludeEnd = false
  returnBegin : mode.returnBegin = false
  returnEnd : mode.returnEnd = false
  endsParent : mode.endsParent = false
  beforeBegin : mode.beforeBegin = none
  onBegin : mode.onBegin = none
  onEnd : mode.onEnd = none

namespace Outline

variable {part : Part} {fields : ModeFields} {before : Pattern} {place : Option Place}
  {atTop : Bool} {depth : Nat}

/-- The fields of a mode that has a begin pattern and keywords at most. -/
def bareFields (keywords : Option Keywords) (source : Option String) : ModeFields :=
  { keywords := keywords, beginPattern := source.map Pattern.regex, relevance := some 0 }

/-- The fields of a mode once what must stand before it has been taken care of. -/
def behindFields (fields : ModeFields) : ModeFields :=
  { fields with beforePattern := none, endsParent := true }

theorem expandWhole_behindFields (h : expandWhole part.fields = .ok fields) :
    expandWhole (behindFields fields) = .ok (behindFields fields) := by
  have hwhole : fields.wholePattern = none := by
    unfold expandWhole at h
    split at h
    · next hnone =>
      cases h
      exact hnone
    · split at h
      · cases h
      · cases h
        rfl
  simp only [expandWhole, behindFields, hwhole]

/-- The outline of a mode that needs something before it and may have it. -/
theorem single_before (hfields : expandWhole part.fields = .ok fields)
    (hcheck : checkSegments fields = .ok ()) (hbefore : fields.beforePattern = some before)
    (hkeywords : fields.beginKeywords = none) (hnext : part.next = none) :
    single atTop (depth + 1) place part [] =
      .mk place part.isTied none
        (.ok (bareFields fields.keywords (some (Pattern.concat
          [before.source, Pattern.lookahead (sourceOrAnywhere fields.beginPattern)])))) []
        (some (.mk none false none (.ok (bareFields none none))
          [some (.mk none fields.endsWithParent none (.ok (behindFields fields)) part.contains
            none)] none)) := by
  have hinner : single false depth none ⟨behindFields fields, part.contains, none⟩ [] =
      .mk none fields.endsWithParent none (.ok (behindFields fields)) part.contains none := by
    have hcheck' : checkSegments (behindFields fields) = .ok () := hcheck
    have hbefore' : (behindFields fields).beforePattern = none := rfl
    have hkeywords' : (behindFields fields).beginKeywords = none := hkeywords
    rw [single, expandWhole_behindFields hfields]
    simp only [hcheck', hbefore', expandKeywords, hkeywords', Part.isTied, Option.map_none,
      Option.getD_none, Bool.or_false]
    rfl
  rw [single, hfields]
  simp only [hcheck, hbefore, hnext, Option.isSome_none, Bool.false_eq_true, if_false]
  rw [← hinner]
  rfl

end Outline

namespace RuleSet

variable {ignoreCase : Bool} {set : RuleSet} {rule : Rule} {rules : List Rule} {text : Array Char}
  {start : Nat} {hit : Regex.Match}

theorem find_of_joined {found : RuleMatch} (h : set.joined.find? text start = some found) :
    set.find text start 0 = .ok (some found, set.cursorAfter found.position) := by
  simp only [find, joinedFrom, if_true, bind, Except.bind, h, ne_eq, not_true,
    decide_false, Bool.false_and, Bool.false_eq_true, if_false, Nat.zero_add]
  rfl

/-- A search that starts where the first rule matches alone finds this match. -/
theorem exists_find_of_first (hbuild : build ignoreCase set.rules = .ok set)
    (halone : ∀ rule ∈ set.rules, rule.StandsAlone ignoreCase) (hrules : set.rules = rule :: rules)
    (hhit : (rule.regex ignoreCase).matchAt? text start = some hit) (hstart : start ≤ text.size) :
    ∃ found after, set.find text start 0 = .ok (some found, after) ∧ found.kind = rule.kind ∧
      found.index = start ∧ found.span = hit.span := by
  obtain ⟨-, -, hjoined⟩ := build_eq_ok hbuild
  have hlisted := JoinedRules.Alone.of_standsAlone halone
  have hsome : ¬ JoinedRules.NoneAt (set.rules.map (·.regex ignoreCase)) text start := by
    intro hnone
    have hmiss := hnone _ (List.mem_map_of_mem (hrules ▸ List.mem_cons_self))
    cases hhit.symm.trans hmiss
  cases hfound : set.joined.find? text start with
  | none =>
    have hnone := (JoinedRules.find?_eq_none_iff hjoined hlisted).mp hfound
    exact absurd (hnone start (Nat.le_refl start) hstart) hsome
  | some found =>
    obtain ⟨hle, -, hearlier, other, regex, alone, after, group, hother, hkind, hattributed,
      hgroups⟩ := JoinedRules.find?_attributed hjoined hlisted hfound
    obtain rfl : found.index = start := by
      by_contra hne
      exact hsome (hearlier start (Nat.le_refl start) (by omega))
    obtain ⟨place, hplace⟩ : ∃ place, found.position = place := ⟨_, rfl⟩
    rw [hplace] at hother hattributed
    cases place with
    | succ place =>
      have hmiss := hattributed.first.earlier (rule.regex ignoreCase) (by simp [hrules])
      cases hhit.symm.trans hmiss
    | zero =>
      have hregex := hattributed.first.listed
      rw [hrules] at hother hregex
      cases hother
      cases hregex
      have hspan := (hattributed.reports hgroups).span
      cases hhit.symm.trans hattributed.first.hit
      exact ⟨found, _, find_of_joined hfound, hkind, rfl, hspan⟩

end RuleSet

namespace Lexer

variable {grammar : Grammar} {lexer : Lexer} {part : Outline.Part} {fields : ModeFields}
  {before : Pattern} {mode : LexerMode} {number : Nat} {parent : Option LexerMode}

theorem modeOf_scope {hook : Option Hook} (h : modeOf grammar fields hook parent = .ok mode) :
    mode.scope = fields.scope ∧ mode.endsParent = fields.endsParent ∧
      mode.illegal = fields.illegal.map Pattern.source := by
  simp only [modeOf, pure_bind] at h
  obtain ⟨beginScope, -, h⟩ := ok_of_bind_eq_ok h
  obtain ⟨endScope, -, h⟩ := ok_of_bind_eq_ok h
  split at h
  · obtain ⟨endRegex, -, h⟩ := ok_of_bind_eq_ok h
    split at h
    · obtain ⟨keywords, -, h⟩ := ok_of_bind_eq_ok h
      cases h
      exact ⟨rfl, rfl, rfl⟩
    · cases h
      exact ⟨rfl, rfl, rfl⟩
  · split at h
    · obtain ⟨keywords, -, h⟩ := ok_of_bind_eq_ok h
      cases h
      exact ⟨rfl, rfl, rfl⟩
    · cases h
      exact ⟨rfl, rfl, rfl⟩

theorem modeOf_bareFields {keywords : Option Keywords} {source : Option String}
    (h : modeOf grammar (Outline.bareFields keywords source) none parent = .ok mode) :
    mode.IsUnmarked ∧ mode.illegal = none := by
  obtain ⟨hbegin, hend, hskip, hexcludeBegin, hexcludeEnd, hreturnBegin, hreturnEnd, honBegin,
    honEnd, hbefore, -⟩ := modeOf_eq_ok h
  obtain ⟨hscope, hendsParent, hillegal⟩ := modeOf_scope h
  refine ⟨⟨hscope, ?_, ?_, hskip, hexcludeBegin, hexcludeEnd, hreturnBegin, hreturnEnd, hendsParent,
    hbefore, honBegin, honEnd⟩, hillegal⟩
  · cases source <;> exact (Except.ok.inj hbegin).symm
  · exact (Except.ok.inj hend).symm

/-- What a mode of bare fields becomes: it ends at once, and before that it tries the modes inside
it. -/
theorem Stands.of_bareFields {keywords : Option Keywords} {source terminator : Option String}
    {place : Option Place} {isTied : Bool} {contains : List (Option Outline)}
    {next : Option Outline}
    (h : lexer.Stands grammar (some terminator)
      (.mk place isTied none (.ok (Outline.bareFields keywords source)) contains next) number) :
    ∃ numbers, (lexer.mode number).IsUnmarked ∧
      (lexer.mode number).beginSource = some (source.getD Outline.anywhere) ∧
      (∃ regex, (lexer.mode number).endRegex = some regex ∧
        Regex.compile grammar.caseInsensitive Outline.anywhere = .ok regex) ∧
      (lexer.mode number).rules.rules =
        numbers.map (fun child => ⟨((lexer.mode child).beginSource).getD "", .begin child⟩) ++
          [⟨Outline.anywhere, .finish⟩] ∧
      RepresentsChildren grammar lexer.modes (· < lexer.modeCount) number
        (lexer.mode number).terminator contains numbers ∧
      RepresentsNext grammar lexer.modes (· < lexer.modeCount) (some terminator) next
        (lexer.mode number).next := by
  obtain ⟨-, base, numbers, following, rules, hsurvey, hmode, hrules, hchildren, hnext⟩ :=
    represents_mk.mp h
  have heq : lexer.mode number =
      { base with contains := numbers, next := following, rules := rules } := hmode
  obtain ⟨sound, hsound, hbase⟩ := modeOf_of_survey hsurvey
  cases hsound
  obtain ⟨hunmarked, hillegal⟩ := modeOf_bareFields hbase
  obtain ⟨-, hbegin, hterminator, hend⟩ := modeOf_sources hbase
  have hterminator : base.terminator = some Outline.anywhere := hterminator
  have hsource : base.beginSource = some (source.getD Outline.anywhere) := by
    rw [hbegin]
    cases source <;> rfl
  rw [heq]
  refine ⟨numbers, ?_, hsource, ?_, ?_, hchildren, hnext⟩
  · cases hunmarked
    constructor <;> assumption
  · generalize base.endRegex = endRegex at hend
    cases hend with
    | some hcompile => exact ⟨_, rfl, hcompile⟩
  · change rules.rules = _
    rw [(RuleSet.build_eq_ok hrules).1, rulesOf, hterminator, hillegal]
    exact List.append_nil _

/-- The modes that a mode with something before it becomes: one for what stands before, a bare one
behind that, and the mode itself inside the bare one. -/
structure GoesBefore (grammar : Grammar) (lexer : Lexer) (before : Pattern) (fields : ModeFields)
    (outer bare inner : Nat) : Prop where
  beginSource : (lexer.mode outer).beginSource = some (Pattern.concat
    [before.source, Pattern.lookahead (Outline.sourceOrAnywhere fields.beginPattern)])
  outerUnmarked : (lexer.mode outer).IsUnmarked
  outerEnds : ∃ regex, (lexer.mode outer).endRegex = some regex ∧
    Regex.compile grammar.caseInsensitive Outline.anywhere = .ok regex
  outerRules : (lexer.mode outer).rules.rules = [⟨Outline.anywhere, .finish⟩]
  outerBuilds : RuleSet.build grammar.caseInsensitive (lexer.mode outer).rules.rules =
    .ok (lexer.mode outer).rules
  next : (lexer.mode outer).next = some bare
  bareUnmarked : (lexer.mode bare).IsUnmarked
  bareRules : (lexer.mode bare).rules.rules =
    [⟨Outline.sourceOrAnywhere fields.beginPattern, .begin inner⟩, ⟨Outline.anywhere, .finish⟩]
  bareBuilds : RuleSet.build grammar.caseInsensitive (lexer.mode bare).rules.rules =
    .ok (lexer.mode bare).rules
  inner : lexer.HasFields grammar (Outline.behindFields fields) inner

/-- A mode below the top mode has been made from a part with its shorthands. -/
def HasPart (grammar : Grammar) (lexer : Lexer) (part : Outline.Part) (number : Nat) : Prop :=
  ∃ terminator depth place,
    lexer.Stands grammar (some terminator) (Outline.single false (depth + 1) place part []) number

theorem Stands.sound {outer : Option (Option String)} {place : Option Place} {isTied : Bool}
    {hook : Option Hook} {refused : Except Misuse ModeFields} {contains : List (Option Outline)}
    {next : Option Outline}
    (h : lexer.Stands grammar outer (.mk place isTied hook refused contains next) number) :
    ∃ sound, refused = .ok sound := by
  obtain ⟨-, _, _, _, _, hsurvey, -⟩ := represents_mk.mp h
  obtain ⟨sound, hsound, -⟩ := modeOf_of_survey hsurvey
  exact ⟨sound, hsound⟩

theorem HasPart.exists_goesBefore (h : lexer.HasPart grammar part number)
    (hfields : Outline.expandWhole part.fields = .ok fields)
    (hbefore : fields.beforePattern = some before) (hkeywords : fields.beginKeywords = none) :
    ∃ bare inner, lexer.GoesBefore grammar before fields number bare inner := by
  obtain ⟨terminator, depth, place, hstands⟩ := h
  cases hcheck : Outline.checkSegments fields with
  | error misuse =>
    rw [Outline.single, hfields] at hstands
    simp only [hcheck] at hstands
    obtain ⟨_, hsound⟩ := hstands.sound
    cases hsound
  | ok _ =>
  cases hnext : part.next with
  | some next =>
    rw [Outline.single, hfields] at hstands
    simp only [hcheck, hbefore, hnext, Option.isSome_some, if_true] at hstands
    obtain ⟨_, hsound⟩ := hstands.sound
    cases hsound
  | none =>
  rw [Outline.single_before hfields hcheck hbefore hkeywords hnext] at hstands
  obtain ⟨numbers, houter, hbegin, hend, hrules, hchildren, hnext⟩ := hstands.of_bareFields
  cases hchildren
  obtain ⟨bare, _, hbare, heq, hrepresents⟩ := hnext
  cases heq
  have hbareStands : lexer.Stands grammar _ _ bare := hrepresents
  obtain ⟨numbers, hunmarked, -, -, hbareRules, hchildren, -⟩ := hbareStands.of_bareFields
  obtain ⟨inner, _, rfl, hinner, rfl⟩ := hchildren
  have hinnerFields : lexer.HasFields grammar (Outline.behindFields fields) inner :=
    ⟨_, _, _, _, _, _, hinner⟩
  refine ⟨bare, inner, hbegin, houter, hend, hrules, hstands.rules.1, hbare, hunmarked, ?_,
    hbareStands.rules.1, hinnerFields⟩
  rw [hbareRules, List.map_singleton, hinnerFields.mode.2.2.1]
  rfl

end Lexer

end Highlighter
