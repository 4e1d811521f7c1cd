import Highlighter.Proofs.Lexer.Numbers
import Highlighter.Proofs.Lexer.Pruning
import Highlighter.Proofs.Regex.Either
import Mathlib.Logic.Relation

/-!
# End rules of modes inside each other

The end rule of a mode is put together from its own end pattern and from the end rule of the mode
around it, while the lexer is built. During a scan a mode stands on the stack inside the mode that
it was built in, inside itself, or, where it follows a mode that stood inside itself, inside a mode
that it was not built in.
-/

namespace Highlighter

namespace Lexer

variable {grammar : Grammar} {lexer : Lexer} {owner number : Nat} {outer : Option (Option String)}
  {outline : Outline}

/-- The end rule of a mode comes from its own end pattern and, where it ends with the mode around
it, from the end rule of that one. -/
def Inherits (ignoreCase : Bool) (mode : LexerMode) (outer : Option String) : Prop :=
  ∃ (fields : ModeFields) (own : Option String), mode.endsWithParent = fields.endsWithParent ∧
    Option.Rel (fun source regex => Regex.compile ignoreCase source = .ok regex) own
      mode.endRegex ∧
    mode.terminator = terminatorOf fields own outer

theorem ok_of_compilePattern {label source : String} {regex : Regex}
    (h : compilePattern grammar label source = .ok regex) :
    Regex.compile grammar.caseInsensitive source = .ok regex := by
  unfold compilePattern at h
  split at h
  · next hcompile =>
    cases h
    exact hcompile
  · cases h

/-- A mode begins and ends with the patterns of its fields; the top mode does neither. -/
theorem modeOf_sources {fields : ModeFields} {hook : Option Hook} {parent : Option LexerMode}
    {mode : LexerMode} (h : modeOf grammar fields hook parent = .ok mode) :
    mode.endsWithParent = fields.endsWithParent ∧
      mode.beginSource =
        (if parent.isSome then some (Outline.sourceOrAnywhere fields.beginPattern) else none) ∧
      mode.terminator = terminatorOf fields (if parent.isSome then endSource fields else none)
        (parent.bind (·.terminator)) ∧
      Option.Rel (fun source regex => Regex.compile grammar.caseInsensitive source = .ok regex)
        (if parent.isSome then endSource fields else none) mode.endRegex := by
  simp only [modeOf, pure_bind] at h
  obtain ⟨beginScope, -, h⟩ := ok_of_bind_eq_ok h
  obtain ⟨endScope, -, h⟩ := ok_of_bind_eq_ok h
  split at h
  · next source hfinish =>
    obtain ⟨endRegex, hend, h⟩ := ok_of_bind_eq_ok h
    have hrel : Option.Rel
        (fun source regex => Regex.compile grammar.caseInsensitive source = .ok regex)
        (if parent.isSome then endSource fields else none) (some endRegex) := by
      rw [hfinish]
      exact .some (ok_of_compilePattern hend)
    split at h
    · obtain ⟨keywords, -, h⟩ := ok_of_bind_eq_ok h
      cases h
      exact ⟨rfl, rfl, rfl, hrel⟩
    · cases h
      exact ⟨rfl, rfl, rfl, hrel⟩
  · next hfinish =>
    have hrel : Option.Rel
        (fun source regex => Regex.compile grammar.caseInsensitive source = .ok regex)
        (if parent.isSome then endSource fields else none) none := by
      rw [hfinish]
      exact .none
    split at h
    · obtain ⟨keywords, -, h⟩ := ok_of_bind_eq_ok h
      cases h
      exact ⟨rfl, rfl, rfl, hrel⟩
    · cases h
      exact ⟨rfl, rfl, rfl, hrel⟩

theorem modeOf_inherits {fields : ModeFields} {hook : Option Hook} {parent : Option LexerMode}
    {mode : LexerMode} (h : modeOf grammar fields hook parent = .ok mode) :
    Inherits grammar.caseInsensitive mode (parent.bind (·.terminator)) ∧
      (parent = none → mode.terminator = none) := by
  obtain ⟨hends, -, hterminator, hrel⟩ := modeOf_sources h
  refine ⟨⟨fields, _, hends, hrel, hterminator⟩, fun hparent => ?_⟩
  subst hparent
  rw [hterminator]
  simp [terminatorOf]

/-- The modes inside a mode are that mode itself, or have been built in it. -/
theorem RepresentsChildren.exists_represents {modes : Array LexerMode} {isDone : Nat → Prop}
    {terminator : Option String} {children : List (Option Outline)} {numbers : List Nat}
    (h : RepresentsChildren grammar modes isDone owner terminator children numbers)
    (hmem : number ∈ numbers) : number = owner ∨
      ∃ child, Represents grammar modes isDone (some terminator) child number := by
  induction children generalizing numbers with
  | nil =>
    rw [RepresentsChildren] at h
    subst h
    cases hmem
  | cons child children ih =>
    cases child with
    | none =>
      rw [RepresentsChildren] at h
      obtain ⟨rest, rfl, hrest⟩ := h
      exact (List.mem_cons.mp hmem).elim .inl (ih hrest)
    | some child =>
      rw [RepresentsChildren] at h
      obtain ⟨first, rest, rfl, hchild, hrest⟩ := h
      rcases List.mem_cons.mp hmem with rfl | hmem
      · exact .inr ⟨child, hchild⟩
      · exact ih hrest hmem

/-- What a mode of a lexer stands for decides on its end rule, and on the modes that it refers
to. -/
theorem Stands.mode (h : lexer.Stands grammar outer outline number) :
    Inherits grammar.caseInsensitive (lexer.mode number) (outer.bind id) ∧
      (outer = none → (lexer.mode number).terminator = none) ∧
      (∀ inner ∈ (lexer.mode number).contains, inner = number ∨
        ∃ child, lexer.Stands grammar (some (lexer.mode number).terminator) child inner) ∧
      ∀ next, (lexer.mode number).next = some next →
        ∃ terminator following, outer = some terminator ∧
          lexer.Stands grammar (some terminator) following next := by
  obtain ⟨place, isTied, hook, fields, contains, next⟩ := outline
  obtain ⟨-, base, numbers, following, rules, hsurvey, hmode, -, hchildren, hnext⟩ :=
    represents_mk.mp h
  obtain ⟨sound, -, hbase⟩ := modeOf_of_survey hsurvey
  obtain ⟨hinherits, hnone⟩ := modeOf_inherits hbase
  have heq : lexer.mode number =
      { base with contains := numbers, next := following, rules := rules } := hmode
  rw [heq]
  refine ⟨?_, ?_, ?_, ?_⟩
  · cases outer <;> exact hinherits
  · rintro rfl
    exact hnone rfl
  · exact fun inner hinner => hchildren.exists_represents hinner
  · rintro inner (rfl : following = some inner)
    cases next with
    | none =>
      rw [RepresentsNext] at hnext
      cases hnext
    | some next =>
      rw [RepresentsNext] at hnext
      obtain ⟨other, terminator, hother, houter, hrepresents⟩ := hnext
      cases hother
      exact ⟨terminator, next, houter, hrepresents⟩

/-- The end rule of a mode is the only one among its rules that ends it. -/
theorem Stands.rules (h : lexer.Stands grammar outer outline number) :
    RuleSet.build grammar.caseInsensitive (lexer.mode number).rules.rules =
        .ok (lexer.mode number).rules ∧
      ∀ source, ⟨source, .finish⟩ ∈ (lexer.mode number).rules.rules ↔
        (lexer.mode number).terminator = some source := by
  obtain ⟨place, isTied, hook, fields, contains, next⟩ := outline
  obtain ⟨-, base, numbers, following, rules, -, hmode, hrules, -⟩ := represents_mk.mp h
  have heq : lexer.mode number =
      { base with contains := numbers, next := following, rules := rules } := hmode
  have hlisted := (RuleSet.build_eq_ok hrules).1
  rw [heq]
  refine ⟨by rw [hlisted, hrules], fun source => ?_⟩
  rw [hlisted]
  simp [rulesOf]

/-! ## Modes on the stack -/

/-- A mode follows another one, directly or after others. -/
def LeadsTo (lexer : Lexer) : Nat → Nat → Prop :=
  Relation.TransGen fun number next => (lexer.mode number).next = some next

/-- How a mode comes to stand inside mode `owner` on the stack. -/
inductive SitsIn (grammar : Grammar) (lexer : Lexer) (owner : Nat) : Nat → Prop where
  /-- It has been built in that mode. -/
  | built {outline : Outline} {number : Nat}
      (h : lexer.Stands grammar (some (lexer.mode owner).terminator) outline number) :
      SitsIn grammar lexer owner number
  /-- It is that mode itself. -/
  | itself (h : owner ∈ (lexer.mode owner).contains) : SitsIn grammar lexer owner owner
  /-- It follows that mode, which stood inside itself. -/
  | following {number : Nat} (h : owner ∈ (lexer.mode owner).contains)
      (hfollows : lexer.LeadsTo owner number) : SitsIn grammar lexer owner number

/-- On a stack of modes, the innermost first, every mode has been built somewhere and has come to
stand inside the mode below it. -/
def Stacked (grammar : Grammar) (lexer : Lexer) : List Nat → Prop
  | [] => True
  | number :: modes =>
    (∃ terminator outline, lexer.Stands grammar (some terminator) outline number) ∧
      SitsIn grammar lexer (modes.head?.getD root) number ∧ Stacked grammar lexer modes

variable {modes : List Nat}

theorem Stacked.drop (h : Stacked grammar lexer modes) (count : Nat) :
    Stacked grammar lexer (modes.drop count) := by
  induction count generalizing modes with
  | zero => exact h
  | succ count ih =>
    cases modes with
    | nil => exact h
    | cons number modes => exact ih h.2.2

/-- The innermost mode of a stack has been built somewhere, or it is the top mode. -/
theorem Stacked.stands (hroot : ∃ outline, lexer.Stands grammar none outline root)
    (h : Stacked grammar lexer modes) :
    ∃ outer outline, lexer.Stands grammar outer outline (modes.head?.getD root) := by
  cases modes with
  | nil => exact ⟨none, hroot⟩
  | cons number modes =>
    obtain ⟨⟨terminator, outline, hstands⟩, -⟩ := h
    exact ⟨some terminator, outline, hstands⟩

/-- A mode is entered from the mode that it is inside of. -/
theorem Stacked.enter (hroot : ∃ outline, lexer.Stands grammar none outline root)
    (hlinked : lexer.Linked) (h : Stacked grammar lexer modes)
    (hmem : number ∈ (lexer.mode (modes.head?.getD root)).contains) :
    Stacked grammar lexer (number :: modes) := by
  obtain ⟨outer, outline, hstands⟩ := h.stands hroot
  obtain ⟨-, -, hchildren, -⟩ := hstands.mode
  rcases hchildren number hmem with heq | ⟨child, hchild⟩
  · cases modes with
    | nil =>
      have habove := ((hlinked.modes _).contains number hmem).above
      exact absurd heq (Nat.ne_of_gt habove)
    | cons owner modes =>
      obtain rfl : number = owner := heq
      exact ⟨h.1, .itself hmem, h⟩
  · exact ⟨⟨_, child, hchild⟩, .built hchild, h⟩

/-- When a mode has been left, the mode that follows it comes to stand in its place. -/
theorem Stacked.follow (h : Stacked grammar lexer (owner :: modes))
    (hnext : (lexer.mode owner).next = some number) : Stacked grammar lexer (number :: modes) := by
  obtain ⟨⟨terminator, outline, hstands⟩, hsits, hmodes⟩ := h
  generalize hplace : modes.head?.getD root = place at hsits
  obtain ⟨-, -, -, hfollowing⟩ := hstands.mode
  obtain ⟨_, following, heq, hnumber⟩ := hfollowing number hnext
  cases heq
  refine ⟨⟨terminator, following, hnumber⟩, ?_, hmodes⟩
  rw [hplace]
  cases hsits with
  | built hbuilt =>
    obtain ⟨-, -, -, hfollowing⟩ := hbuilt.mode
    obtain ⟨_, following, heq, hnumber⟩ := hfollowing number hnext
    cases heq
    exact .built hnumber
  | itself hself => exact .following hself (.single hnext)
  | following hself hfollows => exact .following hself (hfollows.tail hnext)

end Lexer

/-! ## What end rules match -/

/-- A rule that stands alone is read as it is written. -/
theorem Rule.StandsAlone.compile_eq {ignoreCase : Bool} {rule : Rule}
    (h : rule.StandsAlone ignoreCase) :
    Regex.compile ignoreCase rule.source = .ok (rule.regex ignoreCase) := by
  rw [Regex.compile_eq, h.compiles]
  rfl

/-- The groups of what has been found are those of a match. -/
def RuleMatch.Reports (found : RuleMatch) (hit : Regex.Match) : Prop :=
  ∀ number, found.groups[number]?.join = hit.group? number

theorem RuleMatch.Reports.span {found : RuleMatch} {hit : Regex.Match} (h : found.Reports hit) :
    found.span = hit.span := by
  rw [RuleMatch.span, h 0]
  rfl

theorem JoinedRules.Attributed.reports {regexes : List Regex} {text : Array Char}
    {position group place : Nat} {after alone : Regex.State} {regex : Regex} {found : RuleMatch}
    (h : Attributed regexes text position after group place regex alone)
    (hgroups : HasGroups found regex ⟨⟨position, alone.position⟩, alone.groups⟩) :
    found.Reports ⟨⟨position, alone.position⟩, alone.groups⟩ := by
  intro number
  by_cases hle : number ≤ regex.groups
  · rw [hgroups.own number hle]
    rfl
  · rw [hgroups.later number (by omega), Regex.Match.group?_of_state _ _ (by omega),
      h.grouped.beyond number (by omega)]

/-- What a search finds is the match of a rule alone at its position, which lies ahead. -/
theorem RuleSet.exists_rule_matching {ignoreCase : Bool} {set : RuleSet} {text : Array Char}
    {start cursor after : Nat} {found : RuleMatch}
    (hbuild : RuleSet.build ignoreCase set.rules = .ok set)
    (halone : ∀ rule ∈ set.rules, rule.StandsAlone ignoreCase)
    (hfind : set.find text start cursor = .ok (some found, after)) :
    ∃ rule ∈ set.rules, found.kind = rule.kind ∧ start ≤ found.index ∧
      ∃ hit, (rule.regex ignoreCase).matchAt? text found.index = some hit ∧ found.Reports hit := by
  obtain ⟨first, joined, origin, hjoined, hfound, hstart⟩ := find_eq_ok hfind
  obtain ⟨-, hcase, hall⟩ := build_eq_ok hbuild
  obtain ⟨dropped, hdropped⟩ : ∃ dropped,
      JoinedRules.build ignoreCase (set.rules.drop dropped) = .ok joined := by
    unfold joinedFrom at hjoined
    split at hjoined
    · cases hjoined
      exact ⟨0, hall⟩
    · rw [hcase] at hjoined
      exact ⟨_, hjoined⟩
  obtain ⟨horigin, -, -, rule, regex, alone, joinedAfter, group, hrule, hkind, hattributed,
      hgroups⟩ := JoinedRules.find?_attributed hdropped
    (.of_standsAlone fun rule hmem => halone rule (List.mem_of_mem_drop hmem)) hfound
  have hregex := hattributed.first.listed
  rw [List.getElem?_map, hrule] at hregex
  cases hregex
  exact ⟨rule, List.mem_of_mem_drop (List.mem_of_getElem? hrule), hkind,
    Nat.le_trans hstart horigin, _, hattributed.first.hit, hattributed.reports hgroups⟩

/-- The match of a rule with the given source, if there is one, alone at a position. -/
def Lexer.matchAlone? (lexer : Lexer) (source : Option String) (text : Array Char)
    (position : Nat) : Option Regex.Match :=
  source.bind fun source =>
    ((⟨source, .finish⟩ : Rule).regex lexer.ignoreCase).matchAt? text position

/-- Whether a rule with the given source, if there is one, alone matches at a position. -/
def Lexer.matchesAlone (lexer : Lexer) (source : Option String) (text : Array Char)
    (position : Nat) : Bool :=
  match source with
  | some source =>
    (((⟨source, .finish⟩ : Rule).regex lexer.ignoreCase).matchAt? text position).isSome
  | none => false

theorem Lexer.matchesAlone_eq (lexer : Lexer) (source : Option String) (text : Array Char)
    (position : Nat) :
    lexer.matchesAlone source text position = (lexer.matchAlone? source text position).isSome := by
  cases source <;> rfl

theorem Lexer.matchAlone?_of_compile {lexer : Lexer} {source : String} {regex : Regex}
    (h : Regex.compile lexer.ignoreCase source = .ok regex) (text : Array Char) (position : Nat) :
    lexer.matchAlone? (some source) text position = regex.matchAt? text position := by
  rw [Regex.compile_eq] at h
  simp only [matchAlone?, Option.bind_some, Rule.regex]
  generalize Regex.compileFrom (Regex.startFlags lexer.ignoreCase) source = reading at h ⊢
  cases reading with
  | error _ => cases h
  | ok result =>
    cases h
    rfl

/-- The end rules of a lexer say what its end patterns say: the rules of a mode match among each
other as they do alone, no end pattern is empty, an end pattern reads the same behind another one as
it does alone, and no mode that may stand inside itself is followed by a mode that ends with the
mode around it. -/
structure Lexer.EndsAsWritten (lexer : Lexer) : Prop where
  alone : ∀ number, ∀ rule ∈ (lexer.mode number).rules.rules, rule.StandsAlone lexer.ignoreCase
  written : ∀ number regex, (lexer.mode number).endRegex = some regex →
    Regex.compile lexer.ignoreCase "" ≠ .ok regex
  either : ∀ number own outer regex, (lexer.mode number).endsWithParent = true →
    (lexer.mode number).terminator = some (own ++ "|" ++ outer) →
    (lexer.mode number).endRegex = some regex → Regex.compile lexer.ignoreCase own = .ok regex →
    Regex.Tree.ReadsAsEither (Regex.startFlags lexer.ignoreCase) own outer
  apart : ∀ number, number ∈ (lexer.mode number).contains →
    ∀ later, lexer.LeadsTo number later → (lexer.mode later).endsWithParent = false

/-- The end rules of a lexer say what its modes end with: no hook is asked, and the end rules say
what the end patterns say. -/
structure Lexer.EndsAsMeant (lexer : Lexer) : Prop where
  unhooked : ∀ number, (lexer.mode number).onEnd = none
  alone : ∀ number, ∀ rule ∈ (lexer.mode number).rules.rules, rule.StandsAlone lexer.ignoreCase
  written : ∀ number regex, (lexer.mode number).endRegex = some regex →
    Regex.compile lexer.ignoreCase "" ≠ .ok regex
  either : ∀ number own outer regex, (lexer.mode number).endsWithParent = true →
    (lexer.mode number).terminator = some (own ++ "|" ++ outer) →
    (lexer.mode number).endRegex = some regex → Regex.compile lexer.ignoreCase own = .ok regex →
    Regex.Tree.ReadsAsEither (Regex.startFlags lexer.ignoreCase) own outer
  apart : ∀ number, number ∈ (lexer.mode number).contains →
    ∀ later, lexer.LeadsTo number later → (lexer.mode later).endsWithParent = false

theorem Lexer.EndsAsMeant.asWritten {lexer : Lexer} (h : lexer.EndsAsMeant) : lexer.EndsAsWritten :=
  ⟨h.alone, h.written, h.either, h.apart⟩

theorem Lexer.EndsAsWritten.asMeant {lexer : Lexer} (h : lexer.EndsAsWritten)
    (hunhooked : ∀ number, (lexer.mode number).onEnd = none) : lexer.EndsAsMeant :=
  ⟨hunhooked, h.alone, h.written, h.either, h.apart⟩

/-- What the end rule of a mode is put together from: its own end pattern, the end rule of the mode
around it, both of them, or nothing. -/
inductive Lexer.Composes (lexer : Lexer) (mode : LexerMode) (outer : Option String) : Prop where
  | nothing (hend : mode.endRegex = none) (hfree : mode.endsWithParent = false)
      (hterminator : mode.terminator = none)
  | outer (hend : mode.endRegex = none) (hties : mode.endsWithParent = true)
      (hterminator : mode.terminator = outer)
  | own {source : String} {regex : Regex} (hend : mode.endRegex = some regex)
      (hcompile : Regex.compile lexer.ignoreCase source = .ok regex)
      (hnone : mode.endsWithParent = true → outer = none)
      (hterminator : mode.terminator = some source)
  | both {source inherited : String} {regex : Regex} (hend : mode.endRegex = some regex)
      (hcompile : Regex.compile lexer.ignoreCase source = .ok regex)
      (hties : mode.endsWithParent = true) (houter : outer = some inherited)
      (hterminator : mode.terminator = some (source ++ "|" ++ inherited))

theorem Lexer.Inherits.composes {lexer : Lexer} {mode : LexerMode} {outer : Option String}
    (h : Lexer.Inherits lexer.ignoreCase mode outer)
    (hwritten : ∀ regex, mode.endRegex = some regex →
      Regex.compile lexer.ignoreCase "" ≠ .ok regex) : lexer.Composes mode outer := by
  obtain ⟨fields, own, hparent, hrel, hterminator⟩ := h
  unfold Lexer.terminatorOf at hterminator
  rw [← hparent] at hterminator
  generalize hend : mode.endRegex = endRegex at *
  cases hrel with
  | none =>
    cases hties : mode.endsWithParent <;> rw [hties] at hterminator
    · exact .nothing hend hties hterminator
    · refine .outer hend hties ?_
      cases outer <;> exact hterminator
  | @some source regex hcompile =>
    have hfilter : (some source).filter (fun source => !source.isEmpty) = some source := by
      refine Option.filter_eq_some_iff.mpr ⟨rfl, ?_⟩
      cases hempty : source.isEmpty with
      | false => rfl
      | true =>
        rw [String.isEmpty_iff.mp hempty] at hcompile
        exact absurd hcompile (hwritten regex rfl)
    rw [hfilter] at hterminator
    cases hties : mode.endsWithParent <;> rw [hties] at hterminator
    · exact .own hend hcompile (fun h => absurd (hties.symm.trans h) Bool.false_ne_true) hterminator
    · cases outer with
      | none => exact .own hend hcompile (fun _ => rfl) hterminator
      | some inherited => exact .both hend hcompile hties rfl hterminator

namespace Scan

/-- How many groups the end pattern of a mode has. -/
def endGroups (mode : LexerMode) : Nat :=
  (mode.endRegex.map (·.groups)).getD 0

section

variable {lexer : Lexer} {number : Nat} {outer : Option String} {text : Array Char} {position : Nat}

/-- Where the end rule of a mode and that of the mode around it stand alone, the former matches as
an alternation of the own end pattern of the mode and the latter. -/
theorem alternatesAt_of_both {source inherited : String} {regex : Regex}
    (hends : lexer.EndsAsWritten) (hend : (lexer.mode number).endRegex = some regex)
    (hcompile : Regex.compile lexer.ignoreCase source = .ok regex)
    (hties : (lexer.mode number).endsWithParent = true)
    (hterminator : (lexer.mode number).terminator = some (source ++ "|" ++ inherited))
    (hown : ∀ source, (lexer.mode number).terminator = some source →
      (⟨source, .finish⟩ : Rule).StandsAlone lexer.ignoreCase)
    (houter : (⟨inherited, .finish⟩ : Rule).StandsAlone lexer.ignoreCase)
    (text : Array Char) (position : Nat) :
    ∃ outerRegex joined, Regex.compile lexer.ignoreCase inherited = .ok outerRegex ∧
      Regex.compile lexer.ignoreCase (source ++ "|" ++ inherited) = .ok joined ∧
      Regex.AlternatesAt regex outerRegex joined text position := by
  have hjoined := (hown _ hterminator).compile_eq
  have hinherited := houter.compile_eq
  exact ⟨_, _, hinherited, hjoined,
    (hends.either number source inherited regex hties hterminator hend hcompile).alternatesAt
      hcompile hinherited hjoined text position⟩

/-- The end rule of a mode matches where its own end pattern does and, where it ends with the mode
around it, also where the end rule of that one does. -/
theorem matchesAlone_terminator (hends : lexer.EndsAsWritten)
    (hinherits : Lexer.Inherits lexer.ignoreCase (lexer.mode number) outer)
    (hown : ∀ source, (lexer.mode number).terminator = some source →
      (⟨source, .finish⟩ : Rule).StandsAlone lexer.ignoreCase)
    (houter : (lexer.mode number).endsWithParent = true → ∀ source, outer = some source →
      (⟨source, .finish⟩ : Rule).StandsAlone lexer.ignoreCase)
    (text : Array Char) (position : Nat) :
    lexer.matchesAlone (lexer.mode number).terminator text position =
      (endsAt (lexer.mode number) text position ||
        (lexer.mode number).endsWithParent && lexer.matchesAlone outer text position) := by
  rw [Lexer.matchesAlone_eq, Lexer.matchesAlone_eq, endsAt]
  cases hinherits.composes (hends.written number) with
  | nothing hend hfree hterminator =>
    rw [hend, hfree, hterminator]
    rfl
  | outer hend hties hterminator =>
    rw [hend, hties, hterminator, Bool.false_or, Bool.true_and]
  | own hend hcompile hnone hterminator =>
    rw [hend, hterminator, Lexer.matchAlone?_of_compile hcompile]
    cases hties : (lexer.mode number).endsWithParent with
    | false => rw [Bool.false_and, Bool.or_false]
    | true =>
      rw [hnone hties]
      simp [Lexer.matchAlone?]
  | both hend hcompile hties hsome hterminator =>
    obtain ⟨outerRegex, joined, hinherited, hjoined, halternates⟩ :=
      alternatesAt_of_both hends hend hcompile hties hterminator hown (houter hties _ hsome) text
        position
    rw [hend, hties, hsome, hterminator, Lexer.matchAlone?_of_compile hjoined,
      Lexer.matchAlone?_of_compile hinherited, Bool.true_and]
    exact halternates.isSome_matchAt?

/-- Where the own end pattern of a mode matches, its end rule matches with the same groups. -/
theorem matchAlone?_own {regex : Regex} {hit : Regex.Match} (hends : lexer.EndsAsWritten)
    (hinherits : Lexer.Inherits lexer.ignoreCase (lexer.mode number) outer)
    (hown : ∀ source, (lexer.mode number).terminator = some source →
      (⟨source, .finish⟩ : Rule).StandsAlone lexer.ignoreCase)
    (houter : (lexer.mode number).endsWithParent = true → ∀ source, outer = some source →
      (⟨source, .finish⟩ : Rule).StandsAlone lexer.ignoreCase)
    (hregex : (lexer.mode number).endRegex = some regex)
    (hhit : regex.matchAt? text position = some hit) :
    ∃ hit', lexer.matchAlone? (lexer.mode number).terminator text position = some hit' ∧
      Regex.Match.Moved 0 hit hit' := by
  cases hinherits.composes (hends.written number) with
  | nothing hend _ _ | outer hend _ _ => cases hend.symm.trans hregex
  | own hend hcompile hnone hterminator =>
    cases hend.symm.trans hregex
    rw [hterminator, Lexer.matchAlone?_of_compile hcompile]
    exact ⟨hit, hhit, .refl hit⟩
  | both hend hcompile hties hsome hterminator =>
    cases hend.symm.trans hregex
    obtain ⟨outerRegex, joined, -, hjoined, halternates⟩ :=
      alternatesAt_of_both hends hend hcompile hties hterminator hown (houter hties _ hsome) text
        position
    rw [hterminator, Lexer.matchAlone?_of_compile hjoined]
    exact halternates.first hit hhit

/-- Where the own end pattern of a mode does not match, but the end rule of the mode around it does,
with which it ends, its end rule matches with the groups of that one behind its own. -/
theorem matchAlone?_outer {hit : Regex.Match} (hends : lexer.EndsAsWritten)
    (hinherits : Lexer.Inherits lexer.ignoreCase (lexer.mode number) outer)
    (hown : ∀ source, (lexer.mode number).terminator = some source →
      (⟨source, .finish⟩ : Rule).StandsAlone lexer.ignoreCase)
    (houter : ∀ source, outer = some source →
      (⟨source, .finish⟩ : Rule).StandsAlone lexer.ignoreCase)
    (hties : (lexer.mode number).endsWithParent = true)
    (hmiss : endsAt (lexer.mode number) text position = false)
    (hhit : lexer.matchAlone? outer text position = some hit) :
    ∃ hit', lexer.matchAlone? (lexer.mode number).terminator text position = some hit' ∧
      Regex.Match.Moved (endGroups (lexer.mode number)) hit hit' := by
  unfold endsAt at hmiss
  cases hinherits.composes (hends.written number) with
  | nothing _ hfree _ => exact absurd (hfree.symm.trans hties) Bool.false_ne_true
  | outer hend _ hterminator =>
    rw [hterminator, endGroups, hend]
    exact ⟨hit, hhit, .refl hit⟩
  | own _ _ hnone _ =>
    rw [hnone hties] at hhit
    cases hhit
  | both hend hcompile _ hsome hterminator =>
    obtain ⟨outerRegex, joined, hinherited, hjoined, halternates⟩ :=
      alternatesAt_of_both hends hend hcompile hties hterminator hown (houter _ hsome) text position
    rw [hsome, Lexer.matchAlone?_of_compile hinherited] at hhit
    rw [hend, Option.isSome_eq_false_iff, Option.isNone_iff_eq_none] at hmiss
    have hsecond := halternates.second hmiss
    rw [hhit] at hsecond
    rw [hterminator, Lexer.matchAlone?_of_compile hjoined, endGroups, hend]
    generalize joined.matchAt? text position = result at hsecond ⊢
    cases hsecond with
    | some hmoved => exact ⟨_, rfl, hmoved⟩

end

end Scan

end Highlighter
