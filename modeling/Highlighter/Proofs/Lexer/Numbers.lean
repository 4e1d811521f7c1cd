import Highlighter.Proofs.Lexer.Build
import Highlighter.Proofs.Lexer.Renumbering

/-!
# What the numbers in a lexer refer to

While a lexer is built, a mode gets its number before the modes inside it, and every number that is
noted down has been given before. So the modes of a lexer refer only to modes that are there, and
never to the top mode. Since matches are found by rules that stand for the modes inside a mode, the
number in a begin match is that of such a mode as well.
-/

namespace Highlighter

namespace JoinedRules

variable {ignoreCase : Bool} {rules : List Rule} {joined : JoinedRules} {text : Array Char}
  {start : Nat} {found : RuleMatch}

theorem exists_rule_of_mem_groupEntries {group : Nat} {entry : Nat × RuleKind}
    (h : entry ∈ groupEntries group rules) : ∃ rule ∈ rules, rule.kind = entry.2 := by
  induction rules generalizing group with
  | nil => cases h
  | cons rule rules ih =>
    rw [groupEntries, List.mem_cons] at h
    rcases h with rfl | h
    · exact ⟨rule, List.mem_cons_self, rfl⟩
    · obtain ⟨other, hmem, hkind⟩ := ih h
      exact ⟨other, List.mem_cons_of_mem _ hmem, hkind⟩

/-- A match of joined rules stands for what one of them stands for. -/
theorem exists_rule_of_find? (hbuild : build ignoreCase rules = .ok joined)
    (hfind : joined.find? text start = some found) : ∃ rule ∈ rules, rule.kind = found.kind := by
  obtain ⟨regex, hit, group, span, hregex, -, hentry, -⟩ := find?_eq_some hfind
  obtain ⟨before, after, hentries, -⟩ := matchedEntry_eq_some hentry
  have hmem : (group, found.kind) ∈ joined.entries := by
    rw [hentries]
    exact List.mem_append_right _ List.mem_cons_self
  unfold build at hbuild
  split at hbuild
  · cases hbuild
    cases hregex
  · obtain ⟨_, -, hpure⟩ := ok_of_bind_eq_ok hbuild
    cases hpure
    exact exists_rule_of_mem_groupEntries hmem

end JoinedRules

namespace RuleSet

variable {ignoreCase : Bool} {set : RuleSet} {text : Array Char} {start cursor after : Nat}
  {found : RuleMatch}

/-- What a search finds stands for what one of the rules stands for. -/
theorem exists_rule_of_find (hbuild : build ignoreCase set.rules = .ok set)
    (hfind : set.find text start cursor = .ok (some found, after)) :
    ∃ rule ∈ set.rules, rule.kind = found.kind := by
  obtain ⟨first, joined, origin, hjoined, hfound, -⟩ := find_eq_ok hfind
  unfold joinedFrom at hjoined
  split at hjoined
  · cases hjoined
    exact JoinedRules.exists_rule_of_find? (build_eq_ok hbuild).2.2 hfound
  · obtain ⟨rule, hmem, hkind⟩ := JoinedRules.exists_rule_of_find? hjoined hfound
    exact ⟨rule, List.mem_of_mem_drop hmem, hkind⟩

end RuleSet

/-- The number of a mode below the top mode, where there are `count` modes. -/
structure Lexer.IsInner (count number : Nat) : Prop where
  above : Lexer.root < number
  below : number < count

/-- A mode refers to modes below the top mode, of which there are `count` with it, and its rules
begin modes inside it. -/
structure LexerMode.Linked (count : Nat) (mode : LexerMode) : Prop where
  contains : ∀ number ∈ mode.contains, Lexer.IsInner count number
  next : ∀ number, mode.next = some number → Lexer.IsInner count number
  begins : ∀ rule ∈ mode.rules.rules, ∀ number, rule.kind = .begin number →
    number ∈ mode.contains
  built : ∃ ignoreCase, RuleSet.build ignoreCase mode.rules.rules = .ok mode.rules

/-- A lexer has a top mode, and all of its modes refer to modes below that. -/
structure Lexer.Linked (lexer : Lexer) : Prop where
  root : Lexer.root < lexer.modeCount
  modes : ∀ number, (lexer.mode number).Linked lexer.modeCount

namespace Lexer

variable {draft draft' : Draft} {grammar : Grammar} {count count' number : Nat}

theorem IsInner.mono (h : IsInner count number) (hle : count ≤ count') : IsInner count' number :=
  ⟨h.above, Nat.lt_of_lt_of_le h.below hle⟩

end Lexer

namespace LexerMode

variable {mode : LexerMode} {count count' : Nat}

theorem Linked.mono (h : mode.Linked count) (hle : count ≤ count') : mode.Linked count' where
  contains number hmem := (h.contains number hmem).mono hle
  next number hnext := (h.next number hnext).mono hle
  begins := h.begins
  built := h.built

/-- A mode that refers to nothing. -/
theorem Linked.of_bare (hcontains : mode.contains = []) (hnext : mode.next = none)
    (hrules : mode.rules = {}) : mode.Linked count where
  contains number hmem := by
    rw [hcontains] at hmem
    cases hmem
  next number hsome := by cases hnext.symm.trans hsome
  begins rule hmem := by
    rw [hrules] at hmem
    cases hmem
  built := ⟨false, by rw [hrules]; rfl⟩

/-- A begin match of a mode is that of a mode inside it. -/
theorem Linked.contains_of_find {text : Array Char} {start cursor after number : Nat}
    {found : RuleMatch} (h : mode.Linked count)
    (hfind : mode.rules.find text start cursor = .ok (some found, after))
    (hkind : found.kind = .begin number) : number ∈ mode.contains := by
  obtain ⟨ignoreCase, hbuilt⟩ := h.built
  obtain ⟨rule, hmem, hrule⟩ := RuleSet.exists_rule_of_find hbuilt hfind
  exact h.begins rule hmem number (hrule.trans hkind)

end LexerMode

namespace Lexer

variable {draft draft' : Draft} {grammar : Grammar} {number : Nat}

/-- The modes of a draft refer to modes below the top mode, and so do the numbers that are known for
places. -/
structure Draft.Linked (draft : Draft) : Prop where
  modes : ∀ mode ∈ draft.modes, mode.Linked draft.modes.size
  known : ∀ place number, draft.known.lookup place = some number → IsInner draft.modes.size number

/-- A draft has grown in a part of the construction and is still linked. -/
structure Draft.Grows (draft draft' : Draft) : Prop where
  size_le : draft.modes.size ≤ draft'.modes.size
  linked : draft'.Linked

theorem Draft.Grows.trans {between : Draft} (h : draft.Grows between) (h' : between.Grows draft') :
    draft.Grows draft' :=
  ⟨Nat.le_trans h.size_le h'.size_le, h'.linked⟩

/-- A mode refers to nothing before the modes inside it have been built. -/
theorem modeOf_bare {fields : ModeFields} {hook : Option Hook} {parent : Option LexerMode}
    {mode : LexerMode} (h : modeOf grammar fields hook parent = .ok mode) :
    mode.contains = [] ∧ mode.next = none ∧ mode.rules = {} := by
  simp only [modeOf, pure_bind] at h
  obtain ⟨beginScope, -, h⟩ := ok_of_bind_eq_ok h
  obtain ⟨endScope, -, h⟩ := ok_of_bind_eq_ok h
  split at h
  · obtain ⟨endRegex, -, h⟩ := ok_of_bind_eq_ok h
    split at h
    · obtain ⟨keywords, -, h⟩ := ok_of_bind_eq_ok h
      cases h
      exact ⟨rfl, rfl, rfl⟩
    · cases h
      exact ⟨rfl, rfl, rfl⟩
  · split at h
    · obtain ⟨keywords, -, h⟩ := ok_of_bind_eq_ok h
      cases h
      exact ⟨rfl, rfl, rfl⟩
    · cases h
      exact ⟨rfl, rfl, rfl⟩

theorem add_linked {mode : LexerMode} (hmode : ∀ count, mode.Linked count) (hdraft : draft.Linked)
    (h : Builds (add mode) draft number draft') :
    number = draft.modes.size ∧ number < draft'.modes.size ∧ draft.Grows draft' := by
  obtain ⟨_, _, hget, h⟩ := builds_bind_iff.mp h
  obtain ⟨rfl, rfl⟩ := builds_get_iff.mp hget
  obtain ⟨_, _, hset, hpure⟩ := builds_bind_iff.mp h
  obtain ⟨hnumber, rfl⟩ := builds_pure_iff.mp hpure
  rw [← builds_set_iff.mp hset, ← hnumber]
  have hsize : (draft.modes.push mode).size = draft.modes.size + 1 := Array.size_push _
  refine ⟨rfl, by simp only [hsize]; omega, by simp only [hsize]; omega, ?_, ?_⟩
  · intro other hmem
    rcases Array.mem_push.mp hmem with hmem | rfl
    · exact (hdraft.modes other hmem).mono (by simp only [hsize]; omega)
    · exact hmode _
  · intro place known hknown
    exact (hdraft.known place known hknown).mono (by simp only [hsize]; omega)

theorem begins_rulesOf {mode : LexerMode} {contains : List Nat} {rule : Rule}
    (hmem : rule ∈ rulesOf draft mode contains) (hkind : rule.kind = .begin number) :
    number ∈ contains := by
  simp only [rulesOf, List.mem_append, List.mem_map, Option.mem_toList, Option.map_eq_some_iff]
    at hmem
  rcases hmem with (⟨child, hchild, rfl⟩ | ⟨source, -, rfl⟩) | ⟨source, -, rfl⟩
  · cases hkind
    exact hchild
  · cases hkind
  · cases hkind

theorem complete_linked {contains : List Nat} {next : Option Nat} {u : Unit}
    (hdraft : draft.Linked) (hcontains : ∀ child ∈ contains, IsInner draft.modes.size child)
    (hnext : ∀ following, next = some following → IsInner draft.modes.size following)
    (h : Builds (complete grammar number contains next) draft u draft') : draft.Grows draft' := by
  obtain ⟨_, _, hget, h⟩ := builds_bind_iff.mp h
  obtain ⟨rfl, rfl⟩ := builds_get_iff.mp hget
  simp only at h
  split at h
  · exact absurd h not_builds_throw
  · next rules hrules =>
    rw [← builds_set_iff.mp h]
    have hsize : ∀ mode, (draft.modes.setIfInBounds number mode).size = draft.modes.size :=
      fun mode => Array.size_setIfInBounds
    obtain ⟨hlisted, -, hjoined⟩ := RuleSet.build_eq_ok hrules
    refine ⟨by simp only [hsize]; exact Nat.le_refl _, ?_, ?_⟩
    · intro other hmem
      simp only [hsize]
      rcases Array.mem_or_eq_of_mem_setIfInBounds hmem with hmem | rfl
      · exact hdraft.modes other hmem
      · refine ⟨hcontains, hnext, fun rule hrule child hkind => ?_, grammar.caseInsensitive, ?_⟩
        · simp only [hlisted] at hrule
          exact begins_rulesOf hrule hkind
        · simp only [hlisted]
          exact hrules
    · simp only [hsize]
      exact hdraft.known

theorem known?_inner {isTied : Bool} {place : Option Place} {known : Option Nat}
    (hdraft : draft.Linked) (h : Builds (known? isTied place) draft known draft') :
    ∀ number, known = some number → IsInner draft.modes.size number := by
  intro number hnumber
  unfold known? at h
  split at h
  · next place =>
    obtain ⟨_, _, hget, hpure⟩ := builds_bind_iff.mp h
    obtain ⟨rfl, rfl⟩ := builds_get_iff.mp hget
    exact hdraft.known place number ((builds_pure_iff.mp hpure).1.trans hnumber)
  · cases (builds_pure_iff.mp h).1.trans hnumber

theorem remember_linked {isTied : Bool} {place : Option Place} {u : Unit} (hdraft : draft.Linked)
    (hnumber : IsInner draft.modes.size number)
    (h : Builds (remember isTied place number) draft u draft') :
    draft'.modes = draft.modes ∧ draft.Grows draft' := by
  unfold remember at h
  split at h
  · cases h
    refine ⟨rfl, Nat.le_refl _, hdraft.modes, fun place known hknown => ?_⟩
    rw [List.lookup_cons] at hknown
    split at hknown
    · cases hknown
      exact hnumber
    · exact hdraft.known place known hknown
  · obtain ⟨-, rfl⟩ := builds_pure_iff.mp h
    exact ⟨rfl, Nat.le_refl _, hdraft⟩

-- Inside another mode there is at least that mode, so that the next number is not that of the top
-- mode.
mutual
theorem buildMode_linked {grammar : Grammar} {parent : Option Nat} {outline : Outline}
    {number : Nat} {draft draft' : Draft} (hdraft : draft.Linked)
    (hparent : parent.isSome = true → 0 < draft.modes.size)
    (h : Builds (buildMode grammar parent outline) draft number draft') :
    number = draft.modes.size ∧ number < draft'.modes.size ∧ draft.Grows draft' := by
  match outline with
  | .mk place isTied hook fields contains next =>
    rw [buildMode] at h
    obtain ⟨_, _, hget, h⟩ := builds_bind_iff.mp h
    obtain ⟨rfl, rfl⟩ := builds_get_iff.mp hget
    obtain ⟨mode, _, hlift, h⟩ := builds_bind_iff.mp h
    obtain ⟨hok, rfl⟩ := builds_lift_iff.mp hlift
    obtain ⟨sound, hsound, hmode⟩ := ok_of_bind_eq_ok hok
    obtain ⟨hcontains, hnext, hrules⟩ := modeOf_bare hmode
    obtain ⟨_, added, hadd, h⟩ := builds_bind_iff.mp h
    obtain ⟨rfl, hbelow, hadded⟩ :=
      add_linked (fun _ => .of_bare hcontains hnext hrules) hdraft hadd
    obtain ⟨numbers, built, hchildren, h⟩ := builds_bind_iff.mp h
    have howner : parent.isNone = false → IsInner added.modes.size draft.modes.size := by
      intro hsome
      exact ⟨hparent (by cases parent with
        | none => cases hsome
        | some _ => rfl), hbelow⟩
    obtain ⟨hnumbers, hbuilt⟩ :=
      buildChildren_linked hadded.linked (Nat.zero_lt_of_lt hbelow) howner hchildren
    obtain ⟨following, followed, hfollowing, h⟩ := builds_bind_iff.mp h
    obtain ⟨hfollowed, hgrown⟩ := buildNext_linked hbuilt.linked
      (Nat.lt_of_lt_of_le (Nat.zero_lt_of_lt hbelow) hbuilt.size_le) hfollowing
    obtain ⟨_, _, hcomplete, hpure⟩ := builds_bind_iff.mp h
    obtain ⟨rfl, rfl⟩ := builds_pure_iff.mp hpure
    have hcompleted := complete_linked hgrown.linked
      (fun child hmem => (hnumbers child hmem).mono hgrown.size_le) hfollowed hcomplete
    have hgrows := ((hadded.trans hbuilt).trans hgrown).trans hcompleted
    refine ⟨rfl, ?_, hgrows⟩
    exact Nat.lt_of_lt_of_le hbelow ((hbuilt.trans hgrown).trans hcompleted).size_le

theorem buildChildren_linked {grammar : Grammar} {atTop : Bool} {owner : Nat}
    {children : List (Option Outline)} {numbers : List Nat} {draft draft' : Draft}
    (hdraft : draft.Linked) (hsize : 0 < draft.modes.size)
    (howner : atTop = false → IsInner draft.modes.size owner)
    (h : Builds (buildChildren grammar atTop owner children) draft numbers draft') :
    (∀ number ∈ numbers, IsInner draft'.modes.size number) ∧ draft.Grows draft' := by
  match children with
  | [] =>
    rw [buildChildren] at h
    obtain ⟨rfl, rfl⟩ := builds_pure_iff.mp h
    exact ⟨fun number hmem => (by cases hmem), Nat.le_refl _, hdraft⟩
  | none :: children =>
    rw [buildChildren] at h
    split at h
    · obtain ⟨_, _, hthrow, _⟩ := builds_bind_iff.mp h
      exact absurd hthrow not_builds_throw
    · next htop =>
      obtain ⟨rest, _, hrest, hpure⟩ := builds_bind_iff.mp h
      obtain ⟨rfl, rfl⟩ := builds_pure_iff.mp hpure
      obtain ⟨hnumbers, hgrows⟩ := buildChildren_linked hdraft hsize howner hrest
      have hinner := (howner (eq_false_of_ne_true htop)).mono hgrows.size_le
      exact ⟨List.forall_mem_cons.mpr ⟨hinner, hnumbers⟩, hgrows⟩
  | some child :: children =>
    rw [buildChildren] at h
    simp only [pure_bind] at h
    obtain ⟨known, _, hknown, h⟩ := builds_bind_iff.mp h
    have hinner := known?_inner hdraft hknown
    cases known?_eq hknown
    split at h
    · next number =>
      obtain ⟨rest, _, hrest, hpure⟩ := builds_bind_iff.mp h
      obtain ⟨rfl, rfl⟩ := builds_pure_iff.mp hpure
      obtain ⟨hnumbers, hgrows⟩ := buildChildren_linked hdraft hsize howner hrest
      have hnumber := (hinner number rfl).mono hgrows.size_le
      exact ⟨List.forall_mem_cons.mpr ⟨hnumber, hnumbers⟩, hgrows⟩
    · obtain ⟨number, built, hbuild, h⟩ := builds_bind_iff.mp h
      obtain ⟨rfl, hbelow, hbuilt⟩ := buildMode_linked hdraft (fun _ => hsize) hbuild
      obtain ⟨_, noted, hremember, h⟩ := builds_bind_iff.mp h
      obtain ⟨hmodes, hnoted⟩ := remember_linked hbuilt.linked ⟨hsize, hbelow⟩ hremember
      obtain ⟨rest, last, hrest, hpure⟩ := builds_bind_iff.mp h
      obtain ⟨rfl, rfl⟩ := builds_pure_iff.mp hpure
      have hgrown := hbuilt.trans hnoted
      obtain ⟨hnumbers, hgrows⟩ := buildChildren_linked hgrown.linked
        (Nat.lt_of_lt_of_le hsize hgrown.size_le)
        (fun htop => (howner htop).mono hgrown.size_le) hrest
      have hnumber : IsInner last.modes.size draft.modes.size :=
        ⟨hsize, Nat.lt_of_lt_of_le hbelow (hnoted.trans hgrows).size_le⟩
      exact ⟨List.forall_mem_cons.mpr ⟨hnumber, hnumbers⟩, hgrown.trans hgrows⟩

theorem buildNext_linked {grammar : Grammar} {parent : Option Nat} {next : Option Outline}
    {following : Option Nat} {draft draft' : Draft} (hdraft : draft.Linked)
    (hsize : 0 < draft.modes.size)
    (h : Builds (buildNext grammar parent next) draft following draft') :
    (∀ number, following = some number → IsInner draft'.modes.size number) ∧
      draft.Grows draft' := by
  match next with
  | none =>
    rw [buildNext] at h
    obtain ⟨rfl, rfl⟩ := builds_pure_iff.mp h
    exact ⟨fun number hsome => (by cases hsome), Nat.le_refl _, hdraft⟩
  | some next =>
    cases parent with
    | none =>
      rw [buildNext] at h
      exact absurd h not_builds_throw
    | some parent =>
      rw [buildNext] at h
      obtain ⟨known, _, hknown, h⟩ := builds_bind_iff.mp h
      have hinner := known?_inner hdraft hknown
      cases known?_eq hknown
      split at h
      · next number =>
        obtain ⟨rfl, rfl⟩ := builds_pure_iff.mp h
        exact ⟨hinner, Nat.le_refl _, hdraft⟩
      · obtain ⟨number, built, hbuild, h⟩ := builds_bind_iff.mp h
        obtain ⟨rfl, hbelow, hbuilt⟩ := buildMode_linked hdraft (fun _ => hsize) hbuild
        obtain ⟨_, noted, hremember, hpure⟩ := builds_bind_iff.mp h
        obtain ⟨rfl, rfl⟩ := builds_pure_iff.mp hpure
        obtain ⟨hmodes, hnoted⟩ := remember_linked hbuilt.linked ⟨hsize, hbelow⟩ hremember
        refine ⟨fun number hsome => ?_, hbuilt.trans hnoted⟩
        cases hsome
        exact ⟨hsize, Nat.lt_of_lt_of_le hbelow hnoted.size_le⟩
end

end Lexer

/-- In the lexer of a grammar, no mode refers to the top mode or to a mode that is not there. -/
theorem Grammar.compile_linked {grammar : Grammar} {lexer : Lexer}
    (h : grammar.compile = .ok lexer) : lexer.Linked := by
  obtain ⟨⟨_, draft⟩, hbuild, hlexer⟩ := ok_of_bind_eq_ok h
  cases hlexer
  have hempty : Lexer.Draft.Linked {} := by
    constructor
    · intro mode hmem
      simp at hmem
    · intro place number hknown
      cases hknown
  obtain ⟨rfl, hbelow, hgrows⟩ := Lexer.buildMode_linked hempty (fun hsome => by cases hsome) hbuild
  refine ⟨hbelow, Lexer.mode_of_forall (.of_bare rfl rfl rfl) fun mode hmem => ?_⟩
  exact hgrows.linked.modes mode (Array.mem_toList_iff.mp hmem)

end Highlighter
