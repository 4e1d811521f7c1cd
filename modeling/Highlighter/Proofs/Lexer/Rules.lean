import Highlighter.Lexer.Rules
import Highlighter.Proofs.Regex.Bounds

/-!
# What the rules of a mode find

A match of a joined rule is a stretch of the text that starts at the position reported for it. That
it does not start before the search does is a matter of the groups in which the rules stand: where
the group of the matched rule spans the whole match, the search never goes back.
-/

namespace Highlighter

/-- The group that tells which of the rules has matched spans the whole match. -/
def JoinedRules.SpansMatch (rules : JoinedRules) : Prop :=
  ∀ regex, rules.regex = some regex → ∀ text start found group kind position span,
    regex.find? text start = some found →
    JoinedRules.matchedEntry found 0 rules.entries = some (group, kind, position, span) →
    span = found.span

/-- However many rules are left to try, the group of the matched rule spans the whole match. -/
def RuleSet.SpansMatch (set : RuleSet) : Prop :=
  ∀ first joined, set.joinedFrom first = .ok joined → joined.SpansMatch

namespace JoinedRules

variable {rules : JoinedRules} {text : Array Char} {start : Nat} {found : RuleMatch}

/-- The matched entry is the first one whose group took part. -/
theorem matchedEntry_eq_some {hit : Regex.Match} {place group position : Nat} {kind : RuleKind}
    {span : Regex.Span} {entries : List (Nat × RuleKind)}
    (h : matchedEntry hit place entries = some (group, kind, position, span)) :
    ∃ before after, entries = before ++ (group, kind) :: after ∧
      position = place + before.length ∧ hit.group? group = some span ∧
      ∀ entry ∈ before, hit.group? entry.1 = none := by
  induction entries generalizing place with
  | nil => cases h
  | cons entry entries ih =>
    obtain ⟨number, kind'⟩ := entry
    simp only [matchedEntry] at h
    split at h
    · next hgroup =>
      cases h
      exact ⟨[], entries, rfl, rfl, hgroup, fun _ hmem => by cases hmem⟩
    · next hgroup =>
      obtain ⟨before, after, rfl, hposition, hspan, hbefore⟩ := ih h
      refine ⟨(number, kind') :: before, after, rfl, ?_, hspan, ?_⟩
      · simp only [List.length_cons]
        omega
      · intro entry hmem
        rcases List.mem_cons.mp hmem with rfl | hmem
        · exact hgroup
        · exact hbefore entry hmem

/-- A match of joined rules, taken apart into the match of the expression and the entry of the rule
that has matched. -/
theorem find?_eq_some (h : rules.find? text start = some found) :
    ∃ regex hit group span, rules.regex = some regex ∧ regex.find? text start = some hit ∧
      matchedEntry hit 0 rules.entries = some (group, found.kind, found.position, span) ∧
      hit.group? group = some span ∧ found.index = span.start ∧
      found.groups = (List.range' group (regex.groups + 1 - group)).map hit.group? := by
  simp only [find?, Option.bind_eq_bind, Option.bind_eq_some_iff, Option.pure_def,
    Option.some.injEq] at h
  obtain ⟨regex, hregex, hit, hmatch, ⟨group, kind, position, span⟩, hentry, rfl⟩ := h
  obtain ⟨_, _, _, _, hspan, _⟩ := matchedEntry_eq_some hentry
  exact ⟨regex, hit, group, span, hregex, hmatch, hentry, hspan, rfl, rfl⟩

/-- What joined rules find is a stretch of the text. -/
theorem find?_within (h : rules.find? text start = some found) :
    found.span.start = found.index ∧ found.span.Within text.size := by
  obtain ⟨regex, hit, group, span, _, hmatch, _, hgroup, hindex, hgroups⟩ := find?_eq_some h
  have hwithin := (Regex.find?_within hmatch).2.group? hgroup
  unfold RuleMatch.span
  rw [hgroups, List.getElem?_map]
  rcases Nat.eq_zero_or_pos (regex.groups + 1 - group) with hzero | hpos
  · have hle := hwithin.start_le
    have hstop := hwithin.stop_le
    rw [hzero]
    simp only [List.range'_zero, List.getElem?_nil, Option.map_none, Option.join_none,
      Option.getD_none, hindex, true_and]
    exact ⟨Nat.le_refl _, Nat.le_trans hle hstop⟩
  · rw [List.getElem?_range' hpos]
    simp only [Nat.mul_zero, Nat.add_zero, Option.map_some, hgroup, Option.join_some,
      Option.getD_some, hindex, true_and]
    exact hwithin

theorem SpansMatch.start_le_index (hspans : rules.SpansMatch)
    (h : rules.find? text start = some found) : start ≤ found.index := by
  obtain ⟨regex, hit, group, span, hregex, hmatch, hentry, _, hindex, _⟩ := find?_eq_some h
  have hspan := hspans regex hregex text start hit _ _ _ _ hmatch hentry
  rw [hindex, hspan]
  exact (Regex.find?_within hmatch).1

end JoinedRules

namespace RuleSet

variable {set : RuleSet} {text : Array Char} {start cursor after : Nat} {found : RuleMatch}

/-- A match of a rule set is found by some of its rules, joined, at the start of the search or one
character later. -/
theorem find_eq_ok (h : set.find text start cursor = .ok (some found, after)) :
    ∃ first joined origin, set.joinedFrom first = .ok joined ∧
      joined.find? text origin = some found ∧ start ≤ origin := by
  simp only [find, bind, Except.bind] at h
  split at h
  · cases h
  · next joined hjoined =>
    by_cases hresume : (cursor ≠ 0 && (joined.find? text start).map (·.index) != some start) = true
    · simp only [hresume, if_true] at h
      by_cases hstart : start < text.size
      · simp only [hstart, if_true] at h
        cases hfound : set.joined.find? text (start + 1) with
        | none => simp [hfound, pure, Except.pure] at h
        | some other =>
          simp only [hfound, pure, Except.pure, Except.ok.injEq, Prod.mk.injEq,
            Option.some.injEq] at h
          obtain ⟨rfl, -⟩ := h
          exact ⟨0, set.joined, start + 1, by simp [joinedFrom], hfound, by omega⟩
      · simp [hstart, pure, Except.pure] at h
    · simp only [hresume, Bool.false_eq_true, if_false] at h
      cases hfound : joined.find? text start with
      | none => simp [hfound, pure, Except.pure] at h
      | some other =>
        simp only [hfound, pure, Except.pure, Except.ok.injEq, Prod.mk.injEq,
          Option.some.injEq] at h
        obtain ⟨rfl, -⟩ := h
        exact ⟨cursor, joined, start, hjoined, hfound, Nat.le_refl _⟩

/-- What the rules of a mode find is a stretch of the text. -/
theorem find_within (h : set.find text start cursor = .ok (some found, after)) :
    found.span.start = found.index ∧ found.span.Within text.size := by
  obtain ⟨_, _, _, _, hfound, _⟩ := find_eq_ok h
  exact JoinedRules.find?_within hfound

theorem SpansMatch.start_le_index (hspans : set.SpansMatch)
    (h : set.find text start cursor = .ok (some found, after)) : start ≤ found.index := by
  obtain ⟨first, joined, origin, hjoined, hfound, hle⟩ := find_eq_ok h
  exact Nat.le_trans hle ((hspans first joined hjoined).start_le_index hfound)

end RuleSet

end Highlighter
