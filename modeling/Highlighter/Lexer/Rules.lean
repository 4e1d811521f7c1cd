import Highlighter.Pattern.Source
import Highlighter.Regex.Match

/-!
# Rules

A mode looks for several things at once: the begin patterns of its children, its own end and what
is illegal in it. Its rules are joined into one regular expression, each in a group of its own,
and the group that took part tells which rule has matched. After a match that was ignored, the
search goes on at the same position with the later rules.
-/

namespace Highlighter

/-- What a rule stands for. -/
inductive RuleKind where
  /-- The mode with this number begins. -/
  | begin (mode : Nat)
  | finish
  | illegal
  deriving DecidableEq, Repr, Inhabited

/-- A rule of a mode. -/
structure Rule where
  source : String
  kind : RuleKind
  deriving DecidableEq, Repr, Inhabited

/-- A match of a rule. Group 0 is the whole match; the groups of the rule follow. -/
structure RuleMatch where
  index : Nat
  groups : List (Option Regex.Span)
  kind : RuleKind
  /-- The place of the rule among the rules that were tried. -/
  position : Nat
  deriving DecidableEq, Repr, Inhabited

/-- The stretch of the matched text. -/
def RuleMatch.span (found : RuleMatch) : Regex.Span :=
  (found.groups[0]?.join).getD ⟨found.index, found.index⟩

/-- Rules joined into one expression, each with the number of its group. -/
structure JoinedRules where
  regex : Option Regex
  entries : List (Nat × RuleKind)

namespace JoinedRules

/-- The groups in which rules stand, when `group` is the first of them. -/
def groupEntries (group : Nat) : List Rule → List (Nat × RuleKind)
  | [] => []
  | rule :: rules =>
    (group, rule.kind) :: groupEntries (group + Pattern.countGroups rule.source + 1) rules

/-- Joins rules. -/
def build (ignoreCase : Bool) (rules : List Rule) : Except Regex.Error JoinedRules := do
  if rules.isEmpty then return ⟨none, []⟩
  let regex ← Regex.compile ignoreCase (Pattern.joinGroups "|" (rules.map (·.source)))
  return ⟨some regex, groupEntries 1 rules⟩

/-- The first entry whose group took part in a match, with its position. -/
def matchedEntry (found : Regex.Match) (position : Nat) :
    List (Nat × RuleKind) → Option (Nat × RuleKind × Nat × Regex.Span)
  | [] => none
  | (group, kind) :: entries =>
    match found.group? group with
    | some span => some (group, kind, position, span)
    | none => matchedEntry found (position + 1) entries

/-- The first match of a rule at or after `start`. -/
def find? (rules : JoinedRules) (text : Array Char) (start : Nat) : Option RuleMatch := do
  let regex ← rules.regex
  let found ← regex.find? text start
  let (group, kind, position, span) ← matchedEntry found 0 rules.entries
  return {
    index := span.start
    groups := (List.range' group (regex.groups + 1 - group)).map found.group?
    kind := kind
    position := position }

end JoinedRules

/-- The rules of a mode. All of them are joined at once; the later rules are joined when they are
needed. -/
structure RuleSet where
  rules : List Rule := []
  ignoreCase : Bool := false
  joined : JoinedRules := ⟨none, []⟩

namespace RuleSet

/-- The rules of a mode, refused when they cannot be joined. -/
def build (ignoreCase : Bool) (rules : List Rule) : Except Regex.Error RuleSet := do
  return ⟨rules, ignoreCase, ← JoinedRules.build ignoreCase rules⟩

/-- The rules from number `first` on, joined. -/
def joinedFrom (set : RuleSet) (first : Nat) : Except Regex.Error JoinedRules :=
  if first = 0 then .ok set.joined
  else JoinedRules.build set.ignoreCase (set.rules.drop (min first (set.rules.length - 1)))

/-- The next match at or after `start`, when `cursor` is the first rule to try, and the cursor for
the search after it. A cursor above 0 means that the match of the rule before it was ignored: the
rules from the cursor on are tried at `start` only, and all rules after that from the next
character on. -/
def find (set : RuleSet) (text : Array Char) (start cursor : Nat) :
    Except Regex.Error (Option RuleMatch × Nat) := do
  let found := (← set.joinedFrom cursor).find? text start
  let (base, found) :=
    if cursor ≠ 0 && (found.map (·.index)) != some start then
      (0, if start < text.size then set.joined.find? text (start + 1) else none)
    else (cursor, found)
  match found with
  | none => return (none, cursor)
  | some found =>
    let after := base + found.position + 1
    return (some found, if set.rules.length ≤ after then 0 else after)

end RuleSet

end Highlighter
