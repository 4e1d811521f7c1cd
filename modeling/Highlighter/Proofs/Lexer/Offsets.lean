import Highlighter.Lexer.Build
import Highlighter.Proofs.Outcome
import Highlighter.Proofs.Pattern.Numbering

/-!
# Group numbers on both sides

The numbers of the groups of joined sources are worked out three times: while the sources are
rewritten, when rules are joined, and for the segments of a pattern. All three agree with the
groups in the pieces of the joined source.
-/

namespace Highlighter

namespace JoinedRules

/-- The entry of a rule has the number of the group of its source. -/
theorem groupEntries_getElem? (group : Nat) {place : Nat} {rules : List Rule} :
    (groupEntries (group + 1) rules)[place]? = rules[place]?.map fun rule =>
      (group + Pattern.wrapperNumber (rules.map (·.source)) place, rule.kind) := by
  induction rules generalizing group place with
  | nil => rfl
  | cons rule rules ih =>
    rw [groupEntries]
    cases place with
    | zero => rfl
    | succ place =>
      rw [List.getElem?_cons_succ, List.getElem?_cons_succ, ih, List.map_cons,
        Pattern.wrapperNumber_succ]
      congr 1
      funext rule
      congr 1
      omega

theorem entries_of_build {ignoreCase : Bool} {rules : List Rule} {joined : JoinedRules}
    (h : build ignoreCase rules = .ok joined) : joined.entries = groupEntries 1 rules := by
  unfold build at h
  split at h
  · next hnil =>
    cases h
    rw [List.isEmpty_iff.mp hnil]
    rfl
  · obtain ⟨regex, -, h⟩ := ok_of_bind_eq_ok h
    cases h
    rfl

end JoinedRules

namespace Lexer

/-- The scope of a segment is that of the number of the group of its source. -/
theorem segmentScopes_getElem? {scopes : List (Nat × String)} (number : Nat) {offset place : Nat}
    {parts : List Pattern} :
    (segmentScopes scopes (number + 1) offset parts)[place]? = parts[place]?.map fun _ =>
      ⟨number + offset + Pattern.wrapperNumber (Pattern.sources parts) place,
        scopes.lookup (number + 1 + place)⟩ := by
  induction parts generalizing number offset place with
  | nil => rfl
  | cons part parts ih =>
    rw [segmentScopes, Pattern.sources]
    cases place with
    | zero =>
      simp [Pattern.wrapperNumber]
      omega
    | succ place =>
      rw [List.getElem?_cons_succ, List.getElem?_cons_succ, ih, Pattern.wrapperNumber_succ]
      congr 1
      funext part
      congr 1
      · omega
      · rw [Nat.add_right_comm, Nat.add_assoc _ place]

theorem segmentScopes_length {scopes : List (Nat × String)} {number offset : Nat}
    {parts : List Pattern} : (segmentScopes scopes number offset parts).length = parts.length := by
  induction parts generalizing number offset with
  | nil => rfl
  | cons part parts ih => rw [segmentScopes, List.length_cons, List.length_cons, ih]

end Lexer

namespace Pattern

/-- The numbers of the groups of joined sources agree. -/
structure Offsets (separator : String) (sources : List String) : Prop where
  /-- One count that goes on while the sources are rewritten leads to the same source. -/
  counting : joinGroups separator sources =
    String.ofList (List.intercalate separator.toList (wrapCounting 0 sources))
  /-- A source stands in the group with its number, and only references to numbers of a machine
  word differ in it, by that number. -/
  wrapped : ∀ place source, sources[place]? = some source → ∃ before moved after,
    Piece.ofSource (joinGroups separator sources).toList =
      before ++ .capture [] :: (moved ++ .plain ')' :: after) ∧
    before.countP Piece.isCapture + 1 = wrapperNumber sources place ∧
    List.Forall₂ (Piece.Moved (wrapperNumber sources place)) (Piece.ofSource source.toList) moved
  /-- Joined rules have these numbers. -/
  rules : ∀ ignoreCase (rules : List Rule) joined, rules.map (·.source) = sources →
    JoinedRules.build ignoreCase rules = .ok joined →
      ∀ place rule, rules[place]? = some rule →
        joined.entries[place]? = some (wrapperNumber sources place, rule.kind)
  /-- The scopes of segments have these numbers. -/
  segments : ∀ edge scopes parts, Pattern.sources parts = sources →
    ∃ recorded : List SegmentScope,
      Lexer.edgeScope edge (some (.segments scopes)) (some (.segments parts)) =
          .ok (some (.segments recorded)) ∧
      recorded.length = sources.length ∧
      ∀ place segment, recorded[place]? = some segment →
        segment = (⟨wrapperNumber sources place, scopes.lookup (place + 1)⟩ : SegmentScope)
  /-- Joining adds one group for each source. -/
  count : countGroups (joinGroups separator sources) =
    sources.length + (sources.map countGroups).sum
  /-- The joined source can be joined with others. -/
  joins : Joins (joinGroups separator sources)

/-- Sources with a class, references and a number that is no machine word. -/
def mixedSources : List String :=
  ["(a)\\1", "[(\\]](?<b>z)\\1", "(?:c)\\18446744073709551616"]

/-- Segments with segments and alternatives inside. -/
def nestedSegments : Pattern :=
  .segments [.segments [.regex "(a)\\1", .literal "("], .either [.regex "b", .regex "(c)"]]

end Pattern

end Highlighter
