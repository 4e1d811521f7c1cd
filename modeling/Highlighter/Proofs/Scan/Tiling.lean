import Highlighter.Proofs.Regex.Concat
import Highlighter.Proofs.Scan.Fence

/-!
# Segments cover their match

The scopes of segments are kept with the numbers of the groups in which the segments stand. A match
of the segments consists of these groups, one after the other, so that adding the segments of a
match adds its text, piece by piece and nothing else.
-/

namespace Highlighter

namespace Lexer

variable {grammar : Grammar} {lexer : Lexer} {fields : ModeFields} {number owner : Nat}
  {outer : Option (Option String)} {outline : Outline} {scopes : List (Nat × String)}
  {parts : List Pattern}

/-- The groups of segments are those in which the sources of the segments stand. -/
theorem groups_segmentScopes {flags : Regex.Flags} {reads : List Regex.Tree.Source}
    (h : Regex.Tree.ReadInTurn flags (Pattern.sources parts) reads) (number offset : Nat) :
    (segmentScopes scopes (number + 1) offset parts).map (·.group) =
      Regex.Tree.wrapNumbers (number + offset) reads := by
  induction parts generalizing flags reads number offset with
  | nil =>
    cases h
    rfl
  | cons part parts ih =>
    rw [Pattern.sources] at h
    cases h with
    | cons _ _ hcount _ hrest =>
      have hfirst : number + 1 + offset = number + offset + 1 := by omega
      have hlater : number + 1 + (offset + Pattern.countGroups part.source) =
          number + offset + 1 + Pattern.countGroups part.source := by omega
      rw [segmentScopes, List.map_cons, ih hrest, hfirst, hlater, hcount]
      rfl

theorem scopes_segmentScopes (number offset : Nat) :
    (segmentScopes scopes number offset parts).map (·.scope) =
      (List.range' number parts.length).map fun number => scopes.lookup number := by
  induction parts generalizing number offset with
  | nil => rfl
  | cons part parts ih =>
    rw [segmentScopes, List.map_cons, ih, List.length_cons, List.range'_succ, List.map_cons]

/-- A mode below the top mode has been made from fields. -/
def HasFields (grammar : Grammar) (lexer : Lexer) (fields : ModeFields) (number : Nat) : Prop :=
  ∃ terminator place isTied hook contains next,
    lexer.Stands grammar (some terminator) (.mk place isTied hook (.ok fields) contains next) number

/-- A mode begins and ends with the patterns of the fields that it has been made from. -/
theorem HasFields.mode (h : lexer.HasFields grammar fields number) :
    edgeScope .begin fields.beginScope fields.beginPattern = .ok (lexer.mode number).beginScope ∧
      edgeScope .finish fields.endScope fields.endPattern = .ok (lexer.mode number).endScope ∧
      (lexer.mode number).beginSource = some (Outline.sourceOrAnywhere fields.beginPattern) ∧
      Option.Rel (fun source regex => Regex.compile grammar.caseInsensitive source = .ok regex)
        (endSource fields) (lexer.mode number).endRegex := by
  obtain ⟨terminator, place, isTied, hook, contains, next, h⟩ := h
  obtain ⟨-, base, numbers, following, rules, hsurvey, hmode, -⟩ := represents_mk.mp h
  have heq : lexer.mode number =
      { base with contains := numbers, next := following, rules := rules } := hmode
  obtain ⟨sound, hsound, hbase⟩ := modeOf_of_survey hsurvey
  cases hsound
  obtain ⟨hbegin, hfinish, -⟩ := modeOf_eq_ok hbase
  obtain ⟨-, hsource, -, hrel⟩ := modeOf_sources hbase
  rw [heq]
  exact ⟨hbegin, hfinish, hsource, hrel⟩

/-- The rule by which a mode begins in another one has the begin pattern of the mode. -/
theorem Stands.begin_rule {source : String} (h : lexer.Stands grammar outer outline owner)
    (hmem : ⟨source, .begin number⟩ ∈ (lexer.mode owner).rules.rules) :
    source = ((lexer.mode number).beginSource).getD "" := by
  obtain ⟨place, isTied, hook, fields, contains, next⟩ := outline
  obtain ⟨-, base, numbers, following, rules, -, hmode, hrules, -⟩ := represents_mk.mp h
  have heq : lexer.mode owner =
      { base with contains := numbers, next := following, rules := rules } := hmode
  rw [heq] at hmem
  change _ ∈ rules.rules at hmem
  rw [(RuleSet.build_eq_ok hrules).1] at hmem
  simp only [rulesOf, List.mem_append, List.mem_map, Option.mem_toList,
    Option.map_eq_some_iff] at hmem
  obtain (⟨child, -, heq⟩ | ⟨_, -, heq⟩) | ⟨_, -, heq⟩ := hmem
  · cases heq
    rfl
  · cases heq
  · cases heq

end Lexer

namespace Scan

variable {env : Env} {nested : Nested} {state : State} {found : RuleMatch}
  {segments : List SegmentScope} {scopes : List (Nat × String)} {parts : List Pattern}
  {start stop : Nat}

/-! ## Adding segments -/

/-- The text of a segment of a match, and its scope. -/
def Env.piece (env : Env) (found : RuleMatch) (segment : SegmentScope) : String × Option String :=
  (((found.groups[segment.group]?.join).map (·.text env.text)).getD "", segment.scope)

/-- Adds texts, each in its scope or, where it has none, with the keywords of the innermost mode
marked. -/
def addPieces (env : Env) (state : State) : List (String × Option String) → State
  | [] => state
  | (text, some scope) :: pieces =>
    addPieces env
      { state with tree := state.tree.addScoped text (env.lexer.scopeName scope) } pieces
  | (text, none) :: pieces => addPieces env (markKeywords env text state) pieces

/-- The segments of a match, of which the first `count` numbers stand in a map of scopes, lie next
to each other and cover it: adding them adds its text, piece by piece. -/
structure Covers (env : Env) (found : RuleMatch) (scopes : List (Nat × String)) (count : Nat)
    (segments : List SegmentScope) : Prop where
  scopes : segments.map (·.scope) = (List.range' 1 count).map fun number => scopes.lookup number
  tiles : Regex.Tiles (fun number => found.groups[number]?.join) (segments.map (·.group))
    found.span.start found.span.stop
  adds : ∀ state, Adds state (env.lexeme found) (addSegments env found state segments)
  pieces : ∀ state, addSegments env found state segments =
    addPieces env state (segments.map (env.piece found))

/-- Segments that lie next to each other have the text that they cover. -/
theorem segmentsText_of_tiles {text : Array Char}
    (hgroups : ∀ (number : Nat) (span : Regex.Span), found.groups[number]?.join = some span → span.start ≤ span.stop)
    (h : Regex.Tiles (fun number => found.groups[number]?.join) (segments.map (·.group))
      start stop) :
    start ≤ stop ∧ segmentsText text found segments = Regex.Span.text ⟨start, stop⟩ text := by
  induction segments generalizing start with
  | nil =>
    obtain rfl : start = stop := h
    exact ⟨Nat.le_refl start, Regex.Span.text_self.symm⟩
  | cons segment segments ih =>
    obtain ⟨middle, hgroup, hrest⟩ := h
    change found.groups[segment.group]?.join = some ⟨start, middle⟩ at hgroup
    have hfirst : start ≤ middle := hgroups _ _ hgroup
    obtain ⟨hlast, htext⟩ := ih hrest
    refine ⟨Nat.le_trans hfirst hlast, ?_⟩
    rw [← Regex.Span.text_append hfirst hlast, ← htext, segmentsText, List.map_cons,
      String.join_cons, hgroup]
    rfl

/-- Segments that all take part are added piece by piece. -/
theorem addSegments_of_tiles
    (h : Regex.Tiles (fun number => found.groups[number]?.join) (segments.map (·.group))
      start stop) (state : State) :
    addSegments env found state segments =
      addPieces env state (segments.map (env.piece found)) := by
  induction segments generalizing start state with
  | nil => rfl
  | cons segment segments ih =>
    obtain ⟨middle, hgroup, hrest⟩ := h
    change found.groups[segment.group]?.join = some ⟨start, middle⟩ at hgroup
    rw [addSegments, hgroup, List.map_cons, Env.piece, hgroup]
    cases hscope : segment.scope with
    | none => exact ih hrest _
    | some scope => exact ih hrest _

theorem index_le_size {set : RuleSet} {text : Array Char} {cursor rest : Nat}
    (h : set.find text start cursor = .ok (some found, rest)) : found.index ≤ text.size := by
  obtain ⟨hstart, hwithin⟩ := RuleSet.find_within h
  rw [← hstart]
  exact Nat.le_trans hwithin.start_le hwithin.stop_le

/-- A match of an array of segments falls into the stretches of the segments. -/
theorem Covers.of_hit {ignoreCase : Bool} {regex : Regex} {hit : Regex.Match} {position : Nat}
    (hparts : ∃ reads, Regex.Tree.ReadInTurn (Regex.startFlags ignoreCase)
      (Pattern.sources parts) reads)
    (hcompile : Regex.compile ignoreCase (Pattern.segments parts).source = .ok regex)
    (hhit : regex.matchAt? env.text position = some hit) (hle : position ≤ env.text.size)
    (hreports : found.Reports hit) :
    Covers env found scopes parts.length (Lexer.segmentScopes scopes 1 0 parts) := by
  obtain ⟨reads, hreads⟩ := hparts
  obtain ⟨joined, hread, hregex⟩ := ok_of_bind_eq_ok hcompile
  rw [Pattern.source] at hread
  have htiles : Regex.Tiles hit.group? (Regex.Tree.wrapNumbers 0 reads) hit.span.start
      hit.span.stop :=
    Regex.Tree.tiles_of_matchAt? hreads hread hregex hhit
  have hfound : Regex.Tiles (fun number => found.groups[number]?.join)
      ((Lexer.segmentScopes scopes 1 0 parts).map (·.group)) found.span.start
      found.span.stop := by
    rw [hreports.span, Lexer.groups_segmentScopes hreads 0 0]
    exact htiles.congr fun number _ => hreports number
  have hgroups : ∀ (number : Nat) (span : Regex.Span), found.groups[number]?.join = some span →
      span.start ≤ span.stop := by
    intro number span hgroup
    rw [hreports number] at hgroup
    exact ((Regex.matchAt?_within hle hhit).2.group? hgroup).start_le
  refine ⟨Lexer.scopes_segmentScopes 1 0, hfound, fun state => ?_, addSegments_of_tiles hfound⟩
  have hadds := addSegments_adds env found state (Lexer.segmentScopes scopes 1 0 parts)
  rw [(segmentsText_of_tiles hgroups hfound).2] at hadds
  exact hadds

theorem edgeScope_segments_eq {edge : Edge} {scope : Option EdgeScope}
    (h : Lexer.edgeScope edge (some (.segments scopes)) (some (.segments parts)) = .ok scope) :
    scope = some (.segments (Lexer.segmentScopes scopes 1 0 parts)) := by
  cases h
  rfl

/-- What reports a match whose groups have not moved up reports the match as well. -/
theorem reports_of_moved {hit hit' : Regex.Match} (h : found.Reports hit')
    (hmoved : Regex.Match.Moved 0 hit hit') : found.Reports hit := by
  intro number
  rw [h number]
  cases number with
  | zero => exact congrArg some hmoved.span
  | succ number => exact hmoved.moved (number + 1) (Nat.succ_pos number)

section

variable {grammar : Grammar} {outline : Outline} {fields : ModeFields}
  {number start cursor rest : Nat}
  (hroot : env.lexer.Stands grammar none outline Lexer.root)
  (hcase : env.lexer.ignoreCase = grammar.caseInsensitive)
  (hstacked : Lexer.Stacked grammar env.lexer (state.frames.map (·.mode)))
  (hfields : env.lexer.HasFields grammar fields number)
  (hparts : ∃ reads, Regex.Tree.ReadInTurn (Regex.startFlags env.lexer.ignoreCase)
    (Pattern.sources parts) reads)
  (hfind : (state.top env).rules.find env.text start cursor = .ok (some found, rest))
include hroot hcase hstacked hfields hparts hfind

/-- The segments of a begin pattern cover every begin match. -/
theorem covers_of_begin
    (halone : ∀ rule ∈ (state.top env).rules.rules, rule.StandsAlone env.lexer.ignoreCase)
    (hkind : found.kind = .begin number) (hpattern : fields.beginPattern = some (.segments parts))
    (hscope : fields.beginScope = some (.segments scopes)) :
    ∃ segments, (env.lexer.mode number).beginScope = some (.segments segments) ∧
      Covers env found scopes parts.length segments := by
  obtain ⟨hbeginScope, -, hbeginSource, -⟩ := hfields.mode
  obtain ⟨_, _, howner⟩ := hstacked.stands ⟨_, hroot⟩
  rw [List.head?_map] at howner
  have hbuild := howner.rules.1
  rw [← hcase] at hbuild
  obtain ⟨⟨source, kind⟩, hmem, hrule, -, hit, hhit, hreports⟩ :=
    RuleSet.exists_rule_matching hbuild halone hfind
  obtain rfl : RuleKind.begin number = kind := hkind.symm.trans hrule
  have hsource := howner.begin_rule hmem
  rw [hbeginSource, hpattern] at hsource
  have hregex := (halone _ hmem).compile_eq
  rw [show source = (Pattern.segments parts).source from hsource] at hregex hhit
  rw [hpattern, hscope] at hbeginScope
  exact ⟨_, edgeScope_segments_eq hbeginScope,
    .of_hit hparts hregex hhit (index_le_size hfind) hreports⟩

/-- The segments of an end pattern cover every end match in which the innermost mode ends with its
own end pattern. -/
theorem covers_of_finish (hlinked : env.lexer.Linked) (hwritten : env.lexer.EndsAsWritten)
    (hkind : found.kind = .finish) (hhead : state.frames.head?.map (·.mode) = some number)
    (hends : endsAt (env.lexer.mode number) env.text found.index = true)
    (hpattern : fields.endPattern = some (.segments parts))
    (hscope : fields.endScope = some (.segments scopes)) :
    ∃ segments, (env.lexer.mode number).endScope = some (.segments segments) ∧
      Covers env found scopes parts.length segments := by
  obtain ⟨-, hendScope, -, hend⟩ := hfields.mode
  obtain ⟨frame, hframe, rfl⟩ := Option.map_eq_some_iff.mp hhead
  rw [List.head?_eq_getElem?] at hframe
  obtain ⟨regex, own, hregex, hown⟩ := exists_hit_of_endsAt hends
  have hfirst : EndsFirst env found.index state.frames 0 :=
    ⟨⟨frame, hframe, hends⟩, fun earlier hless => absurd hless (Nat.not_lt_zero earlier)⟩
  obtain ⟨hit, offset, hhit, hmoved, hoffset⟩ :=
    exists_hit_stacked hroot hlinked hcase hwritten hstacked hfirst hframe hregex hown
  obtain rfl : offset = 0 := hoffset.mpr (List.forall_mem_nil _)
  obtain ⟨_, _, howner⟩ := hstacked.stands ⟨_, hroot⟩
  rw [List.head?_map] at howner hhit
  obtain ⟨hit', hhit', hreports⟩ := reports_of_find howner hcase hwritten hfind hkind
  cases hhit.symm.trans hhit'
  have hsource : Lexer.endSource fields = some (Pattern.segments parts).source := by
    rw [Lexer.endSource, hpattern]
  rw [hregex, hsource, Option.rel_some_some, ← hcase] at hend
  rw [hpattern, hscope] at hendScope
  exact ⟨_, edgeScope_segments_eq hendScope,
    .of_hit hparts hend hown (index_le_size hfind) (reports_of_moved hreports hmoved)⟩

end

/-- Segments cover their match. Where the begin pattern of a mode is an array of segments with a map
of scopes, each of which reads in turn, and the rules around it match among each other as they do
alone, the groups that are kept for the segments lie next to each other in every begin match of the
mode and cover it, so that adding them adds the text of the match, piece by piece. The same holds of
an end match in which the innermost mode ends with its own end pattern. -/
theorem Reachable.segments_cover {grammar : Grammar} {meaning : String → RawMode}
    {fields : ModeFields} {number start cursor rest : Nat}
    (h : Reachable env nested state) (hshares : grammar.root.Shares meaning)
    (hcompile : grammar.compile = .ok env.lexer)
    (halone : ∀ rule ∈ (state.top env).rules.rules, rule.StandsAlone env.lexer.ignoreCase)
    (hfields : env.lexer.HasFields grammar.rootless fields number)
    (hparts : ∃ reads, Regex.Tree.ReadInTurn (Regex.startFlags env.lexer.ignoreCase)
      (Pattern.sources parts) reads)
    (hfind : (state.top env).rules.find env.text start cursor = .ok (some found, rest)) :
    (found.kind = .begin number → fields.beginPattern = some (.segments parts) →
      fields.beginScope = some (.segments scopes) →
      ∃ segments, (env.lexer.mode number).beginScope = some (.segments segments) ∧
        Covers env found scopes parts.length segments) ∧
    (found.kind = .finish → state.frames.head?.map (·.mode) = some number →
      endsAt (env.lexer.mode number) env.text found.index = true → env.lexer.EndsAsWritten →
      fields.endPattern = some (.segments parts) → fields.endScope = some (.segments scopes) →
      ∃ segments, (env.lexer.mode number).endScope = some (.segments segments) ∧
        Covers env found scopes parts.length segments) := by
  obtain ⟨hcase, -, hroot⟩ := grammar.compile_stands hshares hcompile
  have hlinked := grammar.compile_linked hcompile
  have hstacked := h.stacked ⟨_, hroot⟩ hlinked
  constructor
  · intro hkind hpattern hscope
    exact covers_of_begin hroot hcase hstacked hfields hparts hfind halone hkind hpattern hscope
  · intro hkind hhead hends hwritten hpattern hscope
    exact covers_of_finish hroot hcase hstacked hfields hparts hfind hlinked hwritten hkind hhead
      hends hpattern hscope

/-- A mode that begins and ends with segments. -/
def bracketFields : ModeFields :=
  { beginPattern := some (.segments [.regex "(a)\\1", .segments [.regex "b", .literal "["]])
    beginScope := some (.segments [(1, "letters")])
    endPattern := some (.segments [.regex "(c)?", .literal "]"])
    endScope := some (.segments [(2, "bracket")]) }

/-- A grammar with two modes that begin with doubled letters. The second one begins and ends with
segments. -/
def doubles : Grammar where
  name := "doubles"
  root := .of {} [
    .own (.of {
      beginPattern := some (.regex "(x)\\1")
      endPattern := some (.literal ".") }),
    .own (.of bracketFields)]

/-- A scan of a text with this grammar. -/
def doublesEnv : Env where
  lexer := doubles.compile.toOption.getD default
  language := "doubles"
  text := "aab[c]".toList.toArray
  options := ⟨false, true⟩
  settings := {}

theorem doubles_shares : doubles.root.Shares fun _ => default := by
  simp [doubles, RawMode.of, RawChild.own, RawMode.Shares, RawMode.SharesChildren,
    RawMode.SharesVariants, RawMode.SharesNext]

theorem doubles_compiles : doubles.compile = .ok doublesEnv.lexer := by
  dsimp only [doublesEnv]
  exact eq_ok_of_isOk (by decide +kernel) default

theorem hasFields_doubles : doublesEnv.lexer.HasFields doubles.rootless bracketFields 2 := by
  obtain ⟨-, -, hroot⟩ := doubles.compile_stands doubles_shares doubles_compiles
  have hcontains : (doublesEnv.lexer.mode 0).contains = [1, 2] := by decide +kernel
  obtain ⟨_, first, rest, hnumbers, -, hrest⟩ := hroot.children hcontains
  cases hnumbers
  obtain ⟨second, rest, hnumbers, hsecond, -⟩ := hrest
  cases hnumbers
  exact ⟨_, _, _, _, _, _, hsecond⟩

theorem endsAsWritten_doubles : doublesEnv.lexer.EndsAsWritten :=
  endsAsWritten_of_forall (by decide) (by decide) readsAsEither_letters (by decide +kernel)

/-- Sources that stand alone read in turn. -/
theorem exists_readInTurn {ignoreCase : Bool} {sources : List String}
    (h : ∀ source ∈ sources, (⟨source, .finish⟩ : Rule).StandsAlone ignoreCase) :
    ∃ reads, Regex.Tree.ReadInTurn (Regex.startFlags ignoreCase) sources reads := by
  let rules : List Rule := sources.map (⟨·, .finish⟩)
  have halone : ∀ rule ∈ rules, rule.StandsAlone ignoreCase := by
    intro rule hrule
    obtain ⟨source, hsource, rfl⟩ := List.mem_map.mp hrule
    exact h source hsource
  have hsources : rules.map (·.source) = sources := by
    rw [List.map_map]
    exact List.map_id' sources
  obtain ⟨reads, hreads, -⟩ := (JoinedRules.Alone.of_standsAlone halone).readInTurn
  rw [hsources] at hreads
  exact ⟨reads, hreads⟩

/-- The second mode begins and ends with its segments. -/
theorem Reachable.segments_cover_doubles :
    doubles.compile = .ok doublesEnv.lexer ∧ doublesEnv.lexer.EndsAsWritten ∧
    doublesEnv.lexer.HasFields doubles.rootless bracketFields 2 ∧
    (∃ state found rest segments, Reachable doublesEnv .unknown state ∧
      (state.top doublesEnv).rules.find doublesEnv.text 0 0 = .ok (some found, rest) ∧
      found.kind = .begin 2 ∧
      (doublesEnv.lexer.mode 2).beginScope = some (.segments segments) ∧
      Covers doublesEnv found [(1, "letters")] 2 segments) ∧
    ∃ state found rest segments, Reachable doublesEnv .unknown state ∧
      state.frames.map (·.mode) = [2] ∧
      (state.top doublesEnv).rules.find doublesEnv.text 4 0 = .ok (some found, rest) ∧
      found.kind = .finish ∧
      (doublesEnv.lexer.mode 2).endScope = some (.segments segments) ∧
      Covers doublesEnv found [(2, "bracket")] 2 segments := by
  -- the grammar is compiled once for all that is looked at
  obtain ⟨hcase, hbefore, hmatch, hafter, hmatch', hends⟩ :
      doublesEnv.lexer.ignoreCase = false ∧ modesAfter doublesEnv 0 = some [] ∧
      ((doublesEnv.lexer.mode 0).rules.find doublesEnv.text 0 0).toOption.bind
        (fun result => result.1.map fun found => (found.kind, found.index)) =
          some (.begin 2, 0) ∧
      modesAfter doublesEnv 1 = some [2] ∧
      ((doublesEnv.lexer.mode 2).rules.find doublesEnv.text 4 0).toOption.bind
        (fun result => result.1.map fun found => (found.kind, found.index)) =
          some (.finish, 4) ∧
      endsAt (doublesEnv.lexer.mode 2) doublesEnv.text 4 = true := by decide +kernel
  have hbegin : ∃ reads, Regex.Tree.ReadInTurn (Regex.startFlags doublesEnv.lexer.ignoreCase)
      (Pattern.sources [.regex "(a)\\1", .segments [.regex "b", .literal "["]]) reads := by
    rw [hcase]
    exact exists_readInTurn (by decide +kernel)
  have hfinish : ∃ reads, Regex.Tree.ReadInTurn (Regex.startFlags doublesEnv.lexer.ignoreCase)
      (Pattern.sources [.regex "(c)?", .literal "]"]) reads := by
    rw [hcase]
    exact exists_readInTurn (by decide +kernel)
  have hwritten := endsAsWritten_doubles
  refine ⟨doubles_compiles, hwritten, hasFields_doubles, ?_, ?_⟩
  · obtain ⟨state, found, rest, hstate, hmodes, hfind, hkind, -⟩ :=
      exists_found_of_modesAfter hbefore rfl hmatch
    obtain ⟨hcovers, -⟩ := hstate.segments_cover doubles_shares doubles_compiles
      (hwritten.alone _) hasFields_doubles hbegin hfind
    obtain ⟨segments, hsegments, hcovers⟩ := hcovers hkind rfl rfl
    exact ⟨state, found, rest, segments, hstate, hfind, hkind, hsegments, hcovers⟩
  · obtain ⟨state, found, rest, hstate, hmodes, hfind, hkind, hindex⟩ :=
      exists_found_of_modesAfter hafter rfl hmatch'
    have hhead : state.frames.head?.map (·.mode) = some 2 := by
      rw [← List.head?_map, hmodes]
      rfl
    rw [← hindex] at hends
    obtain ⟨-, hcovers⟩ := hstate.segments_cover doubles_shares doubles_compiles
      (hwritten.alone _) hasFields_doubles hfinish hfind
    obtain ⟨segments, hsegments, hcovers⟩ := hcovers hkind hhead hends hwritten rfl rfl
    exact ⟨state, found, rest, segments, hstate, hmodes, hfind, hkind, hsegments, hcovers⟩

/-- A grammar with segments behind a class that begins with a bracket. -/
def misnumbered : Grammar where
  name := "misnumbered"
  root := .of {} [
    .own (.of { wholePattern := some (.regex "[](]") }),
    .own (.of {
      beginPattern := some (.segments [.regex "a", .regex "b"])
      beginScope := some (.segments [(1, "x"), (2, "y")]) })]

/-- A scan of two letters with this grammar. -/
def misnumberedEnv : Env where
  lexer := misnumbered.compile.toOption.getD default
  language := "misnumbered"
  text := "ab".toList.toArray
  options := ⟨false, true⟩
  settings := {}

/-- The class is counted as a group, so that the segments are looked for in the groups behind their
own. -/
theorem misses_segments : misnumbered.compile = .ok misnumberedEnv.lexer ∧
    Pattern.countGroups "a" = 0 ∧ Pattern.countGroups "b" = 0 ∧
    ∃ found segments,
      (misnumberedEnv.lexer.mode 0).rules.find misnumberedEnv.text 0 0 = .ok (some found, 0) ∧
      found.kind = .begin 2 ∧
      (misnumberedEnv.lexer.mode 2).beginScope = some (.segments segments) ∧
      misnumberedEnv.lexeme found = "a" ∧
      segmentsText misnumberedEnv.text found segments = "b" ∧
      ¬ Covers misnumberedEnv found [(1, "x"), (2, "y")] 2 segments := by
  let found : RuleMatch := ⟨0, [some ⟨0, 1⟩, some ⟨1, 2⟩], .begin 2, 1⟩
  let segments : List SegmentScope := [⟨1, some "x"⟩, ⟨2, some "y"⟩]
  obtain ⟨hok, hfirst, hsecond, hfind, hscope, hlexeme, htext⟩ : misnumbered.compile.isOk = true ∧
      Pattern.countGroups "a" = 0 ∧ Pattern.countGroups "b" = 0 ∧
      (misnumberedEnv.lexer.mode 0).rules.find misnumberedEnv.text 0 0 = .ok (some found, 0) ∧
      (misnumberedEnv.lexer.mode 2).beginScope = some (.segments segments) ∧
      misnumberedEnv.lexeme found = "a" ∧
      segmentsText misnumberedEnv.text found segments = "b" := by decide +kernel
  have hcompile : misnumbered.compile = .ok misnumberedEnv.lexer := by
    dsimp only [misnumberedEnv]
    exact eq_ok_of_isOk hok default
  refine ⟨hcompile, hfirst, hsecond, found, segments, hfind, rfl, hscope, hlexeme,
    htext, fun hcovers => ?_⟩
  obtain ⟨middle, hgroup, -⟩ := hcovers.tiles
  cases hgroup

end Scan

end Highlighter
