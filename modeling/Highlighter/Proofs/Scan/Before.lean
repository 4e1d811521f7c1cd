import Highlighter.Proofs.Lexer.Before
import Highlighter.Proofs.Scan.Extent
import Highlighter.Proofs.Scan.Registers

/-!
# Scanning what stands before a mode

The match of what must stand before a mode enters an unmarked mode, which ends at once, without
text, where the match ends. The scan goes on in the bare mode behind it. There the first rule is the
begin pattern of the mode itself, which has been looked for and so matches right there.
-/

namespace Highlighter.Scan

variable {env : Env} {nested : Nested} {found : RuleMatch} {state state' : State}
  {advance number outer bare inner cursor : Nat} {modes : List Nat} {before after : Trace}
  {progress : Progress}

/-! ## Steps -/

/-- What a scan has come to: where it stands in which modes, and what it has written so far. -/
@[ext]
structure Situation where
  modes : List Nat
  index : Nat
  content : String
  buffer : String
  starts : List (String × Nat)
  lastMatch : Option (RuleKind × Nat)
  resume : Bool

def State.situation (state : State) : Situation where
  modes := state.frames.map (·.mode)
  index := state.index
  content := state.tree.content
  buffer := state.buffer
  starts := state.tree.starts
  lastMatch := state.lastMatch
  resume := state.resume

theorem index_add_width (hspan : found.span.start = found.index)
    (hwithin : found.span.Within env.text.size) : found.index + width found = found.span.stop := by
  have hstart := hwithin.start_le
  unfold width
  omega

/-- A match that enters or leaves modes is kept as the last one, and the registers stay as they are
otherwise. -/
theorem handle_registers
    (h : Returns (handle env nested found state) before (state', advance) after)
    (hmove : moveOf env found state ≠ .stay) :
    state'.registers = (state.recorded found).registers := by
  have hhandles := handle_parts h
  generalize moveOf env found state = move at hhandles hmove
  cases hhandles with
  | empty | ignored | unended | illegal => exact absurd rfl hmove
  | entered hkind haccept hready => rw [registers_enter, hready.registers]
  | left hkind hended hplaced =>
    rw [registers_goOn, registers_popFrames, placeEnd_registers hplaced]
    rfl

/-- A step that finds a match which enters or leaves modes handles it, and is the last one if it
goes beyond the text. -/
theorem step_of_move (hnested : nested.KeepsText)
    (hfind : (state.top env).rules.find env.text state.index state.begun.cursor =
      .ok (some found, cursor))
    (hmove : moveOf env found (state.reached env found cursor) ≠ .stay)
    (h : Returns (step env nested state) before progress after) :
    ∃ state' advance,
      Handled env found (state.reached env found cursor)
        (moveOf env found (state.reached env found cursor)) state' advance ∧
      state'.registers = ((state.reached env found cursor).recorded found).registers ∧
      progress = if env.text.size < found.index + advance then
          .done { state' with index := found.index + advance }
        else .more { state' with index := found.index + advance } := by
  obtain ⟨hspan, hwithin⟩ := RuleSet.find_within hfind
  rw [step_eq, hfind] at h
  obtain ⟨⟨state', advance⟩, _, hhandle, hpure⟩ := returns_bind_iff.mp h
  obtain ⟨rfl, rfl⟩ := returns_pure_iff.mp hpure
  exact ⟨state', advance, handle_handled hnested hspan hwithin hhandle,
    handle_registers hhandle hmove, rfl⟩

/-! ## Unmarked modes -/

theorem enter_of_isUnmarked (h : (env.lexer.mode number).IsUnmarked) (data : FrameData) :
    enter env number found data state =
      { state with frames := { mode := number, data := data } :: state.frames } := by
  rw [enter_eq]
  simp only [openScope, h.scope, h.beginScope]

theorem beginHooks_of_isUnmarked {mode : LexerMode} (h : mode.IsUnmarked) :
    beginHooks mode = [] := by
  rw [beginHooks, h.beforeBegin, h.onBegin]
  rfl

/-- Without hooks, a begin match enters its mode. -/
theorem moveOf_begin (hkind : found.kind = .begin number)
    (hhooks : beginHooks (env.lexer.mode number) = []) :
    moveOf env found state = .enter number := by
  have hempty : emptyMode? found state = none := by
    unfold emptyMode?
    split
    · simp [hkind]
    · rfl
  simp only [moveOf, hempty, hkind, hhooks]
  rfl

/-- An end match ends an unmarked mode that ends there, and no other mode, unless the mode has just
begun there without text. -/
theorem moveOf_finish_of_isUnmarked {frame : Frame} {frames : List Frame}
    (hframes : state.frames = frame :: frames) (h : (env.lexer.mode frame.mode).IsUnmarked)
    (hkind : found.kind = .finish) (hempty : emptyMode? found state = none)
    (hends : endsAt (env.lexer.mode frame.mode) env.text found.index = true) :
    moveOf env found state = .leave 1 := by
  have hcount : countEnded env (frame :: frames) = 1 := by
    cases frames with
    | nil => rfl
    | cons next frames => simp [countEnded, h.endsParent]
  have hfind : findEnded env found state.frames = pure (frame :: frames, some 1) := by
    rw [hframes, findEnded_cons, ownEnd, hends, h.onEnd]
    simp only [pure_bind, if_true, hcount]
  simp only [moveOf, hempty, hkind, hfind]
  rfl

theorem beginDelivery_of_isUnmarked {mode : LexerMode} (h : mode.IsUnmarked)
    (buffer lexeme : String) : beginDelivery mode buffer lexeme = ⟨buffer, lexeme⟩ := by
  simp [beginDelivery, h.skip, h.excludeBegin, h.returnBegin]

theorem endDelivery_of_isUnmarked {mode : LexerMode} (h : mode.IsUnmarked) (buffer : String) :
    endDelivery env.text found mode buffer = ⟨buffer ++ env.lexeme found, ""⟩ := by
  simp [endDelivery, h.endScope, h.skip, h.excludeEnd, h.returnEnd, Env.lexeme]

/-- A begin match of an unmarked mode: its text waits in the buffer, and no scope opens. -/
theorem step_enters_unmarked (hnested : nested.KeepsText)
    (hunmarked : (env.lexer.mode number).IsUnmarked)
    (hfind : (state.top env).rules.find env.text state.index state.begun.cursor =
      .ok (some found, cursor))
    (hkind : found.kind = .begin number)
    (h : Returns (step env nested state) before progress after) :
    ∃ state', progress = .more state' ∧ state'.situation =
      { modes := number :: state.frames.map (·.mode)
        index := found.span.stop
        content := state.written ++ env.slice state.index found.index
        buffer := env.lexeme found
        starts := state.tree.starts
        lastMatch := some (found.kind, found.index)
        resume := false } := by
  obtain ⟨hspan, hwithin⟩ := RuleSet.find_within hfind
  have hmove : moveOf env found (state.reached env found cursor) = .enter number :=
    moveOf_begin hkind (beginHooks_of_isUnmarked hunmarked)
  obtain ⟨state', advance, hhandled, hregisters, rfl⟩ :=
    step_of_move hnested hfind (by rw [hmove]; exact Move.noConfusion) h
  rw [hmove] at hhandled
  cases hhandled with
  | @enter _ data ready _ hready =>
    have hstop : found.index + advanceOver found (env.lexer.mode number).returnBegin =
        found.span.stop := by
      rw [hunmarked.returnBegin]
      exact index_add_width hspan hwithin
    rw [hstop, if_neg (Nat.not_lt.mpr hwithin.stop_le)]
    rw [enter_of_isUnmarked hunmarked] at hregisters ⊢
    rw [beginDelivery_of_isUnmarked hunmarked] at hready
    exact ⟨_, rfl, Situation.ext (congrArg (number :: List.map Frame.mode ·) hready.frames) rfl
      (hready.content.trans String.append_assoc.symm) hready.buffer hready.starts
      (congrArg Registers.lastMatch hregisters) (congrArg Registers.resume hregisters)⟩

theorem popFrame_of_isUnmarked {frame : Frame} {frames : List Frame}
    (hframes : state.frames = frame :: frames) (h : (env.lexer.mode frame.mode).IsUnmarked) :
    (state.popFrame env).tree = state.tree ∧ (state.popFrame env).frames = frames := by
  simp [State.popFrame, hframes, h.scope]

/-- The end match of an unmarked mode which another unmarked mode follows: what has been waiting is
in the tree, and no scope has closed or opened. -/
theorem step_leaves_unmarked (hnested : nested.KeepsText)
    (hmodes : state.frames.map (·.mode) = outer :: modes)
    (houter : (env.lexer.mode outer).IsUnmarked) (hnext : (env.lexer.mode outer).next = some bare)
    (hbare : (env.lexer.mode bare).IsUnmarked)
    (hfind : (state.top env).rules.find env.text state.index state.begun.cursor =
      .ok (some found, cursor))
    (hmove : moveOf env found (state.reached env found cursor) = .leave 1)
    (h : Returns (step env nested state) before progress after) :
    ∃ state', progress = .more state' ∧ state'.situation =
      { modes := bare :: modes
        index := found.span.stop
        content := state.written ++ env.slice state.index found.index ++ env.lexeme found
        buffer := ""
        starts := state.tree.starts
        lastMatch := some (found.kind, found.index)
        resume := false } := by
  obtain ⟨hspan, hwithin⟩ := RuleSet.find_within hfind
  obtain ⟨state', advance, hhandled, hregisters, rfl⟩ :=
    step_of_move hnested hfind (by rw [hmove]; exact Move.noConfusion) h
  rw [hmove] at hhandled
  obtain ⟨frame, rest, hframes, rfl, rfl⟩ := List.map_eq_cons_iff.mp hmodes
  have hreached : (state.reached env found cursor).frames = frame :: rest := hframes
  have htop : (state.reached env found cursor).top env = env.lexer.mode frame.mode := by
    rw [State.top, hreached]
    rfl
  have houtermost : outermost env (state.reached env found cursor).frames 1 =
      env.lexer.mode frame.mode := by
    rw [hreached]
    rfl
  cases hhandled with
  | @leave _ frames ready _ hsame hready =>
    rw [hreached] at hsame
    obtain ⟨frame', rest', rfl, hframe, hrest⟩ := List.map_eq_cons_iff.mp hsame
    rw [htop, endDelivery_of_isUnmarked houter] at hready
    obtain ⟨htree, hleft⟩ := popFrame_of_isUnmarked hready.frames (by rw [hframe]; exact houter)
    have hstop : found.index +
        advanceOver found ((state.reached env found cursor).top env).returnEnd =
          found.span.stop := by
      rw [htop, houter.returnEnd]
      exact index_add_width hspan hwithin
    rw [hstop, if_neg (Nat.not_lt.mpr hwithin.stop_le)]
    rw [houtermost, hnext, goOn, enter_of_isUnmarked hbare] at hregisters ⊢
    refine ⟨_, rfl, Situation.ext ?_ rfl ?_ ?_ ?_ (congrArg Registers.lastMatch hregisters)
      (congrArg Registers.resume hregisters)⟩
    · exact congrArg (bare :: ·) ((congrArg (List.map Frame.mode) hleft).trans hrest)
    · refine (congrArg TokenTree.content htree).trans (hready.content.trans ?_)
      change state.tree.content ++ (state.buffer ++ env.slice state.index found.index ++ _) =
        state.tree.content ++ state.buffer ++ env.slice state.index found.index ++ _
      simp only [String.append_assoc]
    · exact (buffer_popFrame env ready).trans hready.buffer
    · exact (congrArg TokenTree.starts htree).trans hready.starts

/-! ## Modes that open -/

/-- The text of a begin match that stands in front of the scope of a mode. -/
def excludedText (mode : LexerMode) (lexeme : String) : String :=
  if mode.excludeBegin && !mode.skip then lexeme else ""

/-- A mode has been entered with a match: its scope starts behind what had been written, and behind
the match where the mode excludes it. Where the match is delivered, it is written, unless it is
given back. -/
structure Opens (env : Env) (number : Nat) (found : RuleMatch) (state state' : State) : Prop where
  modes : state'.frames.map (·.mode) = number :: state.frames.map (·.mode)
  index : state'.index = found.index + advanceOver found (env.lexer.mode number).returnBegin
  starts : state'.tree.starts =
    ((env.lexer.mode number).scope.map fun scope => (env.lexer.scopeName scope,
      (state.written ++ excludedText (env.lexer.mode number) (env.lexeme found)).length)).toList ++
        state.tree.starts
  written : Delivers env found state (.enter number) → state'.written =
    state.written ++ if (env.lexer.mode number).returnBegin then "" else env.lexeme found

theorem starts_openScope (env : Env) (mode : LexerMode) (tree : TokenTree) :
    (openScope env mode tree).starts =
      (mode.scope.map fun scope => (env.lexer.scopeName scope, tree.content.length)).toList ++
        tree.starts := by
  unfold openScope
  split
  · next hscope => rw [hscope]; rfl
  · next hscope => rw [hscope]; rfl

theorem beginDelivery_tree (mode : LexerMode) (lexeme : String) :
    (beginDelivery mode "" lexeme).tree = excludedText mode lexeme := by
  unfold beginDelivery excludedText
  cases mode.skip <;> cases mode.excludeBegin <;> cases mode.returnBegin <;> simp

/-- A match that enters a mode where the scan stands opens it there. -/
theorem step_opens (hnested : nested.KeepsText) (hchecked : (env.lexer.mode number).Checked)
    (hfind : (state.top env).rules.find env.text state.index state.begun.cursor =
      .ok (some found, cursor))
    (hmove : moveOf env found (state.reached env found cursor) = .enter number)
    (hindex : found.index = state.index) (hbuffer : state.buffer = "")
    (h : Returns (step env nested state) before progress after) :
    Opens env number found state progress.last := by
  obtain ⟨state', advance, hhandled, hregisters, rfl⟩ :=
    step_of_move hnested hfind (by rw [hmove]; exact Move.noConfusion) h
  rw [hmove] at hhandled
  have hlast : ∀ state' : State, (if env.text.size < found.index + advance then
      Progress.done state' else .more state').last = state' := by
    intro state'
    split <;> rfl
  rw [hlast]
  have hempty : (state.reached env found cursor).buffer = "" := by
    rw [State.reached, hbuffer, hindex, Env.slice, Regex.Span.text_self]
    rfl
  cases hhandled with
  | @enter _ data ready _ hready =>
    have henter := enter_receives env number found data ready
    have hcontent : ready.tree.content =
        state.written ++ excludedText (env.lexer.mode number) (env.lexeme found) := by
      rw [hready.content, hempty, beginDelivery_tree, State.written, hbuffer, String.append_empty]
      rfl
    refine ⟨?_, rfl, ?_, fun hdelivers => ?_⟩
    · exact (congrArg (List.map Frame.mode) henter.frames).trans
        (congrArg (number :: List.map Frame.mode ·) hready.frames)
    · refine henter.starts.trans ?_
      rw [starts_openScope, hcontent]
      exact congrArg _ hready.starts
    · have hwritten : (enter env number found data ready).written = _ :=
        (enter_delivers_iff hchecked hready).mpr hdelivers
      have hreached : (state.reached env found cursor).written = state.written := by
        rw [State.written, hempty, State.written, hbuffer]
        rfl
      rw [hreached] at hwritten
      exact hwritten

/-! ## Behind what stands before -/

/-- Where a scan stands that has gone past what must stand before a mode, and what it does next: the
mode is entered by what its own begin pattern alone matches there, if no hook ignores that. -/
structure WaitsBehind (env : Env) (nested : Nested) (look : Regex) (inner bare : Nat)
    (found : RuleMatch) (state waiting : State) : Prop where
  situation : waiting.situation =
    { modes := bare :: state.frames.map (·.mode)
      index := found.span.stop
      content := state.written ++ env.slice state.index found.span.stop
      buffer := ""
      starts := state.tree.starts
      lastMatch := some (.finish, found.span.stop)
      resume := false }
  opens : ∃ hit entered move, look.matchAt? env.text found.span.stop = some hit ∧
    nextVisit? env waiting = some (entered, move) ∧ entered.kind = .begin inner ∧
    entered.index = found.span.stop ∧ entered.span = hit.span ∧
    (beginHooks (env.lexer.mode inner) = [] → move = .enter inner) ∧
    ∀ before progress after, move = .enter inner →
      Returns (step env nested waiting) before progress after →
        Opens env inner entered waiting progress.last

section

variable {grammar : Grammar} {meaning : String → RawMode} {part : Outline.Part}
  {fields : ModeFields} {before' : Pattern} {own look : Regex}

/-- The mode for what stands before another one ends at once, without text. -/
theorem step_ends_outer (hnested : nested.KeepsText)
    (hcase : env.lexer.ignoreCase = grammar.caseInsensitive)
    (hgoes : env.lexer.GoesBefore grammar before' fields outer bare inner)
    (hmodes : state.frames.map (·.mode) = outer :: modes) (hresume : state.resume = false)
    (hindex : state.index ≤ env.text.size)
    (hlast : ∀ kind position, state.lastMatch = some (kind, position) → position ≠ state.index)
    (h : Returns (step env nested state) before progress after) :
    ∃ state', progress = .more state' ∧ state'.situation =
      { modes := bare :: modes
        index := state.index
        content := state.written
        buffer := ""
        starts := state.tree.starts
        lastMatch := some (.finish, state.index)
        resume := false } := by
  have htop : state.top env = env.lexer.mode outer := by
    rw [State.top, ← List.head?_map, hmodes]
    rfl
  have hcursor : state.begun.cursor = 0 := by simp [State.begun, hresume]
  have hanywhere := Outline.anywhere_standsAlone env.lexer.ignoreCase
  have hrules : ∀ rule ∈ (env.lexer.mode outer).rules.rules,
      rule.StandsAlone env.lexer.ignoreCase := by
    rw [hgoes.outerRules]
    exact List.forall_mem_singleton.mpr hanywhere
  obtain ⟨hit, hhit, hspan⟩ := Option.map_eq_some_iff.mp
    (Outline.matchAt?_anywhere hanywhere.compile_eq env.text state.index)
  obtain ⟨found, cursor, hfind, hkind, hfound, hsame⟩ := RuleSet.exists_find_of_first
    (hcase ▸ hgoes.outerBuilds) hrules hgoes.outerRules hhit hindex
  rw [← htop, ← hcursor] at hfind
  have hempty : emptyMode? found (state.reached env found cursor) = none := by
    unfold emptyMode?
    split
    · next number position heq =>
      have hne := hlast _ _ heq
      simp [hfound, hne]
    · rfl
  have hends : endsAt (env.lexer.mode outer) env.text found.index = true := by
    obtain ⟨regex, hregex, hcompile⟩ := hgoes.outerEnds
    have hmatch := Outline.matchAt?_anywhere hcompile env.text found.index
    rw [endsAt, hregex]
    exact Option.isSome_map.symm.trans (congrArg Option.isSome hmatch)
  obtain ⟨frame, rest, hframes, rfl, rfl⟩ := List.map_eq_cons_iff.mp hmodes
  have hmove : moveOf env found (state.reached env found cursor) = .leave 1 :=
    moveOf_finish_of_isUnmarked hframes hgoes.outerUnmarked hkind hempty hends
  obtain ⟨state', hprogress, hsituation⟩ := step_leaves_unmarked hnested hmodes
    hgoes.outerUnmarked hgoes.next hgoes.bareUnmarked hfind hmove h
  refine ⟨state', hprogress, ?_⟩
  rw [hsituation, hsame, hspan, hkind, hfound, Env.lexeme, hsame, hspan, Env.slice,
    Regex.Span.text_self, String.append_empty, String.append_empty]

/-- In the bare mode, the begin pattern of the mode itself is tried first, where the scan stands. -/
theorem opens_behind {hit : Regex.Match} (hnested : nested.KeepsText)
    (hcase : env.lexer.ignoreCase = grammar.caseInsensitive)
    (hgoes : env.lexer.GoesBefore grammar before' fields outer bare inner)
    (hchecked : (env.lexer.mode inner).Checked)
    (halone : (⟨Outline.sourceOrAnywhere fields.beginPattern, .begin inner⟩ : Rule).StandsAlone
      env.lexer.ignoreCase)
    (hlook : Regex.compile env.lexer.ignoreCase (Outline.sourceOrAnywhere fields.beginPattern) =
      .ok look)
    (hmodes : state.frames.map (·.mode) = bare :: modes) (hresume : state.resume = false)
    (hbuffer : state.buffer = "") (hhit : look.matchAt? env.text state.index = some hit)
    (hindex : state.index ≤ env.text.size) :
    ∃ entered move, nextVisit? env state = some (entered, move) ∧ entered.kind = .begin inner ∧
      entered.index = state.index ∧ entered.span = hit.span ∧
      (beginHooks (env.lexer.mode inner) = [] → move = .enter inner) ∧
      ∀ before progress after, move = .enter inner →
        Returns (step env nested state) before progress after →
          Opens env inner entered state progress.last := by
  have htop : state.top env = env.lexer.mode bare := by
    rw [State.top, ← List.head?_map, hmodes]
    rfl
  have hcursor : state.begun.cursor = 0 := by simp [State.begun, hresume]
  obtain rfl := Except.ok.inj (halone.compile_eq.symm.trans hlook)
  have hrules : ∀ rule ∈ (env.lexer.mode bare).rules.rules,
      rule.StandsAlone env.lexer.ignoreCase := by
    rw [hgoes.bareRules]
    exact List.forall_mem_cons.mpr
      ⟨halone, List.forall_mem_singleton.mpr (Outline.anywhere_standsAlone _)⟩
  obtain ⟨entered, cursor, hfind, hkind, hentered, hspan⟩ := RuleSet.exists_find_of_first
    (hcase ▸ hgoes.bareBuilds) hrules hgoes.bareRules hhit hindex
  rw [← htop, ← hcursor] at hfind
  refine ⟨entered, moveOf env entered (state.reached env entered cursor), ?_, hkind, hentered,
    hspan, moveOf_begin hkind, fun before progress after hmove hstep =>
      step_opens hnested hchecked hfind hmove hentered hbuffer hstep⟩
  rw [nextVisit?, hfind]

/-- A begin match of the mode for what stands before another one stops where the begin pattern of
the other one matches. -/
theorem matches_behind {outline : Outline} {start rest : Nat} {joined inFront : Regex}
    (hroot : env.lexer.Stands grammar none outline Lexer.root)
    (hcase : env.lexer.ignoreCase = grammar.caseInsensitive)
    (hstacked : Lexer.Stacked grammar env.lexer (state.frames.map (·.mode)))
    (hgoes : env.lexer.GoesBefore grammar before' fields outer bare inner)
    (halone : ∀ rule ∈ (state.top env).rules.rules, rule.StandsAlone env.lexer.ignoreCase)
    (hjoined : Regex.compile env.lexer.ignoreCase (Pattern.concat [before'.source,
      Pattern.lookahead (Outline.sourceOrAnywhere fields.beginPattern)]) = .ok joined)
    (hmatches : joined.MatchesBefore inFront own look)
    (hfind : (state.top env).rules.find env.text start cursor = .ok (some found, rest))
    (hkind : found.kind = .begin outer) :
    start ≤ found.index ∧ ∃ hit, look.matchAt? env.text found.span.stop = some hit := by
  obtain ⟨_, _, howner⟩ := hstacked.stands ⟨_, hroot⟩
  rw [List.head?_map] at howner
  have hbuild := howner.rules.1
  rw [← hcase] at hbuild
  obtain ⟨⟨source, kind⟩, hmem, hrule, hstart, hit, hhit, hreports⟩ :=
    RuleSet.exists_rule_matching hbuild halone hfind
  obtain rfl : RuleKind.begin outer = kind := hkind.symm.trans hrule
  have hsource := howner.begin_rule hmem
  rw [hgoes.beginSource] at hsource
  obtain rfl : source = _ := hsource
  obtain rfl := Except.ok.inj ((halone _ hmem).compile_eq.symm.trans hjoined)
  have hspan := hmatches.span env.text found.index
  rw [hhit, Option.map_some] at hspan
  obtain ⟨stop, hstop, heq⟩ := Option.map_eq_some_iff.mp hspan.symm
  rw [hreports.span, ← heq]
  exact ⟨hstart, Option.isSome_iff_exists.mp (List.find?_eq_some_iff_append.mp hstop).1⟩

end

/-- What must stand before a mode keeps its meaning. Let its pattern be one branch, behind which the
begin pattern of the mode reads as it does alone. Then the rule by which the mode begins matches up
to the first stop of that pattern at which the begin pattern alone matches. Whenever a match of this
rule that is not empty is next in a scan, the scan writes it before any scope of the mode opens. The
match after that is the one of the begin pattern alone, right where the first match has stopped, and
with it the mode itself is entered, unless a hook ignores it or a fault stops the scan. -/
theorem keeps_before_pattern {grammar : Grammar} {meaning : String → RawMode}
    {part : Outline.Part} {fields : ModeFields} {pattern : Pattern} {own look : Regex}
    (hshares : grammar.root.Shares meaning) (hcompile : grammar.compile = .ok env.lexer)
    (hpart : env.lexer.HasPart grammar.rootless part outer)
    (hfields : Outline.expandWhole part.fields = .ok fields)
    (hbefore : fields.beforePattern = some pattern) (hkeywords : fields.beginKeywords = none)
    (hown : Regex.compile env.lexer.ignoreCase pattern.source = .ok own)
    (hlook : Regex.compile env.lexer.ignoreCase (Outline.sourceOrAnywhere fields.beginPattern) =
      .ok look)
    (hreads : Regex.Tree.ReadsBefore (Regex.startFlags env.lexer.ignoreCase) pattern.source
      (Outline.sourceOrAnywhere fields.beginPattern))
    (halone : (⟨Outline.sourceOrAnywhere fields.beginPattern, .finish⟩ : Rule).StandsAlone
      env.lexer.ignoreCase) :
    ∃ source joined inFront bare inner,
      (env.lexer.mode outer).beginSource = some source ∧
      Regex.compile env.lexer.ignoreCase source = .ok joined ∧
      Regex.compileInFront env.lexer.ignoreCase pattern.source = .ok inFront ∧
      joined.MatchesBefore inFront own look ∧
      env.lexer.HasFields grammar.rootless (Outline.behindFields fields) inner ∧
      ∀ {nested state found move before progress after}, nested.KeepsText →
        Reachable env nested state →
        (∀ rule ∈ (state.top env).rules.rules, rule.StandsAlone env.lexer.ignoreCase) →
        nextVisit? env state = some (found, move) → found.kind = .begin outer →
        found.span.start < found.span.stop →
        Returns (step env nested state) before progress after →
        ∃ passed, progress = .more passed ∧
          ∀ {before progress after}, Returns (step env nested passed) before progress after →
            ∃ waiting, progress = .more waiting ∧
              WaitsBehind env nested look inner bare found state waiting := by
  obtain ⟨hcase, -, hroot⟩ := grammar.compile_stands hshares hcompile
  replace hcase : env.lexer.ignoreCase = grammar.rootless.caseInsensitive := hcase
  have hlinked := grammar.compile_linked hcompile
  obtain ⟨bare, inner, hgoes⟩ := hpart.exists_goesBefore hfields hbefore hkeywords
  obtain ⟨joined, inFront, hjoined, hinFront, hmatches⟩ := hreads.exists_matchesBefore hown hlook
  refine ⟨_, joined, inFront, bare, inner, hgoes.beginSource, hjoined, hinFront, hmatches,
    hgoes.inner, ?_⟩
  intro nested state found move before progress after hnested hreachable hrules hvisit hkind hless
    hstep
  obtain ⟨cursor, hfind, -⟩ := exists_find_of_nextVisit? hvisit
  have hstacked := hreachable.stacked ⟨_, hroot⟩ hlinked
  obtain ⟨hstart, hit, hhit⟩ :=
    matches_behind hroot hcase hstacked hgoes hrules hjoined hmatches hfind hkind
  obtain ⟨hspan, hwithin⟩ := RuleSet.find_within hfind
  obtain ⟨passed, rfl, hpassed⟩ :=
    step_enters_unmarked hnested hgoes.outerUnmarked hfind hkind hstep
  refine ⟨passed, rfl, fun {before progress after} hstep' => ?_⟩
  have hindex : passed.index = found.span.stop := congrArg Situation.index hpassed
  have hlast : passed.lastMatch = some (found.kind, found.index) :=
    congrArg Situation.lastMatch hpassed
  obtain ⟨waiting, rfl, hwaiting⟩ := step_ends_outer hnested hcase hgoes
    (congrArg Situation.modes hpassed) (congrArg Situation.resume hpassed)
    (hindex ▸ hwithin.stop_le) (fun kind position heq => by
      cases hlast.symm.trans heq
      omega) hstep'
  have hwritten : passed.written = state.written ++ env.slice state.index found.span.stop := by
    have hlexeme : env.slice state.index found.index ++ env.lexeme found =
        env.slice state.index found.span.stop := by
      rw [Env.lexeme, Env.slice, Env.slice, ← hspan]
      exact Regex.Span.text_append (hspan ▸ hstart) hwithin.start_le
    have hcontent : passed.tree.content = _ := congrArg Situation.content hpassed
    have hbuffer : passed.buffer = _ := congrArg Situation.buffer hpassed
    rw [State.written, hcontent, hbuffer, String.append_assoc, hlexeme]
  have hsituation : waiting.situation = _ := hwaiting
  rw [hindex, hwritten, show passed.tree.starts = state.tree.starts from
    congrArg Situation.starts hpassed] at hsituation
  refine ⟨waiting, rfl, hsituation, ?_⟩
  have hstand : waiting.index = found.span.stop := congrArg Situation.index hsituation
  obtain ⟨entered, move, hvisit, hkind, hentered, hsame, hopens⟩ := opens_behind hnested hcase hgoes
    (Grammar.compile_checked hcompile inner) ⟨halone.clear, halone.compiles, halone.count⟩ hlook
    (congrArg Situation.modes hsituation) (congrArg Situation.resume hsituation)
    (congrArg Situation.buffer hsituation) (hstand ▸ hhit) (hstand ▸ hwithin.stop_le)
  exact ⟨hit, entered, move, hhit, hvisit, hkind, hentered.trans hstand, hsame, hopens⟩

/-- A mode that needs a doubled letter before it. -/
def behindDoubledFields : ModeFields :=
  { scope := some "m"
    beforePattern := some (.regex "(a)\\1")
    beginPattern := some (.regex "(b)+") }

/-- A grammar with this mode. -/
def behindDoubled : Grammar where
  name := "behind"
  root := .of {} [.own (.of behindDoubledFields)]

/-- A scan of a text with this grammar. -/
def behindDoubledEnv : Env where
  lexer := behindDoubled.compile.toOption.getD default
  language := "behind"
  text := "aabb".toList.toArray
  options := ⟨false, true⟩
  settings := {}

theorem behindDoubled_shares : behindDoubled.root.Shares fun _ => default := by
  simp [behindDoubled, RawMode.of, RawChild.own, RawMode.Shares, RawMode.SharesChildren,
    RawMode.SharesVariants, RawMode.SharesNext]

theorem behindDoubled_compiles : behindDoubled.compile = .ok behindDoubledEnv.lexer := by
  dsimp only [behindDoubledEnv]
  exact eq_ok_of_isOk (by decide +kernel) default

theorem hasPart_behindDoubled :
    behindDoubledEnv.lexer.HasPart behindDoubled.rootless ⟨behindDoubledFields, [], none⟩ 1 := by
  obtain ⟨-, -, hroot⟩ := behindDoubled.compile_stands behindDoubled_shares behindDoubled_compiles
  have hcontains : (behindDoubledEnv.lexer.mode 0).contains = [1] := by decide +kernel
  obtain ⟨_, number, rest, hnumbers, hfirst, -⟩ := hroot.children hcontains
  cases hnumbers
  exact ⟨_, 1, none, hfirst⟩

theorem readsBefore_behindDoubled :
    Regex.Tree.ReadsBefore (Regex.startFlags false) "(a)\\1" "(b)+" := by
  let after : Regex.Progress :=
    { flags := Regex.startFlags false, groups := 1, referenced := [1], hasNumbered := true }
  have hfront : Regex.Tree.readItems (Regex.Tree.innerReader Regex.Tree.maxLevels)
      "(a)\\1".toList.length { flags := Regex.startFlags false } "(a)\\1".toList =
        .ok ([.group 1 (.char (.single 'a')), .backref 1], after, []) := by cbv
  have halone : Regex.Tree.readExpression Regex.Tree.maxLevels { flags := Regex.startFlags false }
      "(b)+".toList = .ok (.repeated (.group 1 (.char (.single 'b'))) 1 none true,
        { flags := Regex.startFlags false, groups := 1 }, []) := by cbv
  have hplace : Regex.Tree.readExpression (Regex.Tree.maxLevels - 1) after "(b)+".toList =
      .ok (.repeated (.group 2 (.char (.single 'b'))) 1 none true,
        { after with groups := 2 }, []) := by cbv
  exact ⟨_, after, _, _, by cbv, hfront, rfl,
    .cons halone hplace ⟨rfl, rfl⟩ rfl (List.forall_mem_nil _) .nil, rfl⟩

/-- The state after a step that leaves no trace. -/
def nextQuietly? (env : Env) (state : State) : Option State :=
  match (step env .unknown state).run.run {} with
  | (.ok (.more next), ⟨[], [], [], []⟩) => some next
  | _ => none

theorem returns_of_nextQuietly? {env : Env} {state next : State}
    (h : nextQuietly? env state = some next) :
    Returns (step env .unknown state) {} (.more next) {} := by
  unfold nextQuietly? at h
  split at h
  · next hstep =>
    cases h
    exact hstep
  · cases h

theorem behindDoubled_steps : ∃ passed waiting,
    let state := State.restore behindDoubledEnv []
    nextVisit? behindDoubledEnv state =
      some (⟨0, [some ⟨0, 2⟩, some ⟨0, 1⟩, some ⟨3, 4⟩], .begin 1, 0⟩, .enter 1) ∧
    Returns (step behindDoubledEnv .unknown state) {} (.more passed) {} ∧
    Returns (step behindDoubledEnv .unknown passed) {} (.more waiting) {} := by
  obtain ⟨hvisit, hsteps⟩ : nextVisit? behindDoubledEnv (State.restore behindDoubledEnv []) =
        some (⟨0, [some ⟨0, 2⟩, some ⟨0, 1⟩, some ⟨3, 4⟩], .begin 1, 0⟩, .enter 1) ∧
      ((nextQuietly? behindDoubledEnv (State.restore behindDoubledEnv [])).bind
        (nextQuietly? behindDoubledEnv)).isSome = true := by decide +kernel
  obtain ⟨waiting, hsteps⟩ := Option.isSome_iff_exists.mp hsteps
  obtain ⟨passed, hpassed, hwaiting⟩ := Option.bind_eq_some_iff.mp hsteps
  exact ⟨passed, waiting, hvisit, returns_of_nextQuietly? hpassed, returns_of_nextQuietly? hwaiting⟩

/-- Two steps of the scan lead past the doubled letter, behind which the mode itself begins. -/
theorem keeps_before_pattern_doubled :
    behindDoubled.compile = .ok behindDoubledEnv.lexer ∧
    behindDoubledEnv.lexer.HasPart behindDoubled.rootless ⟨behindDoubledFields, [], none⟩ 1 ∧
    Regex.Tree.ReadsBefore (Regex.startFlags false) "(a)\\1" "(b)+" ∧
    ∃ own look joined inFront passed waiting bare inner,
      let state := State.restore behindDoubledEnv []
      let found : RuleMatch := ⟨0, [some ⟨0, 2⟩, some ⟨0, 1⟩, some ⟨3, 4⟩], .begin 1, 0⟩
      Regex.compile false "(a)\\1" = .ok own ∧ Regex.compile false "(b)+" = .ok look ∧
      Regex.compile false "(a)\\1(?=(b)+)" = .ok joined ∧
      joined.MatchesBefore inFront own look ∧
      Reachable behindDoubledEnv .unknown state ∧
      nextVisit? behindDoubledEnv state = some (found, .enter 1) ∧
      Returns (step behindDoubledEnv .unknown state) {} (.more passed) {} ∧
      Returns (step behindDoubledEnv .unknown passed) {} (.more waiting) {} ∧
      WaitsBehind behindDoubledEnv .unknown look inner bare found state waiting := by
  obtain ⟨hcase, hlisted, hbegins⟩ : behindDoubledEnv.lexer.ignoreCase = false ∧
      ((State.restore behindDoubledEnv []).top behindDoubledEnv).rules.rules =
        [⟨"(a)\\1(?=(b)+)", .begin 1⟩] ∧
      (behindDoubledEnv.lexer.mode 1).beginSource = some "(a)\\1(?=(b)+)" := by decide +kernel
  have halone : ∀ rule ∈ ([⟨"(b)+", .finish⟩, ⟨"(a)\\1(?=(b)+)", .begin 1⟩] : List Rule),
      rule.StandsAlone false := by decide +kernel
  have hreads := readsBefore_behindDoubled
  obtain ⟨own, hown⟩ := exists_ok_of_isOk
    (by decide +kernel : (Regex.compile false "(a)\\1").isOk = true)
  obtain ⟨look, hlook⟩ := exists_ok_of_isOk
    (by decide +kernel : (Regex.compile false "(b)+").isOk = true)
  obtain ⟨hrule, hrules⟩ := List.forall_mem_cons.mp halone
  obtain ⟨source, joined, inFront, bare, inner, hsource, hjoined, -, hmatches, -, hgoes⟩ :=
    keeps_before_pattern behindDoubled_shares behindDoubled_compiles hasPart_behindDoubled rfl rfl
      rfl (hcase ▸ hown) (hcase ▸ hlook) (hcase ▸ hreads) (hcase ▸ hrule)
  obtain ⟨passed, waiting, hvisit, hpassed, hwaiting⟩ := behindDoubled_steps
  generalize hstate : State.restore behindDoubledEnv [] = state at *
  have hreachable : Reachable behindDoubledEnv .unknown state :=
    hstate ▸ ⟨[], .nothing, .start⟩
  cases hbegins.symm.trans hsource
  rw [hcase] at hjoined hgoes
  obtain ⟨_, heq, hnext⟩ := hgoes Nested.unknown_keepsText hreachable (hlisted ▸ hrules) hvisit rfl
    (by decide) hpassed
  cases heq
  obtain ⟨_, heq, hwaits⟩ := hnext hwaiting
  cases heq
  subst hstate
  exact ⟨behindDoubled_compiles, hasPart_behindDoubled, hreads, own, look, joined, inFront, passed,
    waiting, bare, inner, hown, hlook, hjoined, hmatches, hreachable, hvisit, hpassed, hwaiting,
    hwaits⟩

/-- A grammar with a mode that needs one of two letters before it, written with a bar and no
parentheses. -/
def behindEither : Grammar where
  name := "either"
  root := .of {} [
    .own (.of {
      scope := some "m"
      beforePattern := some (.regex "a|b")
      beginPattern := some (.regex "c") }),
    .own (.of { scope := some "n", wholePattern := some (.regex "ad") })]

/-- A scan of two letters with this grammar. -/
def behindEitherEnv : Env where
  lexer := behindEither.compile.toOption.getD default
  language := "either"
  text := "ad".toList.toArray
  options := ⟨false, true⟩
  settings := {}

/-- The first letter alone is taken for what stands before the mode, though its begin pattern does
not match behind it: that is looked for behind the second letter only. -/
theorem misses_begin_pattern : behindEither.compile = .ok behindEitherEnv.lexer ∧
    ∃ look joined found,
      (behindEitherEnv.lexer.mode 1).beginSource = some "a|b(?=c)" ∧
      Regex.compile false "c" = .ok look ∧ Regex.compile false "a|b(?=c)" = .ok joined ∧
      (joined.matchAt? behindEitherEnv.text 0).map (·.span) = some ⟨0, 1⟩ ∧
      look.matchAt? behindEitherEnv.text 1 = none ∧
      nextVisit? behindEitherEnv (State.restore behindEitherEnv []) = some (found, .enter 1) ∧
      found.span = ⟨0, 1⟩ := by
  let found : RuleMatch := ⟨0, [some ⟨0, 1⟩, none], .begin 1, 0⟩
  let look : Regex := (Regex.compile false "c").toOption.getD default
  let joined : Regex := (Regex.compile false "a|b(?=c)").toOption.getD default
  obtain ⟨hok, hsource, hlook, hjoined, hspan, hmiss, hvisit⟩ :
      behindEither.compile.isOk = true ∧
      (behindEitherEnv.lexer.mode 1).beginSource = some "a|b(?=c)" ∧
      (Regex.compile false "c").isOk = true ∧ (Regex.compile false "a|b(?=c)").isOk = true ∧
      (joined.matchAt? behindEitherEnv.text 0).map (·.span) = some ⟨0, 1⟩ ∧
      look.matchAt? behindEitherEnv.text 1 = none ∧
      nextVisit? behindEitherEnv (State.restore behindEitherEnv []) = some (found, .enter 1) := by
    decide +kernel
  have hcompile : behindEither.compile = .ok behindEitherEnv.lexer := by
    dsimp only [behindEitherEnv]
    exact eq_ok_of_isOk hok default
  exact ⟨hcompile, look, joined, found, hsource, eq_ok_of_isOk hlook default,
    eq_ok_of_isOk hjoined default, hspan, hmiss, hvisit, rfl⟩

end Highlighter.Scan
