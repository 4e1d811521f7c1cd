import Highlighter.Proofs.Lexer.Plain
import Highlighter.Proofs.Scan.Bounded
import Highlighter.Proofs.Scan.Pruning

/-!
# Plain grammars make headway

A scan gives up after too many iterations. With a plain grammar whose begin patterns match no empty
text this never happens: every mode that begins and every illegal match takes the scan further, and
an end match, which may be empty, ends a mode that has begun before. So there are at most two
iterations for each character that has been passed, and one more.
-/

namespace Highlighter

namespace Lexer

variable {grammar : Grammar} {lexer : Lexer} {number start cursor after : Nat}
  {text : Array Char} {found : RuleMatch}

/-- The source of the begin rule of a mode. -/
def beginSource (lexer : Lexer) (number : Nat) : String :=
  ((lexer.mode number).beginSource).getD ""

/-- No begin pattern matches an empty text. -/
def BeginsWithText (lexer : Lexer) : Prop :=
  ∀ owner, ∀ number ∈ (lexer.mode owner).contains, ∀ regex,
    Regex.compile lexer.ignoreCase (lexer.beginSource number) = .ok regex →
    ∀ text position hit, regex.matchAt? text position = some hit → hit.span.start < hit.span.stop

/-- What is found with the rules of a mode lies ahead, and a begin match is the match of the begin
pattern alone at its position. -/
structure BeginsAlone (lexer : Lexer) : Prop where
  ahead : ∀ owner text start cursor found after,
    (lexer.mode owner).rules.find text start cursor = .ok (some found, after) →
    start ≤ found.index
  begins : ∀ owner text start cursor found after number,
    (lexer.mode owner).rules.find text start cursor = .ok (some found, after) →
    found.kind = .begin number → ∃ regex hit,
      Regex.compile lexer.ignoreCase (lexer.beginSource number) = .ok regex ∧
      regex.matchAt? text found.index = some hit ∧ found.span = hit.span

/-- The own end pattern of a mode matches where its end rule does. -/
def EndsAlone (lexer : Lexer) : Prop :=
  ∀ owner text start cursor found after,
    (lexer.mode owner).rules.find text start cursor = .ok (some found, after) →
    found.kind = .finish → Scan.endsAt (lexer.mode owner) text found.index = true

/-- The rules of a plain mode begin modes by their begin patterns, and end the mode by its own end
pattern. -/
theorem StandsPlain.rules (h : lexer.StandsPlain grammar number) :
    RuleSet.build grammar.caseInsensitive (lexer.mode number).rules.rules =
        .ok (lexer.mode number).rules ∧
      (∀ source inner, ⟨source, .begin inner⟩ ∈ (lexer.mode number).rules.rules →
        source = lexer.beginSource inner) ∧
      ∀ source, ⟨source, .finish⟩ ∈ (lexer.mode number).rules.rules →
        ∃ regex, (lexer.mode number).endRegex = some regex ∧
          Regex.compile grammar.caseInsensitive source = .ok regex := by
  have hties := h.mode.1.endsWithParent
  obtain ⟨outer, ⟨place, isTied, hook, fields, contains, next⟩, hstands, -⟩ := h
  obtain ⟨hbuild, hfinish⟩ := hstands.rules
  refine ⟨hbuild, fun source inner hmem => ?_, fun source hmem => ?_⟩
  · obtain ⟨-, base, numbers, following, rules, -, hmode, hrules, -⟩ := represents_mk.mp hstands
    have heq : lexer.mode number =
        { base with contains := numbers, next := following, rules := rules } := hmode
    rw [heq, (RuleSet.build_eq_ok hrules).1] at hmem
    simp only [rulesOf, List.mem_append, List.mem_map, Option.mem_toList, Option.map_eq_some_iff,
      Rule.mk.injEq, reduceCtorEq, and_false, exists_false, or_false, RuleKind.begin.injEq] at hmem
    obtain ⟨_, -, rfl, rfl⟩ := hmem
    rfl
  · obtain ⟨⟨sound, own, hparent, hrel, hterminator⟩, -⟩ := hstands.mode
    have hterminator : some source = own.filter fun source => !source.isEmpty := by
      rw [(hfinish source).mp hmem] at hterminator
      simpa only [terminatorOf, ← hparent, hties, Bool.false_eq_true, if_false] using hterminator
    obtain ⟨rfl, -⟩ := Option.filter_eq_some_iff.mp hterminator.symm
    generalize (lexer.mode number).endRegex = endRegex at hrel ⊢
    cases hrel with
    | some hcompile => exact ⟨_, rfl, hcompile⟩

/-- What is found with rules of a plain mode that stand alone is what the patterns match. -/
theorem StandsPlain.finds_alone (h : lexer.StandsPlain grammar number)
    (hcase : lexer.ignoreCase = grammar.caseInsensitive)
    (halone : ∀ rule ∈ (lexer.mode number).rules.rules, rule.StandsAlone lexer.ignoreCase)
    (hfind : (lexer.mode number).rules.find text start cursor = .ok (some found, after)) :
    start ≤ found.index ∧
      (∀ inner, found.kind = .begin inner → ∃ regex hit,
        Regex.compile lexer.ignoreCase (lexer.beginSource inner) = .ok regex ∧
        regex.matchAt? text found.index = some hit ∧ found.span = hit.span) ∧
      (found.kind = .finish → Scan.endsAt (lexer.mode number) text found.index = true) := by
  obtain ⟨hbuild, hbegins, hends⟩ := h.rules
  rw [← hcase] at hbuild hends
  obtain ⟨⟨source, kind⟩, hmem, hrule, hahead, hit, hmatch, hreports⟩ :=
    RuleSet.exists_rule_matching hbuild halone hfind
  have hcompile := (halone _ hmem).compile_eq
  refine ⟨hahead, fun inner hkind => ?_, fun hkind => ?_⟩
  · obtain rfl : RuleKind.begin inner = kind := hkind.symm.trans hrule
    obtain rfl := hbegins source inner hmem
    exact ⟨_, hit, hcompile, hmatch, hreports.span⟩
  · obtain rfl : RuleKind.finish = kind := hkind.symm.trans hrule
    obtain ⟨ending, hending, hsame⟩ := hends source hmem
    cases hcompile.symm.trans hsame
    rw [Scan.endsAt, hending]
    exact Option.isSome_of_mem hmatch

theorem Linked.lt_of_find (h : lexer.Linked)
    (hfind : (lexer.mode number).rules.find text start cursor = .ok (some found, after)) :
    number < lexer.modeCount := by
  refine Nat.lt_of_not_le fun hle => ?_
  have hmode : lexer.mode number = default := by
    rw [Lexer.mode, Array.getD_eq_getD_getElem?, Array.getElem?_eq_none hle]
    rfl
  obtain ⟨_, hbuilt⟩ := (h.modes number).built
  obtain ⟨rule, hmem, -⟩ := RuleSet.exists_rule_of_find hbuilt hfind
  rw [hmode] at hmem
  cases hmem

/-- Where the modes of a lexer are plain and their rules stand alone, the rules match what the
patterns match. -/
theorem alone_of_standsAlone (hlinked : lexer.Linked)
    (hcase : lexer.ignoreCase = grammar.caseInsensitive)
    (hplain : ∀ owner < lexer.modeCount, lexer.StandsPlain grammar owner)
    (halone : ∀ owner < lexer.modeCount, ∀ rule ∈ (lexer.mode owner).rules.rules,
      rule.StandsAlone lexer.ignoreCase) : lexer.BeginsAlone ∧ lexer.EndsAlone := by
  have hfinds := fun {owner text start cursor found after}
      (hfind : (lexer.mode owner).rules.find text start cursor = .ok (some found, after)) =>
    (hplain owner (hlinked.lt_of_find hfind)).finds_alone hcase
      (halone owner (hlinked.lt_of_find hfind)) hfind
  exact ⟨⟨fun _ _ _ _ _ _ hfind => (hfinds hfind).1,
    fun _ _ _ _ _ _ number hfind => (hfinds hfind).2.1 number⟩,
    fun _ _ _ _ _ _ hfind => (hfinds hfind).2.2⟩

end Lexer

namespace Scan

variable {grammar : Grammar} {env : Env} {nested : Nested} {found : RuleMatch}
  {state state' : State} {before after : Trace} {cursor : Nat}

theorem le_byteOffset {text : Array Char} {position : Nat} (h : position ≤ text.size) :
    position ≤ Text.byteOffset text position := by
  have hle : ∀ chars : List Char, chars.length ≤ (chars.map Char.utf8Size).sum := by
    intro chars
    induction chars with
    | nil => exact Nat.le_refl 0
    | cons c chars ih =>
      have hpositive := c.utf8Size_pos
      rw [List.map_cons, List.sum_cons, List.length_cons]
      omega
  have hsize := hle (text.extract 0 position).toList
  rw [Array.length_toList, Array.size_extract, Nat.min_eq_left h] at hsize
  rwa [Text.byteOffset, byteSize_eq_sum]

/-- A search with all rules comes to no error. -/
theorem find_ne_error (set : RuleSet) (text : Array Char) (start : Nat) (error : Regex.Error) :
    set.find text start 0 ≠ .error error := by
  unfold RuleSet.find RuleSet.joinedFrom
  cases hfound : set.joined.find? text start <;> simp [hfound, bind, Except.bind, pure, Except.pure]

/-- The number of modes above the top mode before and after a move. -/
def Move.Resizes (before after : Nat) : Move → Prop
  | .stay => after = before
  | .enter _ => after = before + 1
  | .leave _ => after + 1 ≤ before

/-- The states in which a scan looks for the next match. -/
inductive Searches (env : Env) (nested : Nested) (frames : List Frame) : State → Prop where
  | start : Searches env nested frames (State.restore env frames)
  | more {state next : State} {before after : Trace} (h : Searches env nested frames state)
      (hstep : Returns (step env nested state) before (.more next) after) :
      Searches env nested frames next

/-- A scan with a plain lexer, whose begin patterns match no empty text, and with the iterations
that it needs. -/
structure Env.Guarded (grammar : Grammar) (env : Env) : Prop where
  root : env.lexer.StandsPlain grammar Lexer.root
  endless : ∀ text start cursor found after,
    (env.lexer.mode Lexer.root).rules.find text start cursor = .ok (some found, after) →
    found.kind ≠ .finish
  linked : env.lexer.Linked
  begins : env.lexer.BeginsWithText
  beginsAlone : env.lexer.BeginsAlone
  endsAlone : env.lexer.EndsAlone
  floor : 1 ≤ env.settings.iterationFloor
  ratio : 3 ≤ env.settings.iterationRatio
  /-- Nothing in memory is larger. -/
  size : Text.byteSize env.text < 2 ^ 63

/-- The modes above the top mode are plain, there have been at most two iterations for each
character that has been passed, less one for each of these modes, and the last begin match is behind
the scan. -/
structure State.Paced (grammar : Grammar) (env : Env) (state : State) : Prop where
  plain : ∀ frame ∈ state.frames, env.lexer.StandsPlain grammar frame.mode
  count : state.iterations + state.frames.length ≤ 2 * state.index
  behind : ∀ number position, state.lastMatch = some (.begin number, position) →
    position < state.index
  fresh : state.resume = false

section

variable (henv : env.Guarded grammar)
include henv

/-- At least one iteration more is allowed than two for each character before a position. -/
theorem iterationLimit_le {position iterations : Nat} (hposition : position ≤ env.text.size)
    (hle : iterations ≤ 2 * position + 1) :
    iterations ≤ env.settings.iterationLimit (Text.byteOffset env.text position) := by
  have hfloor := henv.floor
  have hsize := henv.size
  have hoffset := byteOffset_le env.text position
  have hbytes := le_byteOffset hposition
  have hratio : 3 * position ≤
      env.settings.iterationRatio * Text.byteOffset env.text position :=
    Nat.mul_le_mul henv.ratio hbytes
  have hword : Settings.wordMax = 2 ^ 64 - 1 := rfl
  rw [Settings.iterationLimit, hword]
  omega

namespace State.Paced

variable (h : state.Paced grammar env)
include h

theorem top_stands : ∃ owner, state.top env = env.lexer.mode owner ∧
    env.lexer.StandsPlain grammar owner ∧ (state.frames = [] → owner = Lexer.root) ∧
    ∀ frame outer, state.frames = frame :: outer → owner = frame.mode := by
  unfold State.top
  cases hframes : state.frames with
  | nil => exact ⟨_, rfl, henv.root, fun _ => rfl, fun _ _ hcons => by cases hcons⟩
  | cons frame outer =>
    refine ⟨frame.mode, rfl, h.plain frame (by rw [hframes]; exact List.mem_cons_self),
      fun hnil => (by cases hnil), fun _ _ hcons => ?_⟩
    cases hcons
    rfl

/-- Neither guard of the loop stops a scan that is paced. -/
theorem allowed (hfind : (state.top env).rules.find env.text state.index state.begun.cursor =
    .ok (some found, cursor)) :
    isRunaway env found.index (state.reached env found cursor) = false ∧
      emptyMode? found (state.reached env found cursor) = none := by
  obtain ⟨owner, htop, -⟩ := h.top_stands henv
  obtain ⟨hstart, hwithin⟩ := RuleSet.find_within hfind
  rw [htop] at hfind
  have hahead := henv.beginsAlone.ahead _ _ _ _ _ _ hfind
  have hcount := h.count
  constructor
  · refine isRunaway_eq_false_iff.mpr (iterationLimit_le henv ?_ ?_)
    · have hle := hwithin.start_le
      have hstop := hwithin.stop_le
      omega
    · change state.iterations + 1 ≤ _
      omega
  · refine Option.eq_none_iff_forall_not_mem.mpr fun number hnumber => ?_
    obtain ⟨hlast, -⟩ := emptyMode?_eq_some hnumber
    have hbehind := h.behind number found.index hlast
    omega

/-- A plain mode ends where its end rule matches. -/
theorem exists_findEnded
    (hfind : (state.top env).rules.find env.text state.index state.begun.cursor =
      .ok (some found, cursor)) (hkind : found.kind = .finish) :
    ∃ count, ((findEnded env found state.frames).run default).1.2 = some count := by
  obtain ⟨owner, htop, hplain, hroot, hmode⟩ := h.top_stands henv
  rw [htop] at hfind
  cases hframes : state.frames with
  | nil =>
    rw [hroot hframes] at hfind
    exact absurd hkind (henv.endless _ _ _ _ _ hfind)
  | cons frame outer =>
    obtain rfl := hmode frame outer hframes
    have hends := henv.endsAlone _ _ _ _ _ _ hfind hkind
    rw [findEnded_cons]
    simp only [ownEnd, hends, hplain.mode.1.onEnd, pure_bind, if_true]
    exact ⟨_, rfl⟩

/-- The modes after a move are plain, and their number is that of the modes before it, with what is
entered and without what is left. -/
theorem frames_moved {move : Move}
    (hfind : (state.top env).rules.find env.text state.index state.begun.cursor =
      .ok (some found, cursor))
    (hmoved :
      Moved env nested found ((state.reached env found cursor).recorded found) move state') :
    (∀ frame ∈ state'.frames, env.lexer.StandsPlain grammar frame.mode) ∧
      move.Resizes state.frames.length state'.frames.length := by
  obtain ⟨owner, htop, hplain, -⟩ := h.top_stands henv
  have hold : ∀ mark ∈ marks state.frames, env.lexer.StandsPlain grammar mark.1 := by
    simp only [marks, List.forall_mem_map, Frame.mark]
    exact h.plain
  have hmarks : marks state'.frames = moveMarks env state.frames move := hmoved.marks
  have hlength : state'.frames.length = (moveMarks env state.frames move).length := by
    rw [← hmarks, marks, List.length_map]
  have hplain' : (∀ mark ∈ moveMarks env state.frames move, env.lexer.StandsPlain grammar mark.1) →
      ∀ frame ∈ state'.frames, env.lexer.StandsPlain grammar frame.mode := by
    rw [← hmarks]
    simp only [marks, List.forall_mem_map, Frame.mark]
    exact id
  cases hmoved with
  | stay => exact ⟨hplain' hold, by simpa [Move.Resizes, moveMarks, marks] using hlength⟩
  | @enter number _ _ hkind =>
    rw [htop] at hfind
    have hinner := hplain.mode.2 number
      ((henv.linked.modes owner).contains_of_find hfind hkind)
    exact ⟨hplain' (List.forall_mem_cons.mpr ⟨hinner, hold⟩),
      by simpa [Move.Resizes, moveMarks, marks] using hlength⟩
  | @leave count _ _ _ _ hpositive hle =>
    have hle : count ≤ state.frames.length := hle
    have hnext : (outermost env state.frames count).next = none := by
      unfold outermost
      cases hframe : state.frames[count - 1]? with
      | none => rfl
      | some frame => exact (h.plain frame (List.mem_of_getElem? hframe)).mode.1.next
    rw [moveMarks, hnext, Option.map_none, Option.toList_none, List.nil_append] at hplain' hlength
    refine ⟨hplain' fun mark hmem => hold mark (List.mem_of_mem_drop hmem), ?_⟩
    rw [List.length_drop, marks, List.length_map] at hlength
    rw [Move.Resizes]
    omega

/-- The text of a begin match is not empty. -/
theorem width_pos {number : Nat}
    (hfind : (state.top env).rules.find env.text state.index state.begun.cursor =
      .ok (some found, cursor)) (hkind : found.kind = .begin number) : 0 < width found := by
  obtain ⟨owner, htop, -⟩ := h.top_stands henv
  rw [htop] at hfind
  obtain ⟨regex, hit, hcompile, hmatch, hspan⟩ :=
    henv.beginsAlone.begins _ _ _ _ _ _ _ hfind hkind
  have hless := henv.begins owner number ((henv.linked.modes owner).contains_of_find hfind hkind)
    regex hcompile _ _ _ hmatch
  rw [width, hspan]
  omega

/-- What a match costs, the text that is passed pays for: the iteration, and two for each
character. -/
theorem pays {advance : Nat}
    (hfind : (state.top env).rules.find env.text state.index state.begun.cursor =
      .ok (some found, cursor))
    (hhandle : Returns (handle env nested found (state.reached env found cursor)) before
      (state', advance) after) :
    state'.registers = ((state.reached env found cursor).recorded found).registers ∧
      state'.frames.length + 1 ≤ state.frames.length + 2 * advance ∧
      ∀ number, found.kind = .begin number → 0 < advance := by
  obtain ⟨owner, htop, hplain, -⟩ := h.top_stands henv
  obtain ⟨-, hempty⟩ := h.allowed henv hfind
  obtain ⟨-, hlength⟩ := h.frames_moved henv hfind (handle_moved hhandle)
  have hadvances := handle_advances hhandle
  generalize state'.registers = registers at hadvances ⊢
  cases hadvances with
  | empty hsome => cases hsome.symm.trans hempty
  | @ignored number hkind hhooks =>
    have hinner := (henv.linked.modes owner).contains_of_find (htop ▸ hfind) hkind
    have hmode := (hplain.mode.2 number hinner).mode.1
    simp [beginHooks, hmode.beforeBegin, hmode.onBegin] at hhooks
  | @entered number hkind =>
    have hinner := (henv.linked.modes owner).contains_of_find (htop ▸ hfind) hkind
    have hwidth := h.width_pos henv hfind hkind
    rw [advanceOver, (hplain.mode.2 number hinner).mode.1.returnBegin, if_neg Bool.false_ne_true]
    refine ⟨rfl, ?_, fun _ _ => hwidth⟩
    have hmove : moveOf env found (state.reached env found cursor) = .enter number ∨
        moveOf env found (state.reached env found cursor) = .stay := by
      simp only [moveOf, hempty, hkind]
      split
      · exact .inl rfl
      · exact .inr rfl
    rcases hmove with hmove | hmove <;> rw [hmove, Move.Resizes] at hlength <;> omega
  | @left count hkind hcount =>
    have hmove : moveOf env found (state.reached env found cursor) = .leave count := by
      simp only [moveOf, hempty, hkind, hcount]
    rw [hmove, Move.Resizes] at hlength
    exact ⟨rfl, by omega, fun number hbegin => by cases hkind.symm.trans hbegin⟩
  | unended hkind hcount =>
    obtain ⟨count, hsome⟩ := h.exists_findEnded henv hfind hkind
    cases hsome.symm.trans hcount
  | illegal hkind =>
    have hmove : moveOf env found (state.reached env found cursor) = .stay := by
      simp only [moveOf, hempty, hkind]
    rw [hmove, Move.Resizes] at hlength
    refine ⟨rfl, ?_, fun number hbegin => by cases hkind.symm.trans hbegin⟩
    split <;> omega

/-- A scan that is paced stays so. -/
theorem step {next : State} (hstep : Returns (step env nested state) before (.more next) after) :
    next.Paced grammar env := by
  rcases step_cases hstep with ⟨-, hdone⟩ | ⟨found, cursor, state', advance, hfind, hhandle, hlast⟩
  · cases hdone
  obtain ⟨owner, htop, -⟩ := h.top_stands henv
  obtain ⟨hplain, -⟩ := h.frames_moved henv hfind (handle_moved hhandle)
  obtain ⟨hregisters, hframes, hbegin⟩ := h.pays henv hfind hhandle
  have hahead := henv.beginsAlone.ahead _ _ _ _ _ _ (htop ▸ hfind)
  have hcount := h.count
  obtain rfl : next = { state' with index := found.index + advance } := hlast
  refine ⟨hplain, ?_, fun number position hposition => ?_, congrArg Registers.resume hregisters⟩
  · have hiterations : state'.iterations = state.iterations + 1 :=
      congrArg Registers.iterations hregisters
    change state'.iterations + state'.frames.length ≤ 2 * (found.index + advance)
    omega
  · have hlast : state'.lastMatch = some (found.kind, found.index) :=
      congrArg Registers.lastMatch hregisters
    obtain ⟨hkind, rfl⟩ := Prod.mk.inj (Option.some.inj (hlast.symm.trans hposition))
    have hpositive := hbegin number hkind
    change found.index < found.index + advance
    omega

/-- A step of a scan that is paced fails for reasons only that are not its own. -/
theorem step_failsWith : FailsWith (IsForeign env nested) (Scan.step env nested state) := by
  have hnested := nested_failsWith_isForeign env nested
  rw [step_eq]
  split
  · next error herror =>
    have hcursor : state.begun.cursor = 0 := by simp [State.begun, h.fresh]
    rw [hcursor] at herror
    exact absurd herror (find_ne_error _ _ _ _)
  · exact .of_pure _
  · next found cursor hfind =>
    obtain ⟨hallowed, hempty⟩ := h.allowed henv hfind
    exact .bind (handle_failsWith_of_allowed hnested .illegal hallowed hempty) fun _ => .of_pure _

end State.Paced

/-- A scan that starts with no modes above the top mode is paced wherever it looks for a match. -/
theorem Searches.paced (h : Searches env nested [] state) : state.Paced grammar env := by
  induction h with
  | start =>
    have hstart : State.restore env [] = {} := rfl
    rw [hstart]
    exact ⟨fun _ hmem => (by cases hmem), Nat.le_refl 0, fun _ _ hlast => (by cases hlast), rfl⟩
  | more _ hstep ih => exact ih.step henv hstep

theorem loop_foreign {fuel : Nat} {fault : Fault} {frames : List Frame}
    (h : Searches env nested [] state)
    (hloop : Gives (loop env nested fuel state) before (.failed fault frames) after) :
    IsForeign env nested fault := by
  induction fuel generalizing state before with
  | zero => cases (gives_pure_iff.mp hloop).1
  | succ fuel ih =>
    obtain ⟨outcome, between, hstep, hrest⟩ := gives_bind_iff.mp hloop
    split at hrest
    · cases (gives_pure_iff.mp hrest).1
      exact (h.paced henv).step_failsWith henv _ _ _ hstep
    · cases (gives_pure_iff.mp hrest).1
    · exact ih (h.more hstep) hrest

theorem run_foreign {fault : Fault} {frames : List Frame}
    (hrun : Gives (run env nested []) before (.error (fault, frames)) after) :
    IsForeign env nested fault := by
  obtain ⟨outcome, between, hloop, hrest⟩ := gives_bind_iff.mp hrun
  split at hrest
  · cases (gives_pure_iff.mp hrest).1
    exact loop_foreign henv .start hloop
  · obtain ⟨flushed, _, hflush, hpure⟩ := gives_bind_iff.mp hrest
    split at hpure
    · cases (gives_pure_iff.mp hpure).1
      exact flush_failsWith (nested_failsWith_isForeign env nested) _ _ _ _ hflush
    · cases (gives_pure_iff.mp hpure).1

end

/-- The modes of the lexer of a plain grammar are plain. -/
theorem standsPlain_of_compile {meaning : String → RawMode} {lexer : Lexer}
    (hshares : grammar.root.Shares meaning) (hcompile : grammar.compile = .ok lexer)
    (hplain : grammar.root.IsPlain) :
    lexer.ignoreCase = grammar.rootless.caseInsensitive ∧
      lexer.StandsPlain grammar.rootless Lexer.root ∧
      ∀ text start cursor found after,
        (lexer.mode Lexer.root).rules.find text start cursor = .ok (some found, after) →
        found.kind ≠ .finish := by
  obtain ⟨hcase, -, hroot⟩ := grammar.compile_stands hshares hcompile
  refine ⟨hcase, ⟨none, _, hroot, Outline.ofRoot_plain hplain⟩, ?_⟩
  intro text start cursor found after hfind hkind
  obtain ⟨hbuilt, hlisted⟩ := hroot.rules
  obtain ⟨⟨source, kind⟩, hmem, hrule⟩ := RuleSet.exists_rule_of_find hbuilt hfind
  obtain rfl : RuleKind.finish = kind := hkind.symm.trans hrule.symm
  have hterminator := (hlisted source).mp hmem
  rw [hroot.mode.2.1 rfl] at hterminator
  cases hterminator

/-- A grammar with modes that find a pattern each and end behind it. -/
def patterns (sources : List String) : Grammar where
  name := "t"
  root := .of {} (sources.map fun source => .own (.of { wholePattern := some (.regex source) }))

/-- A scan of a text with this grammar, which does not recover from faults. -/
def patternsEnv (sources : List String) (text : String) : Env :=
  { Grammar.envOf (patterns sources) text with options := ⟨false, false⟩ }

theorem patterns_compiles {sources : List String} (text : String)
    (h : (patterns sources).compile.isOk = true) :
    (patterns sources).compile = .ok (patternsEnv sources text).lexer :=
  eq_ok_of_isOk h default

theorem patterns_shares (sources : List String) :
    (patterns sources).root.Shares fun _ => default := by
  rw [patterns, RawMode.of, RawMode.Shares]
  refine ⟨?_, by simp [RawMode.SharesVariants], by simp [RawMode.SharesNext]⟩
  induction sources with
  | nil => simp [RawMode.SharesChildren]
  | cons source sources ih =>
    simpa [RawMode.of, RawChild.own, RawMode.Shares, RawMode.SharesChildren,
      RawMode.SharesVariants, RawMode.SharesNext] using ih

theorem patterns_plain (sources : List String) : (patterns sources).root.IsPlain := by
  rw [patterns, RawMode.of, Mode.IsPlain]
  refine ⟨⟨rfl, rfl, rfl, rfl, rfl, rfl, rfl⟩, ?_, by simp [Mode.VariantsPlain], rfl⟩
  induction sources with
  | nil => simp [Mode.ChildrenPlain]
  | cons source sources ih =>
    rw [List.map_cons, RawChild.own, RawMode.of, Mode.ChildrenPlain, Mode.IsPlain]
    exact ⟨⟨⟨rfl, rfl, rfl, rfl, rfl, rfl, rfl⟩, by simp [Mode.ChildrenPlain],
      by simp [Mode.VariantsPlain], rfl⟩, ih⟩

/-- A begin pattern that is a single letter matches a text that is not empty. -/
theorem beginsWithText_of_letters {lexer : Lexer}
    (h : ∀ mode ∈ lexer.modes.toList, ∀ number ∈ mode.contains, ∃ set groups,
      Regex.compile lexer.ignoreCase (lexer.beginSource number) =
        .ok ⟨.settled 0 0 (.char set), groups⟩) : lexer.BeginsWithText := by
  intro owner number hmem regex hcompile text position hit hhit
  obtain ⟨set, groups, hletter⟩ := Lexer.mode_of_forall (motive := fun mode =>
    ∀ number ∈ mode.contains, ∃ set groups, Regex.compile lexer.ignoreCase
      (lexer.beginSource number) = .ok ⟨.settled 0 0 (.char set), groups⟩)
    (List.forall_mem_nil _) h owner number hmem
  cases hletter.symm.trans hcompile
  obtain ⟨state, hrun, rfl⟩ := Option.map_eq_some_iff.mp hhit
  simp only [Regex.Program.run, Regex.State.forget] at hrun
  split at hrun
  · next after hafter =>
    cases hrun
    split at hafter
    · split at hafter
      · cases hafter
        exact Nat.lt_succ_self position
      · cases hafter
    · cases hafter
  · cases hrun

/-- The fault that a scan raises, if it raises one. -/
def fault? (env : Env) : Option Fault :=
  match ((run env .unknown []).run {}).1 with
  | .error (fault, _) => some fault
  | .ok _ => none

theorem exists_gives_of_fault? {env : Env} {fault : Fault} (h : fault? env = some fault) :
    ∃ frames after, Gives (run env .unknown []) {} (.error (fault, frames)) after := by
  unfold fault? at h
  split at h
  · next frames herror =>
    cases h
    exact ⟨frames, _, Prod.ext herror rfl⟩
  · cases h

end Scan

end Highlighter
