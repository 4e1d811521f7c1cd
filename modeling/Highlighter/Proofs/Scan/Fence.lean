import Highlighter.Proofs.Scan.Openings

/-!
# Modes that end on what they began with

A mode may ask that the first group of its end match be that of its begin match. The end match that
it is asked about may be one of a mode inside it, whose end rule has come to match for it: the end
pattern of the outer mode then stands behind those of the modes inside it that end with it, and its
groups have moved up behind theirs. So the mode gets to see its own first group as long as none of
the end patterns before it has groups, and else the first of these, which took no part.
-/

namespace Highlighter.Scan

variable {env : Env} {nested : Nested} {found : RuleMatch} {frames : List Frame}
  {state state' : State} {before after : Trace} {openings : List (Option String)}
  {position place : Nat} {grammar : Grammar} {advance : Option Nat}

/-! ## The groups of an end match -/

theorem endsAt_of_hit {mode : LexerMode} {text : Array Char} {regex : Regex} {hit : Regex.Match}
    (hregex : mode.endRegex = some regex) (hhit : regex.matchAt? text position = some hit) :
    endsAt mode text position = true := by
  rw [endsAt, hregex]
  exact Option.isSome_of_mem hhit

theorem exists_hit_of_endsAt {mode : LexerMode} {text : Array Char}
    (h : endsAt mode text position = true) :
    ∃ regex hit, mode.endRegex = some regex ∧ regex.matchAt? text position = some hit := by
  unfold endsAt at h
  split at h
  · next regex hregex =>
    obtain ⟨hit, hhit⟩ := Option.isSome_iff_exists.mp h
    exact ⟨regex, hit, hregex, hhit⟩
  · cases h

/-- Where a mode is the first one on the stack that ends, the end rule of the innermost mode alone
matches as the end pattern of that mode does. Its groups have moved up, unless none of the modes
inside it has groups in its end pattern. -/
theorem exists_hit_stacked {outline : Outline} {frame : Frame} {regex : Regex} {own : Regex.Match}
    (hroot : env.lexer.Stands grammar none outline Lexer.root) (hlinked : env.lexer.Linked)
    (hcase : env.lexer.ignoreCase = grammar.caseInsensitive) (hends : env.lexer.EndsAsWritten)
    (hstacked : Lexer.Stacked grammar env.lexer (frames.map (·.mode)))
    (hfirst : EndsFirst env position frames place) (hframe : frames[place]? = some frame)
    (hregex : (env.lexer.mode frame.mode).endRegex = some regex)
    (hown : regex.matchAt? env.text position = some own) :
    ∃ hit offset,
      env.lexer.matchAlone?
        (env.lexer.mode ((frames.map (·.mode)).head?.getD Lexer.root)).terminator env.text
          position = some hit ∧
      Regex.Match.Moved offset own hit ∧
      (offset = 0 ↔ ∀ inner ∈ frames.take place, endGroups (env.lexer.mode inner.mode) = 0) := by
  induction frames generalizing place frame with
  | nil => cases hframe
  | cons innermost outer ih =>
    rw [List.map_cons] at hstacked
    obtain ⟨⟨terminator, _, hbuilt⟩, hsits, hbelow⟩ := hstacked
    obtain ⟨_, _, howner⟩ := hbelow.stands ⟨outline, hroot⟩
    have halone : ∀ source, (env.lexer.mode innermost.mode).terminator = some source →
        (⟨source, .finish⟩ : Rule).StandsAlone env.lexer.ignoreCase :=
      fun source hsource => hends.alone _ _ ((hbuilt.rules.2 source).mpr hsource)
    have hstarts := howner.rules.2
    have ih := fun place frame => @ih place frame hbelow
    change ∃ hit offset, env.lexer.matchAlone? (env.lexer.mode innermost.mode).terminator env.text
      position = some hit ∧ _
    generalize hplace : (outer.map (·.mode)).head?.getD Lexer.root = owner at *
    cases hsits with
    | built h =>
      have hinherits := h.mode.1
      rw [← hcase] at hinherits
      have houter : ∀ source, (env.lexer.mode owner).terminator = some source →
          (⟨source, .finish⟩ : Rule).StandsAlone env.lexer.ignoreCase :=
        fun source hsource => hends.alone _ _ ((hstarts source).mpr hsource)
      cases place with
      | zero =>
        cases hframe
        obtain ⟨hit, hhit, hmoved⟩ :=
          matchAlone?_own hends hinherits halone (fun _ => houter) hregex hown
        exact ⟨hit, 0, hhit, hmoved, by simp⟩
      | succ place =>
        obtain ⟨hmiss, hties⟩ := hfirst.above 0 (Nat.succ_pos place) innermost rfl
        obtain ⟨below, offset, hbelow, hmoved, hnone⟩ := ih place frame hfirst.tail hframe hregex
        obtain ⟨hit, hhit, hmoved'⟩ :=
          matchAlone?_outer hends hinherits halone houter hties hmiss hbelow
        refine ⟨hit, _, hhit, hmoved.trans hmoved', ?_⟩
        rw [Nat.add_eq_zero_iff, hnone, List.take_succ_cons, List.forall_mem_cons, and_comm]
    | itself hself =>
      -- the mode stands inside itself, and both frames have the same end rule
      cases outer with
      | nil =>
        have hroot : Lexer.root = innermost.mode := hplace
        rw [← hroot] at hself
        exact absurd ((hlinked.modes _).contains _ hself).above (Nat.lt_irrefl _)
      | cons next rest =>
        have hnext : next.mode = innermost.mode := hplace
        cases place with
        | zero =>
          cases hframe
          rw [← hnext] at hregex
          have hnow : EndsFirst env position (next :: rest) 0 :=
            ⟨⟨next, rfl, endsAt_of_hit hregex hown⟩,
              fun earlier hless => absurd hless (Nat.not_lt_zero earlier)⟩
          obtain ⟨hit, offset, hhit, hmoved, hnone⟩ := ih 0 next hnow rfl hregex
          exact ⟨hit, offset, hhit, hmoved, by simpa using hnone⟩
        | succ place =>
          obtain ⟨hmiss, -⟩ := hfirst.above 0 (Nat.succ_pos place) innermost rfl
          obtain ⟨hit, offset, hhit, hmoved, hnone⟩ := ih place frame hfirst.tail hframe hregex
          refine ⟨hit, offset, hhit, hmoved, hnone.trans ?_⟩
          rw [List.take_succ_cons, List.forall_mem_cons]
          refine (and_iff_right_of_imp fun hgroupless => ?_).symm
          cases place with
          | zero =>
            cases hframe
            rw [← hnext, endsAt_of_hit hregex hown] at hmiss
            cases hmiss
          | succ place =>
            have hgroups := hgroupless next (by rw [List.take_succ_cons]; exact List.mem_cons_self)
            rwa [hnext] at hgroups
    | following hself hleads =>
      have hinherits := hbuilt.mode.1
      have hfree := hends.apart owner hself _ hleads
      rw [← hcase] at hinherits
      cases place with
      | zero =>
        cases hframe
        obtain ⟨hit, hhit, hmoved⟩ := matchAlone?_own hends hinherits halone
          (fun hties => absurd (hfree.symm.trans hties) Bool.false_ne_true) hregex hown
        exact ⟨hit, 0, hhit, hmoved, by simp⟩
      | succ place =>
        obtain ⟨-, hties⟩ := hfirst.above 0 (Nat.succ_pos place) innermost rfl
        exact absurd (hfree.symm.trans hties) Bool.false_ne_true

/-- The text that an end match offers the mode at a place of the stack as its first group, when its
own end pattern matches with the groups of `own`: the groups of the modes inside it come first. -/
def offeredGroup (env : Env) (frames : List Frame) (place : Nat) (own : Regex.Match) : String :=
  if ∀ inner ∈ frames.take place, endGroups (env.lexer.mode inner.mode) = 0 then
    ((own.group? 1).map (·.text env.text)).getD ""
  else ""

theorem firstGroup_eq {offset : Nat} {own hit : Regex.Match} (hreports : found.Reports hit)
    (hmoved : Regex.Match.Moved offset own hit)
    (hnone : offset = 0 ↔ ∀ inner ∈ frames.take place, endGroups (env.lexer.mode inner.mode) = 0) :
    firstGroup env found = offeredGroup env frames place own := by
  rw [firstGroup, hreports 1, offeredGroup]
  split
  · next hgroupless =>
    have hzero := hnone.mpr hgroupless
    have hgroup := hmoved.moved 1 Nat.one_pos
    rw [hzero] at hgroup
    rw [hgroup]
  · next hgroups =>
    have hpositive : 1 ≤ offset := Nat.one_le_iff_ne_zero.mpr (mt hnone.mp hgroups)
    rw [hmoved.below 1 Nat.one_pos hpositive]
    rfl

/-! ## How many modes are left -/

/-- How many modes an end match leaves, if it ends one. -/
def left? (env : Env) (found : RuleMatch) (frames : List Frame) : Option Nat :=
  ((findEnded env found frames).run default).1.2

theorem left?_cons (env : Env) (found : RuleMatch) (frame : Frame) (outer : List Frame) :
    left? env found (frame :: outer) =
      if ((ownEnd env found frame).run default).1.1 then some (countEnded env (frame :: outer))
      else if (env.lexer.mode frame.mode).endsWithParent then (left? env found outer).map (· + 1)
      else none := by
  rw [left?, findEnded_cons, StateT.run_bind]
  have hmode : ((ownEnd env found frame).run default).1.2.mode = frame.mode :=
    ownEnd_mode (show Gives (ownEnd env found frame) default _ _ from rfl)
  generalize (ownEnd env found frame).run default = outcome at hmode ⊢
  obtain ⟨⟨accepted, frame'⟩, trace⟩ := outcome
  have hcount : countEnded env (frame' :: outer) = countEnded env (frame :: outer) := by
    have hmode : frame'.mode = frame.mode := hmode
    cases outer with
    | nil => rfl
    | cons next outer => simp only [countEnded, hmode]
  cases accepted with
  | true => exact congrArg some hcount
  | false =>
    have hsame := steady_findEnded env found outer trace default
    cases (env.lexer.mode frame.mode).endsWithParent with
    | false => rfl
    | true =>
      rw [if_pos rfl, left?, ← hsame]
      rfl

/-- Modes that do not end, and end with the mode around them, leave the question to that one. -/
theorem left?_of_above (hle : place ≤ frames.length)
    (habove : ∀ earlier < place, ∀ frame, frames[earlier]? = some frame →
      endsAt (env.lexer.mode frame.mode) env.text found.index = false ∧
        (env.lexer.mode frame.mode).endsWithParent = true) :
    left? env found frames = (left? env found (frames.drop place)).map (· + place) := by
  induction place generalizing frames with
  | zero => exact Option.map_id'.symm
  | succ place ih =>
    cases frames with
    | nil => cases hle
    | cons frame outer =>
      obtain ⟨hmiss, hties⟩ := habove 0 (Nat.succ_pos place) frame rfl
      have hown := ownEnd_run env found frame default
      rw [hmiss] at hown
      have houter := ih (Nat.le_of_succ_le_succ hle) fun earlier hless =>
        habove (earlier + 1) (Nat.succ_lt_succ hless)
      rw [left?_cons, hown, hties, houter, List.drop_succ_cons, Option.map_map]
      rfl

/-- A fence whose end pattern matches ends itself when it is offered what it keeps. Otherwise it is
left only with a mode around it, if it ends with that one. -/
theorem left?_fence {frame : Frame} {outer : List Frame} {opening : String}
    (hfence : (env.lexer.mode frame.mode).IsFence)
    (hends : endsAt (env.lexer.mode frame.mode) env.text found.index = true)
    (hkept : frame.data.get? Hook.beginKey = some opening) :
    left? env found (frame :: outer) =
      if opening = firstGroup env found then some (countEnded env (frame :: outer))
      else if (env.lexer.mode frame.mode).endsWithParent then (left? env found outer).map (· + 1)
      else none := by
  have hown := ownEnd_run env found frame default
  rw [hends, hfence.onEnd] at hown
  have haccepted : ((ownEnd env found frame).run default).1.1 =
      decide (opening = firstGroup env found) := by
    rw [hown]
    simp only [Hook.sameAsBegin, hkept, group?_info]
    by_cases hsame : opening = firstGroup env found
    · simp [hsame]
    · simp [hsame]
  rw [left?_cons, haccepted]
  simp only [decide_eq_true_eq]

/-- Handling an end match leaves as many modes as end at it, and a mode that follows takes their
place; where none ends, the modes stay. -/
theorem finish_left (h : Returns (finish env nested found state) before (state', advance) after) :
    match left? env found state.frames with
    | none => advance = none ∧ state'.frames.map (·.mode) = state.frames.map (·.mode)
    | some count => advance.isSome = true ∧ 0 < count ∧ count ≤ state.frames.length ∧
        state'.frames.map (·.mode) = (outermost env state.frames count).next.toList ++
          (state.frames.map (·.mode)).drop count := by
  rw [left?]
  obtain ⟨frames, ⟨hended, rfl, rfl⟩ | ⟨count, placed, _, hended, rfl, hplaced, rfl⟩⟩ :=
    finish_parts h
  · rw [hended]
    exact ⟨rfl, modes_of_marks (findEnded_default hended).1⟩
  · rw [hended]
    obtain ⟨hmarks, hbounds⟩ := findEnded_default hended
    obtain ⟨hpositive, hle⟩ := hbounds count rfl
    refine ⟨rfl, hpositive, hle, ?_⟩
    rw [frames_goOn, frames_popFrames, placeEnd_frames hplaced, List.map_append, List.map_drop,
      modes_of_marks hmarks]
    cases (outermost env state.frames count).next <;> rfl

/-! ## The law of fences -/

/-- A fence ends on what it began with. In every state of every scan, let a frame of a fence have
been entered by a begin match, and let it be the first one on the stack that ends where the rules of
the innermost mode find an end match. Then the match leaves this frame exactly if its first group is
that of the begin match, or else if the fence ends with a mode around it that is left. When the end
rules of the lexer say what its end patterns say, the first group of the match is the first group of
the end pattern of the fence alone, as long as no end pattern of a mode inside the fence has groups,
and else it is empty. -/
theorem Opened.fence_law {meaning : String → RawMode} {start cursor rest : Nat} {frame : Frame}
    {opening : String} (hshares : grammar.root.Shares meaning)
    (hcompile : grammar.compile = .ok env.lexer) (h : Opened env nested state openings)
    (hframe : state.frames[place]? = some frame) (hfence : (env.lexer.mode frame.mode).IsFence)
    (hopening : openings[place]? = some (some opening))
    (hfirst : EndsFirst env found.index state.frames place)
    (hfind : (state.top env).rules.find env.text start cursor = .ok (some found, rest))
    (hkind : found.kind = .finish) :
    ((∃ count, left? env found state.frames = some count ∧ place < count) ↔
        opening = firstGroup env found ∨
          (env.lexer.mode frame.mode).endsWithParent = true ∧
            (left? env found (state.frames.drop (place + 1))).isSome = true) ∧
      (opening = firstGroup env found →
        left? env found state.frames =
          some (place + countEnded env (state.frames.drop place))) ∧
      (∃ regex own, (env.lexer.mode frame.mode).endRegex = some regex ∧
        regex.matchAt? env.text found.index = some own ∧
        (env.lexer.EndsAsWritten →
          firstGroup env found = offeredGroup env state.frames place own)) ∧
      ∀ before state' advance after,
        Returns (finish env nested found state) before (state', advance) after →
        match left? env found state.frames with
        | none => advance = none ∧ state'.frames.map (·.mode) = state.frames.map (·.mode)
        | some count => advance.isSome = true ∧ 0 < count ∧ count ≤ state.frames.length ∧
            state'.frames.map (·.mode) = (outermost env state.frames count).next.toList ++
              (state.frames.map (·.mode)).drop count := by
  obtain ⟨hcase, -, hroot⟩ := grammar.compile_stands hshares hcompile
  have hlinked := grammar.compile_linked hcompile
  obtain ⟨-, hstacked, hkept⟩ := h.kept ⟨_, hroot⟩ hlinked
  obtain ⟨_, hsome, hmatches⟩ := hfirst.ends
  cases hsome.symm.trans hframe
  -- what the fence answers
  obtain ⟨hless, hget⟩ := List.getElem?_eq_some_iff.mp hframe
  have hdrop : state.frames.drop place = frame :: state.frames.drop (place + 1) := by
    rw [List.drop_eq_getElem_cons hless, hget]
  have hdata : frame.data.get? Hook.beginKey = some opening := by
    obtain ⟨hless', hopened⟩ := List.getElem?_eq_some_iff.mp hopening
    have hframe := hkept.get hless hless'
    rw [List.get_eq_getElem, List.get_eq_getElem, hget, hopened] at hframe
    exact hframe hfence opening rfl
  have hleft := left?_of_above (Nat.le_of_lt hless) hfirst.above
  rw [hdrop, left?_fence hfence hmatches hdata] at hleft
  have hpositive := (countEnded_bounds env frame (state.frames.drop (place + 1))).1
  refine ⟨?_, fun hsame => ?_, ?_, fun _ _ _ _ hfinish => finish_left hfinish⟩
  · rw [hleft]
    by_cases hsame : opening = firstGroup env found
    · rw [if_pos hsame]
      exact ⟨fun _ => .inl hsame, fun _ => ⟨_, rfl, Nat.lt_add_of_pos_left hpositive⟩⟩
    · rw [if_neg hsame, or_iff_right hsame]
      cases (env.lexer.mode frame.mode).endsWithParent with
      | false => simp
      | true =>
        cases left? env found (state.frames.drop (place + 1)) with
        | none => simp
        | some count =>
          simp only [if_true, Option.map_some, Option.isSome_some, and_self, iff_true]
          exact ⟨_, rfl, by omega⟩
  · rw [hleft, if_pos hsame, hdrop, Option.map_some, Nat.add_comm]
  · -- what the match offers
    obtain ⟨regex, own, hregex, hown⟩ := exists_hit_of_endsAt hmatches
    refine ⟨regex, own, hregex, hown, fun hends => ?_⟩
    obtain ⟨hit, offset, hhit, hmoved, hnone⟩ :=
      exists_hit_stacked hroot hlinked hcase hends hstacked hfirst hframe hregex hown
    obtain ⟨_, _, hstands⟩ := hstacked.stands ⟨_, hroot⟩
    rw [List.head?_map] at hhit hstands
    obtain ⟨hit', hhit', hreports⟩ := reports_of_find hstands hcase hends hfind hkind
    cases hhit'.symm.trans hhit
    exact firstGroup_eq hreports hmoved hnone

/-! ## A fence around a mode that ends with it -/

/-- A grammar with a fence of letters `x`, and in it a mode from `b` on that ends with it. -/
def fenced (inner : String) : Grammar where
  name := "t"
  root := .of {} [.own (Mode.endSameAsBegin (RawMode.of {
    scope := some "p"
    beginPattern := some (.regex "(x+)")
    endPattern := some (.regex "(x+)") } [.own (.of {
      scope := some "c"
      beginPattern := some (.regex "b")
      endPattern := some (.regex inner)
      endsWithParent := true })]))]

/-- A scan of a text with this grammar. -/
def fencedEnv (inner text : String) : Env where
  lexer := (fenced inner).compile.toOption.getD default
  language := "t"
  text := text.toList.toArray
  options := ⟨false, true⟩
  settings := {}

theorem fenced_compiles {inner : String} (text : String)
    (h : (fenced inner).compile.isOk = true) :
    (fenced inner).compile = .ok (fencedEnv inner text).lexer :=
  eq_ok_of_isOk h default

theorem fenced_shares (inner : String) : (fenced inner).root.Shares fun _ => default := by
  simp [fenced, RawMode.of, RawChild.own, Mode.endSameAsBegin, Mode.withFields, RawMode.Shares,
    RawMode.SharesChildren, RawMode.SharesVariants, RawMode.SharesNext]

/-- The state after a number of steps, with what its frames have been opened with. -/
def openedAfter (env : Env) :
    (count : Nat) → State → List (Option String) → Option (State × List (Option String))
  | 0, state, openings => some (state, openings)
  | count + 1, state, openings =>
    match ((step env .unknown state).run.run {}).1 with
    | .ok (.more next) => openedAfter env count next (stepOpenings env state openings)
    | _ => none

theorem opened_of_openedAfter {count : Nat} {openings' : List (Option String)}
    (h : Opened env .unknown state openings)
    (hafter : openedAfter env count state openings = some (state', openings')) :
    Opened env .unknown state' openings' := by
  induction count generalizing state openings with
  | zero =>
    cases hafter
    exact h
  | succ count ih =>
    rw [openedAfter] at hafter
    split at hafter
    · next next hstep =>
      have hreturns : Returns (step env .unknown state) {} (.more next) _ := Prod.ext hstep rfl
      exact ih (h.step hreturns) hafter
    · cases hafter

/-- What stands after two steps in front of the end of the fence: the modes, what they have been
opened with, and how many of them the end match leaves. -/
def fencedOutcome (env : Env) : Option (List Nat × List (Option String) × Option (Option Nat)) :=
  (openedAfter env 2 (State.restore env []) []).map fun (state, openings) =>
    (state.frames.map (·.mode), openings,
      ((state.top env).rules.find env.text 2 0).toOption.bind fun (found, _) =>
        found.bind fun found =>
          if found.kind = .finish ∧ found.index = 2 then some (left? env found state.frames)
          else none)

theorem exists_opened_of_outcome {modes : List Nat} {left : Option Nat}
    (h : fencedOutcome env = some (modes, openings, some left)) :
    ∃ state found rest, Opened env .unknown state openings ∧
      state.frames.map (·.mode) = modes ∧
      (state.top env).rules.find env.text 2 0 = .ok (some found, rest) ∧ found.kind = .finish ∧
      found.index = 2 ∧ left? env found state.frames = left := by
  obtain ⟨⟨state, openings'⟩, hafter, hparts⟩ := Option.map_eq_some_iff.mp h
  simp only [Prod.mk.injEq] at hparts
  obtain ⟨hmodes, rfl, hfound⟩ := hparts
  obtain ⟨⟨found?, rest⟩, hfind, hfound⟩ := Option.bind_eq_some_iff.mp hfound
  obtain ⟨found, rfl, hleft⟩ := Option.bind_eq_some_iff.mp hfound
  split at hleft
  · next hmatch =>
    cases hleft
    refine ⟨state, found, rest, opened_of_openedAfter (.start env .unknown) hafter, hmodes, ?_,
      hmatch.1, hmatch.2, rfl⟩
    cases hsearch : (state.top env).rules.find env.text 2 0 with
    | error _ =>
      rw [hsearch] at hfind
      cases hfind
    | ok result =>
      rw [hsearch] at hfind
      cases hfind
      rfl
  · cases hleft

/-- The mode in the root has the hooks of a fence, whatever the end pattern of the mode in it. -/
theorem isFence_fenced {inner : String} {lexer : Lexer}
    (hcompile : (fenced inner).compile = .ok lexer)
    (hcontains : (lexer.mode Lexer.root).contains = [1]) : (lexer.mode 1).IsFence := by
  obtain ⟨-, -, hroot⟩ := (fenced inner).compile_stands (fenced_shares inner) hcompile
  obtain ⟨_, number, rest, hnumbers, hfence, -⟩ := hroot.children hcontains
  cases hnumbers
  obtain ⟨-, _, _, _, _, hsurvey, hmode, -⟩ := Lexer.represents_mk.mp hfence
  obtain ⟨fields, hfields, hbase⟩ := Lexer.modeOf_of_survey hsurvey
  cases hfields
  obtain ⟨-, -, -, -, -, -, -, honBegin, honEnd, -⟩ := Lexer.modeOf_eq_ok hbase
  exact ⟨(congrArg (·.onBegin) hmode).trans honBegin, (congrArg (·.onEnd) hmode).trans honEnd⟩

/-- A letter and a group read as either of them when there is a bar between them. -/
theorem readsAsEither_fenced :
    Regex.Tree.ReadsAsEither (Regex.startFlags false) "y" "(x+)" :=
  ⟨(Regex.Tree.read (Regex.startFlags false) "y").toOption.getD default,
    (Regex.Tree.read (Regex.startFlags false) "(x+)").toOption.getD default, by cbv, by cbv,
    ⟨by decide +kernel, by decide +kernel⟩, ⟨by decide +kernel, by decide +kernel⟩, by cbv⟩

theorem endsAsWritten_fenced : (fencedEnv "y" "xbx!").lexer.EndsAsWritten :=
  endsAsWritten_of_forall (by decide) (by decide) readsAsEither_fenced (by decide +kernel)

/-- The end pattern of the inner mode has no group, and the end rule of this mode leaves both modes
where the fence is offered what it began with. -/
theorem Opened.fence_law_fenced :
    let env := fencedEnv "y" "xbx!"
    (fenced "y").compile = .ok env.lexer ∧ env.lexer.EndsAsWritten ∧
    ∃ state found rest frame,
      Opened env .unknown state [some "", some "x"] ∧ state.frames[1]? = some frame ∧
      (env.lexer.mode frame.mode).IsFence ∧
      (state.top env).rules.find env.text 2 0 = .ok (some found, rest) ∧ found.kind = .finish ∧
      EndsFirst env found.index state.frames 1 ∧
      left? env found state.frames = some (1 + countEnded env (state.frames.drop 1)) ∧
      ∃ own, "x" = offeredGroup env state.frames 1 own := by
  intro env
  obtain ⟨hok, hcontains, houtcome, hinner, hties, houter, hfree⟩ :
      (fenced "y").compile.isOk = true ∧ (env.lexer.mode Lexer.root).contains = [1] ∧
      fencedOutcome env = some ([2, 1], [some "", some "x"], some (some 2)) ∧
      endsAt (env.lexer.mode 2) env.text 2 = false ∧ (env.lexer.mode 2).endsWithParent = true ∧
      endsAt (env.lexer.mode 1) env.text 2 = true ∧
      (env.lexer.mode 1).endsWithParent = false := by decide +kernel
  have hcompile := fenced_compiles "xbx!" hok
  obtain ⟨state, found, rest, hopened, hmodes, hfind, hkind, hindex, hleft⟩ :=
    exists_opened_of_outcome houtcome
  obtain ⟨frame, hframe, hmode, hfirst⟩ := endsFirst_of_modes hmodes hinner hties houter
  have hfence : (env.lexer.mode frame.mode).IsFence := by
    rw [hmode]
    exact isFence_fenced hcompile hcontains
  rw [← hindex] at hfirst
  obtain ⟨hlaw, hcount, ⟨regex, own, -, -, hoffers⟩, -⟩ :=
    hopened.fence_law (fenced_shares "y") hcompile hframe hfence rfl hfirst hfind hkind
  rw [← hmode] at hfree
  have hsame : "x" = firstGroup env found := by
    refine (hlaw.mp ⟨2, hleft, Nat.one_lt_two⟩).resolve_right fun hparent => ?_
    exact absurd (hfree.symm.trans hparent.1) Bool.false_ne_true
  exact ⟨hcompile, endsAsWritten_fenced, state, found, rest, frame, hopened, hframe, hfence, hfind,
    hkind, hfirst, hcount hsame, own, hsame.trans (hoffers endsAsWritten_fenced)⟩

/-- The end pattern of the inner mode has a group, which the fence is offered in the place of its
own. So the fence stays, although it would end on what it began with. -/
theorem Opened.misses_fence :
    let env := fencedEnv "(y)" "xbx!"
    (fenced "(y)").compile = .ok env.lexer ∧
    ∃ state found rest frame own,
      Opened env .unknown state [some "", some "x"] ∧ state.frames[1]? = some frame ∧
      (env.lexer.mode frame.mode).IsFence ∧
      (state.top env).rules.find env.text 2 0 = .ok (some found, rest) ∧ found.kind = .finish ∧
      EndsFirst env found.index state.frames 1 ∧
      ((env.lexer.mode frame.mode).endRegex.bind (·.matchAt? env.text found.index)) = some own ∧
      (own.group? 1).map (·.text env.text) = some "x" ∧
      left? env found state.frames = none := by
  intro env
  obtain ⟨hok, hcontains, houtcome, hinner, hties, houter, hgroup⟩ :
      (fenced "(y)").compile.isOk = true ∧ (env.lexer.mode Lexer.root).contains = [1] ∧
      fencedOutcome env = some ([2, 1], [some "", some "x"], some none) ∧
      endsAt (env.lexer.mode 2) env.text 2 = false ∧ (env.lexer.mode 2).endsWithParent = true ∧
      endsAt (env.lexer.mode 1) env.text 2 = true ∧
      (((env.lexer.mode 1).endRegex.bind (·.matchAt? env.text 2)).bind fun own =>
        (own.group? 1).map (·.text env.text)) = some "x" := by decide +kernel
  have hcompile := fenced_compiles "xbx!" hok
  obtain ⟨state, found, rest, hopened, hmodes, hfind, hkind, hindex, hleft⟩ :=
    exists_opened_of_outcome houtcome
  obtain ⟨frame, hframe, hmode, hfirst⟩ := endsFirst_of_modes hmodes hinner hties houter
  obtain ⟨own, hown, hgroup⟩ := Option.bind_eq_some_iff.mp hgroup
  refine ⟨hcompile, state, found, rest, frame, own, hopened, hframe, ?_, hfind, hkind, ?_, ?_,
    hgroup, hleft⟩
  · rw [hmode]
    exact isFence_fenced hcompile hcontains
  · rw [hindex]
    exact hfirst
  · rw [hmode, hindex]
    exact hown

end Highlighter.Scan
