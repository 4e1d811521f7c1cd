import Highlighter.Proofs.Lexer.Terminators
import Highlighter.Proofs.Scan.Discipline

/-!
# Modes that end with the mode around them

The end rule of a mode is put together in advance, from the modes it was built in. When it matches,
the scan looks down the stack for the mode that has ended, with the end patterns of the modes
themselves. Where end rules say what they are meant to say, both agree in every state of every scan:
the end rule of the innermost mode matches exactly where the scan finds a mode that ends.
-/

namespace Highlighter.Scan

variable {env : Env} {nested : Nested} {found : RuleMatch} {frames frames' : List Frame}
  {state state' : State} {move : Move} {before after : Trace} {grammar : Grammar}
  {motive : List Nat → Prop} {position place : Nat}

/-! ## The modes on the stack -/

/-- What holds of no modes, and of the modes of a stack after every step, holds of the modes of
every stack that is reached. -/
theorem modes_of_reaches (hnothing : motive [])
    (hstep : ∀ {state progress before after}, motive (state.frames.map (·.mode)) →
      Returns (step env nested state) before progress after →
        motive (progress.last.frames.map (·.mode)))
    (hframes : motive (frames.map (·.mode))) (h : Reaches env nested frames state) :
    motive (state.frames.map (·.mode)) := by
  induction h with
  | start =>
    unfold State.restore
    split
    · exact hframes
    · exact hnothing
  | step _ hprogress ih => exact hstep ih hprogress
  | rest _ hrest ih =>
    rw [flush_frames hrest]
    exact ih

theorem modes_of_handedOn {lexer : Lexer} (hnothing : motive [])
    (hstep : ∀ {env nested state progress before after}, env.lexer = lexer →
      motive (state.frames.map (·.mode)) → Returns (step env nested state) before progress after →
        motive (progress.last.frames.map (·.mode)))
    (h : HandedOn lexer frames) : motive (frames.map (·.mode)) := by
  induction h with
  | nothing => exact hnothing
  | ended hlexer _ hrun ih =>
    obtain ⟨last, hlast, heq | ⟨fault, heq⟩⟩ := Reaches.of_run hrun
    · cases heq
      have hmodes := modes_of_reaches hnothing (hstep hlexer) ih hlast
      simp only [conclude, List.map_map]
      exact hmodes
    · cases heq
  | failed hlexer _ hrun ih =>
    obtain ⟨last, hlast, heq | ⟨fault, heq⟩⟩ := Reaches.of_run hrun
    · cases heq
    · cases heq
      exact modes_of_reaches hnothing (hstep hlexer) ih hlast

theorem map_fst_marks (frames : List Frame) :
    (marks frames).map Prod.fst = frames.map (·.mode) := by
  rw [marks, List.map_map]
  rfl

/-- A move that enters a mode inside the innermost one, or leaves some modes, keeps the modes of a
stack stacked. -/
theorem stacked_moveMarks (hroot : ∃ outline, env.lexer.Stands grammar none outline Lexer.root)
    (hlinked : env.lexer.Linked)
    (hstacked : Lexer.Stacked grammar env.lexer (frames.map (·.mode)))
    (henter : ∀ number, move = .enter number →
      number ∈ (env.lexer.mode ((frames.map (·.mode)).head?.getD Lexer.root)).contains)
    (hleave : ∀ count, move = .leave count → 0 < count ∧ count ≤ frames.length) :
    Lexer.Stacked grammar env.lexer ((moveMarks env frames move).map Prod.fst) := by
  cases move with
  | stay =>
    rw [moveMarks, map_fst_marks]
    exact hstacked
  | enter number =>
    rw [moveMarks, List.map_cons, map_fst_marks]
    exact hstacked.enter hroot hlinked (henter number rfl)
  | leave count =>
    obtain ⟨hpositive, hle⟩ := hleave count rfl
    rw [moveMarks, List.map_append, List.map_drop, map_fst_marks]
    have hless : count - 1 < frames.length := by omega
    have hinnermost := hstacked.drop (count - 1)
    rw [List.drop_eq_getElem_cons (by rwa [List.length_map]), List.getElem_map,
      Nat.sub_add_cancel hpositive] at hinnermost
    have hlast : outermost env frames count = env.lexer.mode frames[count - 1].mode := by
      rw [outermost, List.getElem?_eq_getElem hless]
      rfl
    rw [hlast]
    cases hnext : (env.lexer.mode frames[count - 1].mode).next with
    | none => exact hinnermost.2.2
    | some number => exact hinnermost.follow hnext

/-- Every step keeps the modes of the stack stacked. -/
theorem step_stacked {progress : Progress}
    (hroot : ∃ outline, env.lexer.Stands grammar none outline Lexer.root)
    (hlinked : env.lexer.Linked)
    (hstacked : Lexer.Stacked grammar env.lexer (state.frames.map (·.mode)))
    (h : Returns (step env nested state) before progress after) :
    Lexer.Stacked grammar env.lexer (progress.last.frames.map (·.mode)) := by
  rcases step_moved h with ⟨-, rfl⟩ | ⟨found, cursor, state', advance, hfind, -, hmoved, hlast⟩
  · exact hstacked
  have hmarks : marks progress.last.frames = moveMarks env state.frames
      (moveOf env found (state.reached env found cursor)) := by
    rw [hlast]
    exact hmoved.marks
  have hmodes := congrArg (List.map Prod.fst) hmarks
  rw [map_fst_marks] at hmodes
  rw [hmodes]
  refine stacked_moveMarks hroot hlinked hstacked (fun number hmove => ?_) fun count hmove => ?_
  · rw [hmove] at hmoved
    cases hmoved with
    | enter hkind _ =>
      rw [List.head?_map]
      exact (hlinked.modes _).contains_of_find hfind hkind
  · rw [hmove] at hmoved
    cases hmoved with
    | leave _ _ hpositive hle _ => exact ⟨hpositive, hle⟩

/-- In every state of every scan, the modes on the stack stand inside each other as they may. -/
theorem Reachable.stacked (hroot : ∃ outline, env.lexer.Stands grammar none outline Lexer.root)
    (hlinked : env.lexer.Linked) (h : Reachable env nested state) :
    Lexer.Stacked grammar env.lexer (state.frames.map (·.mode)) := by
  obtain ⟨frames, hframes, hreaches⟩ := h
  refine modes_of_reaches trivial (step_stacked hroot hlinked)
    (modes_of_handedOn trivial (fun hlexer hmodes hstep => ?_) hframes) hreaches
  rw [← hlexer] at hroot hlinked hmodes ⊢
  exact step_stacked hroot hlinked hmodes hstep

/-! ## The mode that ends -/

/-- The first mode of a stack whose own end pattern matches at a position, when the modes above it
end with the mode around them, by its place from the innermost mode on. -/
structure EndsFirst (env : Env) (position : Nat) (frames : List Frame) (place : Nat) : Prop where
  ends : ∃ frame, frames[place]? = some frame ∧
    endsAt (env.lexer.mode frame.mode) env.text position = true
  above : ∀ earlier < place, ∀ frame, frames[earlier]? = some frame →
    endsAt (env.lexer.mode frame.mode) env.text position = false ∧
      (env.lexer.mode frame.mode).endsWithParent = true

/-- Where the first mode that ends at a position is on a stack. -/
def endingPlace? (env : Env) (position : Nat) : List Frame → Option Nat
  | [] => none
  | frame :: outer =>
    let mode := env.lexer.mode frame.mode
    if endsAt mode env.text position then some 0
    else if mode.endsWithParent then (endingPlace? env position outer).map (· + 1)
    else none

theorem EndsFirst.cons {frame : Frame} {outer : List Frame}
    (hends : endsAt (env.lexer.mode frame.mode) env.text position = false)
    (hties : (env.lexer.mode frame.mode).endsWithParent = true)
    (h : EndsFirst env position outer place) :
    EndsFirst env position (frame :: outer) (place + 1) where
  ends := h.ends
  above earlier hless other hother := by
    cases earlier with
    | zero =>
      cases hother
      exact ⟨hends, hties⟩
    | succ earlier => exact h.above earlier (Nat.lt_of_succ_lt_succ hless) other hother

theorem EndsFirst.tail {frame : Frame} {outer : List Frame}
    (h : EndsFirst env position (frame :: outer) (place + 1)) :
    EndsFirst env position outer place :=
  ⟨h.ends, fun earlier hless => h.above (earlier + 1) (Nat.succ_lt_succ hless)⟩

theorem EndsFirst.of_endingPlace? (h : endingPlace? env position frames = some place) :
    EndsFirst env position frames place := by
  induction frames generalizing place with
  | nil => cases h
  | cons frame outer ih =>
    simp only [endingPlace?] at h
    split at h
    · next hends =>
      cases h
      exact ⟨⟨frame, rfl, hends⟩, fun earlier hless => absurd hless (Nat.not_lt_zero earlier)⟩
    · next hends =>
      split at h
      · next hties =>
        obtain ⟨inner, hinner, rfl⟩ := Option.map_eq_some_iff.mp h
        exact (ih hinner).cons (eq_false_of_ne_true hends) hties
      · cases h

theorem EndsFirst.endingPlace?_eq (h : EndsFirst env position frames place) :
    endingPlace? env position frames = some place := by
  induction frames generalizing place with
  | nil =>
    obtain ⟨frame, hframe, -⟩ := h.ends
    cases hframe
  | cons frame outer ih =>
    cases place with
    | zero =>
      obtain ⟨_, hframe, hends⟩ := h.ends
      cases hframe
      simp only [endingPlace?, hends, if_true]
    | succ place =>
      obtain ⟨hends, hties⟩ := h.above 0 (Nat.succ_pos place) frame rfl
      simp only [endingPlace?, hends, hties, ih h.tail, Bool.false_eq_true, if_false, if_true,
        Option.map_some]

/-- Where no mode has an end hook, the first mode that ends at a match is left, along with the modes
around it that end with it. -/
theorem findEnded_unhooked (hunhooked : ∀ number, (env.lexer.mode number).onEnd = none)
    (frames : List Frame) (trace : Trace) :
    Gives (findEnded env found frames) trace (frames, (endingPlace? env found.index frames).map
      fun place => place + countEnded env (frames.drop place)) trace := by
  induction frames with
  | nil => exact gives_pure_iff.mpr ⟨rfl, rfl⟩
  | cons frame outer ih =>
    have hown : ownEnd env found frame =
        pure (endsAt (env.lexer.mode frame.mode) env.text found.index, frame) := by
      unfold ownEnd
      rw [hunhooked]
      cases endsAt (env.lexer.mode frame.mode) env.text found.index <;> rfl
    rw [findEnded_cons, hown]
    refine gives_bind_iff.mpr ⟨_, trace, gives_pure_iff.mpr ⟨rfl, rfl⟩, ?_⟩
    simp only [endingPlace?]
    split
    · refine gives_pure_iff.mpr ⟨?_, rfl⟩
      simp
    · split
      · refine gives_bind_iff.mpr ⟨_, trace, ih, gives_pure_iff.mpr ⟨?_, rfl⟩⟩
        simp only [Option.map_map]
        congr 2
        funext place
        simp only [Function.comp_apply, List.drop_succ_cons]
        omega
      · exact gives_pure_iff.mpr ⟨rfl, rfl⟩

theorem isSome_endingPlace?_cons (env : Env) (position : Nat) (frame : Frame)
    (outer : List Frame) :
    (endingPlace? env position (frame :: outer)).isSome =
      (endsAt (env.lexer.mode frame.mode) env.text position ||
        (env.lexer.mode frame.mode).endsWithParent &&
          (endingPlace? env position outer).isSome) := by
  simp only [endingPlace?]
  cases endsAt (env.lexer.mode frame.mode) env.text position <;>
    cases (env.lexer.mode frame.mode).endsWithParent <;> simp

/-! ## The end rule -/

/-- The end rule of the innermost mode alone matches exactly where a mode of the stack ends. -/
theorem matchesAlone_stacked {outline : Outline}
    (hroot : env.lexer.Stands grammar none outline Lexer.root) (hlinked : env.lexer.Linked)
    (hcase : env.lexer.ignoreCase = grammar.caseInsensitive) (hends : env.lexer.EndsAsMeant)
    (hstacked : Lexer.Stacked grammar env.lexer (frames.map (·.mode))) (position : Nat) :
    env.lexer.matchesAlone
        (env.lexer.mode ((frames.map (·.mode)).head?.getD Lexer.root)).terminator env.text
          position =
      (endingPlace? env position frames).isSome := by
  induction frames with
  | nil =>
    obtain ⟨-, hnone, -⟩ := hroot.mode
    rw [List.map_nil, List.head?_nil, Option.getD_none, hnone rfl]
    rfl
  | cons frame outer ih =>
    rw [List.map_cons] at hstacked
    obtain ⟨⟨terminator, _, hbuilt⟩, hsits, hbelow⟩ := hstacked
    have ih := ih hbelow
    obtain ⟨_, _, howner⟩ := hbelow.stands ⟨outline, hroot⟩
    have hstarts := howner.rules.2
    have hown : ∀ source, (env.lexer.mode frame.mode).terminator = some source →
        (⟨source, .finish⟩ : Rule).StandsAlone env.lexer.ignoreCase :=
      fun source hsource => hends.alone _ _ ((hbuilt.rules.2 source).mpr hsource)
    rw [isSome_endingPlace?_cons, ← ih]
    change env.lexer.matchesAlone (env.lexer.mode frame.mode).terminator env.text position = _
    generalize hplace : (outer.map (·.mode)).head?.getD Lexer.root = owner at *
    generalize hnumber : frame.mode = number at *
    cases hsits with
    | built h =>
      have hinherits := h.mode.1
      rw [← hcase] at hinherits
      exact matchesAlone_terminator hends.asWritten hinherits hown
        (fun _ source hsource => hends.alone _ _ ((hstarts source).mpr hsource)) env.text position
    | itself hself =>
      cases outer with
      | nil =>
        subst hplace
        exact absurd ((hlinked.modes _).contains _ hself).above (Nat.lt_irrefl _)
      | cons inner rest =>
        have hinner : inner.mode = owner := hplace
        rw [isSome_endingPlace?_cons, hinner] at ih
        rw [ih]
        cases endsAt (env.lexer.mode owner) env.text position <;>
          cases (env.lexer.mode owner).endsWithParent <;> simp
    | following hself hleads =>
      have hinherits := hbuilt.mode.1
      have hfree := hends.apart owner hself number hleads
      rw [← hcase] at hinherits
      rw [matchesAlone_terminator hends.asWritten hinherits hown
        (fun hties => absurd (hfree.symm.trans hties) Bool.false_ne_true), hfree, Bool.false_and,
        Bool.false_and]

/-- An end match of the rules of a mode is a match of its end rule alone, with the same groups. -/
theorem reports_of_find {outer : Option (Option String)} {outline : Outline}
    {number start cursor rest : Nat} (hstands : env.lexer.Stands grammar outer outline number)
    (hcase : env.lexer.ignoreCase = grammar.caseInsensitive) (hends : env.lexer.EndsAsWritten)
    (hfind : (env.lexer.mode number).rules.find env.text start cursor = .ok (some found, rest))
    (hkind : found.kind = .finish) :
    ∃ hit, env.lexer.matchAlone? (env.lexer.mode number).terminator env.text found.index =
      some hit ∧ found.Reports hit := by
  obtain ⟨hbuild, hlisted⟩ := hstands.rules
  rw [← hcase] at hbuild
  obtain ⟨⟨source, kind⟩, hmem, hrule, -, hit, hmatch, hreports⟩ :=
    RuleSet.exists_rule_matching hbuild (hends.alone number) hfind
  obtain rfl : RuleKind.finish = kind := hkind.symm.trans hrule
  rw [(hlisted source).mp hmem]
  exact ⟨hit, hmatch, hreports⟩

/-- Handling an end match leaves the mode that ends and the modes inside it, along with the modes
around it that end with it; a mode that follows takes their place. -/
theorem finish_leaves {advance : Option Nat}
    (hunhooked : ∀ number, (env.lexer.mode number).onEnd = none)
    (hplace : endingPlace? env found.index state.frames = some place)
    (h : Returns (finish env nested found state) before (state', advance) after) :
    let count := place + countEnded env (state.frames.drop place)
    advance.isSome = true ∧ 0 < count ∧ count ≤ state.frames.length ∧
      state'.frames.map (·.mode) = (outermost env state.frames count).next.toList ++
        (state.frames.map (·.mode)).drop count := by
  intro count
  have hcount : ((findEnded env found state.frames).run default).1.2 = some count := by
    have hgives := @findEnded_unhooked env found hunhooked state.frames default
    rw [hplace] at hgives
    rw [hgives]
    rfl
  obtain ⟨frames, hmarks, ⟨hnone, -⟩ |
    ⟨count', ready, hsome, hadvance, hpositive, hle, hready, rfl⟩⟩ := finish_readies h
  · cases hnone.symm.trans hcount
  · cases hsome.symm.trans hcount
    refine ⟨hadvance, hpositive, hle, ?_⟩
    rw [← map_fst_marks, goOn_marks, frames_popFrames, marks_drop, hready.marks, hmarks,
      List.map_append, List.map_drop, map_fst_marks]
    cases (outermost env state.frames count).next <;> rfl

/-- A mode that ends with the mode around it recognises the end of that one. In every state of every
scan with a lexer whose end rules say what its modes end with, the end rule of the innermost mode
alone matches at a position exactly where the modes that end with the mode around them lead to a
mode whose own end pattern matches there. When the rules of the innermost mode find an end match,
the first such mode is left, with the modes inside it and the modes around it that end with it, and
this is at least one mode. -/
theorem Reachable.recognises_ends {grammar : Grammar} {meaning : String → RawMode}
    (hshares : grammar.root.Shares meaning) (hcompile : grammar.compile = .ok env.lexer)
    (hends : env.lexer.EndsAsMeant) (h : Reachable env nested state) :
    (∀ position, env.lexer.matchesAlone (state.top env).terminator env.text position = true ↔
      ∃ place, EndsFirst env position state.frames place) ∧
    ∀ start cursor found rest,
      (state.top env).rules.find env.text start cursor = .ok (some found, rest) →
      found.kind = .finish →
      ∃ place, EndsFirst env found.index state.frames place ∧
        ∀ before state' advance after,
          Returns (finish env nested found state) before (state', advance) after →
          let count := place + countEnded env (state.frames.drop place)
          advance.isSome = true ∧ 0 < count ∧ count ≤ state.frames.length ∧
            state'.frames.map (·.mode) = (outermost env state.frames count).next.toList ++
              (state.frames.map (·.mode)).drop count := by
  obtain ⟨hcase, -, hroot⟩ := grammar.compile_stands hshares hcompile
  have hlinked := grammar.compile_linked hcompile
  have hstacked := h.stacked ⟨_, hroot⟩ hlinked
  have hrule : ∀ position, env.lexer.matchesAlone (state.top env).terminator env.text position =
      (endingPlace? env position state.frames).isSome := by
    intro position
    have hrule := matchesAlone_stacked hroot hlinked hcase hends hstacked position
    rwa [List.head?_map] at hrule
  have hiff : ∀ position,
      env.lexer.matchesAlone (state.top env).terminator env.text position = true ↔
        ∃ place, endingPlace? env position state.frames = some place := by
    intro position
    rw [hrule, Option.isSome_iff_exists]
  refine ⟨fun position => (hiff position).trans
    ⟨fun ⟨place, hplace⟩ => ⟨place, .of_endingPlace? hplace⟩,
      fun ⟨place, hplace⟩ => ⟨place, hplace.endingPlace?_eq⟩⟩, ?_⟩
  intro start cursor found rest hfind hkind
  obtain ⟨_, _, hstands⟩ := hstacked.stands ⟨_, hroot⟩
  rw [List.head?_map] at hstands
  obtain ⟨hit, hmatch, -⟩ := reports_of_find hstands hcase hends.asWritten hfind hkind
  have hmatches := Option.isSome_of_mem hmatch
  rw [← Lexer.matchesAlone_eq] at hmatches
  obtain ⟨place, hplace⟩ := (hiff found.index).mp hmatches
  exact ⟨place, .of_endingPlace? hplace,
    fun before state' advance after hfinish => finish_leaves hends.unhooked hplace hfinish⟩

/-! ## A mode inside another one that it ends with -/

/-- A grammar with a mode from `a` on, in which there is a mode from `b` on that ends with it. -/
def tied (own outer : String) : Grammar where
  name := "t"
  root := .of {} [.own (.of {
    scope := some "p"
    beginPattern := some (.regex "a")
    endPattern := some (.regex outer) } [.own (.of {
      scope := some "c"
      beginPattern := some (.regex "b")
      endPattern := some (.regex own)
      endsWithParent := true })])]

/-- A scan of a text with this grammar. -/
def tiedEnv (own outer text : String) : Env where
  lexer := (tied own outer).compile.toOption.getD default
  language := "t"
  text := text.toList.toArray
  options := ⟨false, true⟩
  settings := {}

theorem tied_compiles {own outer : String} (text : String)
    (h : (tied own outer).compile.isOk = true) :
    (tied own outer).compile = .ok (tiedEnv own outer text).lexer :=
  eq_ok_of_isOk h default

theorem tied_shares (own outer : String) : (tied own outer).root.Shares fun _ => default := by
  simp [tied, RawMode.of, RawChild.own, RawMode.Shares, RawMode.SharesChildren,
    RawMode.SharesVariants, RawMode.SharesNext]

/-- The modes of the stack after a number of steps. -/
def modesAfter (env : Env) (count : Nat) : Option (List Nat) :=
  match ((loop env .unknown count (State.restore env [])).run {}).1 with
  | .done state => some (state.frames.map (·.mode))
  | .failed _ _ => none

theorem exists_reachable_of_modesAfter {count : Nat} {modes : List Nat}
    (h : modesAfter env count = some modes) :
    ∃ state, Reachable env .unknown state ∧ state.frames.map (·.mode) = modes := by
  unfold modesAfter at h
  obtain ⟨outcome, between, hloop⟩ : ∃ outcome between,
      Gives (loop env .unknown count (State.restore env [])) {} outcome between := ⟨_, _, rfl⟩
  rw [show (loop env .unknown count (State.restore env [])).run {} = _ from hloop] at h
  obtain ⟨last, hlast, rfl | ⟨fault, rfl⟩⟩ := Reaches.of_loop .start hloop
  · exact ⟨last, ⟨[], .nothing, hlast⟩, Option.some.inj h⟩
  · cases h

/-- What the innermost mode finds after a number of steps. -/
theorem exists_found_of_modesAfter {count number start index : Nat} {modes : List Nat}
    {kind : RuleKind} (hafter : modesAfter env count = some modes)
    (hhead : modes.head?.getD Lexer.root = number)
    (hmatch : ((env.lexer.mode number).rules.find env.text start 0).toOption.bind
      (fun result => result.1.map fun found => (found.kind, found.index)) = some (kind, index)) :
    ∃ state found rest, Reachable env .unknown state ∧ state.frames.map (·.mode) = modes ∧
      (state.top env).rules.find env.text start 0 = .ok (some found, rest) ∧
      found.kind = kind ∧ found.index = index := by
  obtain ⟨state, hstate, hmodes⟩ := exists_reachable_of_modesAfter hafter
  have htop : state.top env = env.lexer.mode number := by
    rw [State.top, ← List.head?_map, hmodes, hhead]
  rw [← htop] at hmatch
  obtain ⟨⟨found?, rest⟩, hfind, hfound⟩ := Option.bind_eq_some_iff.mp hmatch
  obtain ⟨found, rfl, hparts⟩ := Option.map_eq_some_iff.mp hfound
  obtain ⟨hkind, hindex⟩ := Prod.mk.inj hparts
  exact ⟨state, found, rest, hstate, hmodes, eq_ok_of_toOption hfind, hkind, hindex⟩

/-- Two single letters read as either of them when there is a bar between them. -/
theorem readsAsEither_letters :
    Regex.Tree.ReadsAsEither (Regex.startFlags false) "y" "z" :=
  ⟨(Regex.Tree.read (Regex.startFlags false) "y").toOption.getD default,
    (Regex.Tree.read (Regex.startFlags false) "z").toOption.getD default, by cbv, by cbv,
    ⟨by decide +kernel, by decide +kernel⟩, ⟨by decide +kernel, by decide +kernel⟩, by cbv⟩

/-- There is one way to take a text apart at its only bar. -/
theorem eq_of_append_bar {own outer first second : String} (hfirst : '|' ∉ first.toList)
    (hsecond : '|' ∉ second.toList) (h : own ++ "|" ++ outer = first ++ "|" ++ second) :
    own = first ∧ outer = second := by
  have hlist : own.toList ++ '|' :: outer.toList = first.toList ++ '|' :: second.toList := by
    have hsame := congrArg String.toList h
    simp only [String.toList_append, List.append_assoc] at hsame
    exact hsame
  obtain ⟨hown, -, houter⟩ := (List.append_cons_inj_of_notMem hfirst hsecond).mp hlist.symm
  exact ⟨String.toList_inj.mp hown.symm, String.toList_inj.mp houter.symm⟩

section

variable {lexer : Lexer}

theorem unhooked_of_forall (h : ∀ mode ∈ lexer.modes.toList, mode.onEnd.isNone = true)
    (number : Nat) : (lexer.mode number).onEnd = none :=
  Option.isNone_iff_eq_none.mp
    (Lexer.mode_of_forall (motive := fun mode => mode.onEnd.isNone = true) rfl h number)

theorem alone_of_forall (hcase : lexer.ignoreCase = false)
    (h : ∀ mode ∈ lexer.modes.toList, ∀ rule ∈ mode.rules.rules, rule.StandsAlone false)
    (number : Nat) :
    ∀ rule ∈ (lexer.mode number).rules.rules, rule.StandsAlone lexer.ignoreCase := by
  rw [hcase]
  exact Lexer.mode_of_forall (motive := fun mode => ∀ rule ∈ mode.rules.rules,
    rule.StandsAlone false) (List.forall_mem_nil _) h number

/-- The empty expression matches an empty text, and none of the end patterns does. -/
theorem written_of_forall (hcase : lexer.ignoreCase = false)
    (h : ∀ mode ∈ lexer.modes.toList,
      (mode.endRegex.all fun regex => (regex.matchAt? #[] 0).isNone) = true)
    (number : Nat) (regex : Regex) (hregex : (lexer.mode number).endRegex = some regex) :
    Regex.compile lexer.ignoreCase "" ≠ .ok regex := by
  intro hcompile
  have hempty : ((Regex.compile false "").toOption.all fun regex =>
      (regex.matchAt? #[] 0).isSome) = true := by decide +kernel
  have hmode := Lexer.mode_of_forall (motive := fun mode =>
    (mode.endRegex.all fun regex => (regex.matchAt? #[] 0).isNone) = true) rfl h number
  rw [hregex, Option.all_some, Option.isNone_iff_eq_none] at hmode
  rw [← hcase, hcompile, Except.toOption, Option.all_some, hmode] at hempty
  cases hempty

theorem either_of_forall {first second : String} (hfirst : '|' ∉ first.toList)
    (hsecond : '|' ∉ second.toList)
    (heither : Regex.Tree.ReadsAsEither (Regex.startFlags lexer.ignoreCase) first second)
    (h : ∀ mode ∈ lexer.modes.toList, mode.endsWithParent = true →
      mode.terminator = some (first ++ "|" ++ second))
    (number : Nat) (own outer : String) (hties : (lexer.mode number).endsWithParent = true)
    (hterminator : (lexer.mode number).terminator = some (own ++ "|" ++ outer)) :
    Regex.Tree.ReadsAsEither (Regex.startFlags lexer.ignoreCase) own outer := by
  have hmode := Lexer.mode_of_forall (motive := fun mode => mode.endsWithParent = true →
    mode.terminator = some (first ++ "|" ++ second)) (fun h => by cases h) h number
  obtain ⟨rfl, rfl⟩ := eq_of_append_bar hfirst hsecond
    (Option.some.inj (hterminator.symm.trans (hmode hties)))
  exact heither

theorem not_mem_contains_of_forall
    (h : ∀ number < lexer.modes.size, number ∉ (lexer.mode number).contains) (number : Nat) :
    number ∉ (lexer.mode number).contains := by
  by_cases hless : number < lexer.modes.size
  · exact h number hless
  · rw [Lexer.mode, Array.getD_eq_getD_getElem?, Array.getElem?_eq_none (by omega)]
    exact List.not_mem_nil

/-- The end rules of a lexer without modes that stand inside themselves say what its end patterns
say if two end patterns at most are joined with a bar, and these read as either of them. What is
asked of the lexer can be seen by looking through its modes once. -/
theorem endsAsWritten_of_forall {first second : String} (hfirst : '|' ∉ first.toList)
    (hsecond : '|' ∉ second.toList)
    (heither : Regex.Tree.ReadsAsEither (Regex.startFlags false) first second)
    (h : lexer.ignoreCase = false ∧
      (∀ mode ∈ lexer.modes.toList, (∀ rule ∈ mode.rules.rules, rule.StandsAlone false) ∧
        (mode.endRegex.all fun regex => (regex.matchAt? #[] 0).isNone) = true ∧
        (mode.endsWithParent = true → mode.terminator = some (first ++ "|" ++ second))) ∧
      ∀ number < lexer.modes.size, number ∉ (lexer.mode number).contains) :
    lexer.EndsAsWritten where
  alone := alone_of_forall h.1 fun mode hmode => (h.2.1 mode hmode).1
  written := written_of_forall h.1 fun mode hmode => (h.2.1 mode hmode).2.1
  either number own outer _ hmode hterminator _ _ := by
    rw [← h.1] at heither
    exact either_of_forall hfirst hsecond heither (fun mode hmode => (h.2.1 mode hmode).2.2)
      number own outer hmode hterminator
  apart number hcontains := absurd hcontains (not_mem_contains_of_forall h.2.2 number)

end

theorem endsAsMeant_tied : (tiedEnv "y" "z" "abz").lexer.EndsAsMeant := by
  have hwritten : (tiedEnv "y" "z" "abz").lexer.EndsAsWritten :=
    endsAsWritten_of_forall (by decide) (by decide) readsAsEither_letters (by decide +kernel)
  exact hwritten.asMeant (unhooked_of_forall (by decide +kernel))

theorem top_eq_of_modes {number : Nat} {modes : List Nat}
    (h : state.frames.map (·.mode) = number :: modes) : state.top env = env.lexer.mode number := by
  rw [State.top, ← List.head?_map, h]
  rfl

/-- At the end of the outer mode, the end rule of the inner one matches, and the outer mode is found
to end. -/
theorem Reachable.recognises_ends_tied :
    (tied "y" "z").compile = .ok (tiedEnv "y" "z" "abz").lexer ∧
    (tiedEnv "y" "z" "abz").lexer.EndsAsMeant ∧
    ∃ state found rest, Reachable (tiedEnv "y" "z" "abz") .unknown state ∧
      state.frames.map (·.mode) = [2, 1] ∧
      (state.top (tiedEnv "y" "z" "abz")).rules.find (tiedEnv "y" "z" "abz").text 2 0 =
        .ok (some found, rest) ∧
      found.kind = .finish ∧
      ∃ place, EndsFirst (tiedEnv "y" "z" "abz") found.index state.frames place := by
  obtain ⟨hok, hafter, hmatch⟩ : (tied "y" "z").compile.isOk = true ∧
      modesAfter (tiedEnv "y" "z" "abz") 2 = some [2, 1] ∧
      (((tiedEnv "y" "z" "abz").lexer.mode 2).rules.find
        (tiedEnv "y" "z" "abz").text 2 0).toOption.bind
          (fun result => result.1.map fun found => (found.kind, found.index)) =
            some (.finish, 2) := by decide +kernel
  have hcompile := tied_compiles "abz" hok
  obtain ⟨state, found, rest, hstate, hmodes, hfind, hkind, -⟩ :=
    exists_found_of_modesAfter hafter rfl hmatch
  obtain ⟨-, hfinds⟩ := hstate.recognises_ends (tied_shares "y" "z") hcompile endsAsMeant_tied
  obtain ⟨place, hplace, -⟩ := hfinds 2 0 found rest hfind hkind
  exact ⟨hcompile, endsAsMeant_tied, state, found, rest, hstate, hmodes, hfind, hkind, place,
    hplace⟩

/-- The first mode on the stack that ends is the outer one. -/
theorem endsFirst_of_modes (hmodes : state.frames.map (·.mode) = [2, 1])
    (hinner : endsAt (env.lexer.mode 2) env.text position = false)
    (hties : (env.lexer.mode 2).endsWithParent = true)
    (houter : endsAt (env.lexer.mode 1) env.text position = true) :
    ∃ frame : Frame, state.frames[1]? = some frame ∧ frame.mode = 1 ∧
      EndsFirst env position state.frames 1 := by
  obtain ⟨inner, others, hframes, hmode, hothers⟩ := List.map_eq_cons_iff.mp hmodes
  obtain ⟨outer, none, rfl, hmode', hnone⟩ := List.map_eq_cons_iff.mp hothers
  obtain rfl := List.map_eq_nil_iff.mp hnone
  rw [hframes]
  refine ⟨outer, rfl, hmode', .of_endingPlace? ?_⟩
  simp only [endingPlace?, hmode, hmode', hinner, hties, houter]
  rfl

/-- The end pattern of the outer mode refers to its first group by number. Behind the end pattern of
the inner mode this is the group of that one, so the end rule of the inner mode does not match where
the outer mode ends. -/
theorem Reachable.overlooks_end :
    (tied "(y)" "(x)\\1").compile = .ok (tiedEnv "(y)" "(x)\\1" "abxx!").lexer ∧
    (∀ number, ((tiedEnv "(y)" "(x)\\1" "abxx!").lexer.mode number).onEnd = none) ∧
    ∃ state, Reachable (tiedEnv "(y)" "(x)\\1" "abxx!") .unknown state ∧
      (state.top (tiedEnv "(y)" "(x)\\1" "abxx!")).endsWithParent = true ∧
      EndsFirst (tiedEnv "(y)" "(x)\\1" "abxx!") 2 state.frames 1 ∧
      (tiedEnv "(y)" "(x)\\1" "abxx!").lexer.matchesAlone
        (state.top (tiedEnv "(y)" "(x)\\1" "abxx!")).terminator
        (tiedEnv "(y)" "(x)\\1" "abxx!").text 2 = false := by
  -- the grammar is compiled once for all that is looked at
  obtain ⟨hok, hhooks, hafter, hties, hinner, houter, halone⟩ :
      (tied "(y)" "(x)\\1").compile.isOk = true ∧
      (∀ mode ∈ (tiedEnv "(y)" "(x)\\1" "abxx!").lexer.modes.toList, mode.onEnd.isNone = true) ∧
      modesAfter (tiedEnv "(y)" "(x)\\1" "abxx!") 2 = some [2, 1] ∧
      ((tiedEnv "(y)" "(x)\\1" "abxx!").lexer.mode 2).endsWithParent = true ∧
      endsAt ((tiedEnv "(y)" "(x)\\1" "abxx!").lexer.mode 2)
        (tiedEnv "(y)" "(x)\\1" "abxx!").text 2 = false ∧
      endsAt ((tiedEnv "(y)" "(x)\\1" "abxx!").lexer.mode 1)
        (tiedEnv "(y)" "(x)\\1" "abxx!").text 2 = true ∧
      (tiedEnv "(y)" "(x)\\1" "abxx!").lexer.matchesAlone
        ((tiedEnv "(y)" "(x)\\1" "abxx!").lexer.mode 2).terminator
        (tiedEnv "(y)" "(x)\\1" "abxx!").text 2 = false := by decide +kernel
  obtain ⟨state, hstate, hmodes⟩ := exists_reachable_of_modesAfter hafter
  have htop : state.top (tiedEnv "(y)" "(x)\\1" "abxx!") = _ := top_eq_of_modes hmodes
  obtain ⟨_, _, _, hfirst⟩ := endsFirst_of_modes hmodes hinner hties houter
  refine ⟨tied_compiles _ hok, unhooked_of_forall hhooks, state, hstate, ?_, hfirst, ?_⟩
  · rw [htop]
    exact hties
  · rw [htop]
    exact halone

end Highlighter.Scan
