import Highlighter.Regex.Match

/-!
# Matches lie within the text

A program hands its continuation only positions that lie at or after the position it started from
and not beyond the end of the text, and every group it records is a stretch of the text. It follows
that a search never looks back: what it finds starts where the search starts or later, and the
matches of one search through a text follow one another.
-/

namespace Highlighter.Regex

/-- A stretch of a text with `size` characters. -/
structure Span.Within (span : Span) (size : Nat) : Prop where
  start_le : span.start ≤ span.stop
  stop_le : span.stop ≤ size

/-- A state that a program may reach on a text with `size` characters. -/
structure State.Within (state : State) (size : Nat) : Prop where
  position_le : state.position ≤ size
  groups : ∀ number span, (number, some span) ∈ state.groups → span.Within size

/-- Whatever the step achieves, it achieves by handing on a state further on in the text. -/
def Step.Reaches (size : Nat) (step : Step) : Prop :=
  ∀ next state result, step next state = some result → state.Within size →
    ∃ reached : State, next reached = some result ∧ reached.Within size ∧
      state.position ≤ reached.position

theorem State.Within.close {state : State} {size number start : Nat} (hstate : state.Within size)
    (hstart : start ≤ state.position) : (state.close number start).Within size where
  position_le := hstate.position_le
  groups n span hmem := by
    simp only [State.close, List.mem_cons, Prod.mk.injEq, Option.some.injEq] at hmem
    rcases hmem with ⟨_, rfl⟩ | hmem
    · exact ⟨hstart, hstate.position_le⟩
    · exact hstate.groups n span hmem

theorem State.Within.forget {state : State} {size first last : Nat} (hstate : state.Within size) :
    (state.forget first last).Within size where
  position_le := hstate.position_le
  groups n span hmem := by
    simp only [State.forget, List.mem_append, List.mem_map, Prod.mk.injEq, reduceCtorEq, and_false,
      exists_false, false_or] at hmem
    exact hstate.groups n span hmem

theorem State.Within.moveTo {state : State} {size position : Nat} (hstate : state.Within size)
    (hposition : position ≤ size) : ({ state with position := position } : State).Within size :=
  ⟨hposition, hstate.groups⟩

theorem State.Within.group? {state : State} {size number : Nat} {span : Span}
    (hstate : state.Within size) (hgroup : state.group? number = some span) : span.Within size := by
  simp only [State.group?, Option.join_eq_some_iff] at hgroup
  obtain ⟨_, _, happend, _⟩ := List.lookup_eq_some_iff.mp hgroup
  apply hstate.groups number span
  rw [happend]
  simp

/-- One of two attempts has given the result. -/
theorem prefer_eq_some {greedy : Bool} {first second : Unit → Option State} {result : State}
    (h : prefer greedy first second = some result) :
    first () = some result ∨ second () = some result := by
  cases greedy
  · simp only [prefer, Bool.false_eq_true, if_false] at h
    split at h
    · next heq => exact .inr (heq.trans h)
    · exact .inl h
  · simp only [prefer, if_true] at h
    split at h
    · next heq => exact .inl (heq.trans h)
    · exact .inr h

namespace Step.Reaches

variable {size : Nat} {step : Step}

/-- What follows a step may itself be a step that moves on in the text. -/
theorem trans (hstep : step.Reaches size) {next inner : Continuation} {state result : State}
    (hrun : step inner state = some result) (hstate : state.Within size)
    (hinner : ∀ reached : State, inner reached = some result → reached.Within size →
      ∃ last : State, next last = some result ∧ last.Within size ∧
        reached.position ≤ last.position) :
    ∃ last : State, next last = some result ∧ last.Within size ∧
      state.position ≤ last.position := by
  obtain ⟨reached, hreached, hwithin, hle⟩ := hstep _ _ _ hrun hstate
  obtain ⟨last, hlast, hlastWithin, hle'⟩ := hinner reached hreached hwithin
  exact ⟨last, hlast, hlastWithin, by omega⟩

theorem copies (hstep : step.Reaches size) (count : Nat) :
    Step.Reaches size (fun next => copies step next count) := by
  induction count with
  | zero => exact fun _ state result hrun hstate => ⟨state, hrun, hstate, Nat.le_refl _⟩
  | succ count ih =>
    intro next state result hrun hstate
    exact hstep.trans hrun hstate fun reached hreached hwithin => ih _ _ _ hreached hwithin

theorem optionals (hstep : step.Reaches size) (greedy : Bool) (count : Nat) :
    Step.Reaches size (fun next => optionals step greedy next count) := by
  induction count with
  | zero => exact fun _ state result hrun hstate => ⟨state, hrun, hstate, Nat.le_refl _⟩
  | succ count ih =>
    intro next state result hrun hstate
    simp only [Regex.optionals] at hrun
    rcases prefer_eq_some hrun with hmore | hdone
    · exact hstep.trans hmore hstate fun reached hreached hwithin => ih _ _ _ hreached hwithin
    · exact ⟨state, hdone, hstate, Nat.le_refl _⟩

theorem moving (hstep : step.Reaches size) (greedy : Bool) (count : Nat) :
    Step.Reaches size (fun next => moving step greedy next count) := by
  induction count with
  | zero => exact fun _ state result hrun hstate => ⟨state, hrun, hstate, Nat.le_refl _⟩
  | succ count ih =>
    intro next state result hrun hstate
    simp only [Regex.moving] at hrun
    rcases prefer_eq_some hrun with hmore | hdone
    · refine hstep.trans hmore hstate fun reached hreached hwithin => ?_
      split at hreached
      · exact ih _ _ _ hreached hwithin
      · cases hreached
    · exact ⟨state, hdone, hstate, Nat.le_refl _⟩

/-- The result of a step that runs on its own is a state further on in the text. -/
theorem alone (hstep : step.Reaches size) {state result : State}
    (hrun : step some state = some result) (hstate : state.Within size) :
    result.Within size ∧ state.position ≤ result.position := by
  obtain ⟨reached, hreached, hwithin, hle⟩ := hstep _ _ _ hrun hstate
  cases hreached
  exact ⟨hwithin, hle⟩

end Step.Reaches

theorem repeatsAt_le {text : Array Char} {span : Span} {position : Nat}
    (hspan : span.Within text.size) (hposition : position ≤ text.size)
    (hrepeats : repeatsAt text span position = true) :
    position + (span.stop - span.start) ≤ text.size := by
  have hsize := congrArg Array.size (beq_iff_eq.mp hrepeats)
  simp only [Array.size_extract] at hsize
  have := hspan.stop_le
  omega

theorem Program.run_reaches (program : Program) (text : Array Char) :
    Step.Reaches text.size (program.run text) := by
  induction program with
  | empty => exact fun _ state _ hrun hstate => ⟨state, hrun, hstate, Nat.le_refl _⟩
  | char set =>
    intro next state result hrun hstate
    simp only [Program.run] at hrun
    split at hrun
    · next c hc =>
      split at hrun
      · have hlt := (Array.getElem?_eq_some_iff.mp hc).1
        exact ⟨_, hrun, hstate.moveTo hlt, Nat.le_succ _⟩
      · cases hrun
    · cases hrun
  | anchor position =>
    intro next state result hrun hstate
    simp only [Program.run] at hrun
    split at hrun
    · exact ⟨state, hrun, hstate, Nat.le_refl _⟩
    · cases hrun
  | seq first second ihfirst ihsecond =>
    intro next state result hrun hstate
    exact ihfirst.trans hrun hstate fun reached hreached hwithin =>
      ihsecond _ _ _ hreached hwithin
  | alt first second ihfirst ihsecond =>
    intro next state result hrun hstate
    rcases prefer_eq_some hrun with hfirst | hsecond
    · exact ihfirst _ _ _ hfirst hstate
    · exact ihsecond _ _ _ hsecond hstate
  | group number body ih =>
    intro next state result hrun hstate
    obtain ⟨reached, hreached, hwithin, hle⟩ := ih _ _ _ hrun hstate
    exact ⟨_, hreached, hwithin.close hle, hle⟩
  | times body least extra greedy ih =>
    intro next state result hrun hstate
    exact (ih.copies least).trans hrun hstate fun reached hreached hwithin =>
      ih.optionals greedy extra _ _ _ hreached hwithin
  | more body greedy ih => exact ih.moving greedy _
  | plus body greedy ih =>
    intro next state result hrun hstate
    refine ih.trans hrun hstate fun reached hreached hwithin => ?_
    split at hreached
    · exact ih.moving greedy _ _ _ _ hreached hwithin
    · exact ⟨reached, hreached, hwithin, Nat.le_refl _⟩
  | ahead negated body ih =>
    intro next state result hrun hstate
    cases negated
    · obtain ⟨reached, hreached, hwithin, _⟩ := ih _ _ _ hrun hstate
      exact ⟨_, hreached, hwithin.moveTo hstate.position_le, Nat.le_refl _⟩
    · simp only [Program.run, if_true] at hrun
      split at hrun
      · cases hrun
      · exact ⟨state, hrun, hstate, Nat.le_refl _⟩
  | behind length negated body ih =>
    intro next state result hrun hstate
    have hback : ({ state with position := state.position - length } : State).Within text.size :=
      hstate.moveTo (by have := hstate.position_le; omega)
    simp only [Program.run] at hrun
    cases negated
    · simp only [Bool.false_eq_true, if_false] at hrun
      split at hrun
      · cases hrun
      · obtain ⟨reached, hreached, hwithin, _⟩ := ih _ _ _ hrun hback
        exact ⟨_, hreached, hwithin.moveTo hstate.position_le, Nat.le_refl _⟩
    · simp only [if_true] at hrun
      split at hrun
      · exact ⟨state, hrun, hstate, Nat.le_refl _⟩
      · split at hrun
        · cases hrun
        · exact ⟨state, hrun, hstate, Nat.le_refl _⟩
  | atomic body ih =>
    intro next state result hrun hstate
    simp only [Program.run] at hrun
    split at hrun
    · next after hafter =>
      obtain ⟨hwithin, hle⟩ := ih.alone hafter hstate
      exact ⟨after, hrun, hwithin, hle⟩
    · cases hrun
  | settled first last body ih =>
    intro next state result hrun hstate
    simp only [Program.run] at hrun
    split at hrun
    · next after hafter =>
      obtain ⟨hwithin, hle⟩ := ih.alone hafter hstate.forget
      exact ⟨after, hrun, hwithin, hle⟩
    · cases hrun
  | backref number =>
    intro next state result hrun hstate
    simp only [Program.run] at hrun
    split at hrun
    · next span hspan =>
      split at hrun
      · next hrepeats =>
        have hle := repeatsAt_le (hstate.group? hspan) hstate.position_le hrepeats
        exact ⟨_, hrun, hstate.moveTo hle, Nat.le_add_right _ _⟩
      · cases hrun
    · cases hrun

end Highlighter.Regex

namespace Highlighter.Regex

variable {regex : Regex} {text : Array Char}

/-- A match whose stretch and groups are stretches of a text. -/
structure Match.Within (found : Match) (size : Nat) : Prop where
  span : found.span.Within size
  groups : ∀ number span, (number, some span) ∈ found.groups → span.Within size

theorem Match.Within.group? {found : Match} {size number : Nat} {span : Span}
    (hfound : found.Within size) (hgroup : found.group? number = some span) :
    span.Within size := by
  unfold Match.group? at hgroup
  split at hgroup
  · cases hgroup
    exact hfound.span
  · simp only [Option.join_eq_some_iff] at hgroup
    obtain ⟨_, _, happend, _⟩ := List.lookup_eq_some_iff.mp hgroup
    apply hfound.groups number span
    rw [happend]
    simp

theorem matchAt?_within {start : Nat} {found : Match} (hstart : start ≤ text.size)
    (hfound : regex.matchAt? text start = some found) :
    found.span.start = start ∧ found.Within text.size := by
  simp only [matchAt?, Option.map_eq_some_iff] at hfound
  obtain ⟨reached, hrun, rfl⟩ := hfound
  have hstate : ({ position := start } : State).Within text.size :=
    ⟨hstart, fun _ _ hmem => by cases hmem⟩
  obtain ⟨hwithin, hle⟩ := (regex.program.run_reaches text).alone hrun hstate
  exact ⟨rfl, ⟨hle, hwithin.position_le⟩, hwithin.groups⟩

/-- A search tries the positions in turn: it finds the first match there is. -/
theorem findWithin_eq_some_iff {count start : Nat} {found : Match} :
    regex.findWithin text count start = some found ↔
      ∃ position, start ≤ position ∧ position < start + count ∧
        regex.matchAt? text position = some found ∧
        ∀ earlier, start ≤ earlier → earlier < position → regex.matchAt? text earlier = none := by
  induction count generalizing start with
  | zero =>
    simp only [findWithin, reduceCtorEq, false_iff]
    rintro ⟨position, _, _, _⟩
    omega
  | succ count ih =>
    simp only [findWithin]
    split
    · next first hfirst =>
      constructor
      · intro h
        cases h
        exact ⟨start, Nat.le_refl _, by omega, hfirst, fun _ _ _ => by omega⟩
      · rintro ⟨position, hle, _, hmatch, hnone⟩
        rcases Nat.eq_or_lt_of_le hle with rfl | hlt
        · exact hfirst.symm.trans hmatch
        · rw [hnone start (Nat.le_refl _) hlt] at hfirst
          cases hfirst
    · next hfirst =>
      rw [ih]
      constructor
      · rintro ⟨position, hle, hlt, hmatch, hnone⟩
        refine ⟨position, by omega, by omega, hmatch, fun earlier hearlier hbefore => ?_⟩
        rcases Nat.eq_or_lt_of_le hearlier with rfl | hlater
        · exact hfirst
        · exact hnone earlier hlater hbefore
      · rintro ⟨position, hle, hlt, hmatch, hnone⟩
        rcases Nat.eq_or_lt_of_le hle with rfl | hlater
        · rw [hfirst] at hmatch
          cases hmatch
        · exact ⟨position, hlater, by omega, hmatch, fun earlier _ => hnone earlier (by omega)⟩

theorem findWithin_eq_none_iff {count start : Nat} :
    regex.findWithin text count start = none ↔
      ∀ position, start ≤ position → position < start + count →
        regex.matchAt? text position = none := by
  induction count generalizing start with
  | zero => exact ⟨fun _ position hle hless => by omega, fun _ => rfl⟩
  | succ count ih =>
    simp only [findWithin]
    split
    · next first hfirst =>
      simp only [reduceCtorEq, false_iff]
      intro h
      rw [h start (Nat.le_refl _) (by omega)] at hfirst
      cases hfirst
    · next hfirst =>
      rw [ih]
      constructor
      · intro h position hle hless
        rcases Nat.eq_or_lt_of_le hle with rfl | hlater
        · exact hfirst
        · exact h position hlater (by omega)
      · exact fun h position hle hless => h position (by omega) (by omega)

/-- What a search finds starts at its start or later, and lies within the text. -/
theorem find?_within {start : Nat} {found : Match} (hfound : regex.find? text start = some found) :
    start ≤ found.span.start ∧ found.Within text.size := by
  obtain ⟨position, hle, hlt, hmatch, _⟩ := findWithin_eq_some_iff.mp hfound
  obtain ⟨hstart, hwithin⟩ := matchAt?_within (by omega) hmatch
  exact ⟨by omega, hwithin⟩

/-- Stretches of a text that follow one another from a position on. -/
def Consecutive (size : Nat) : (start : Nat) → List Span → Prop
  | _, [] => True
  | start, span :: spans => start ≤ span.start ∧ span.Within size ∧ Consecutive size span.stop spans

theorem Consecutive.mono {size start earlier : Nat} {spans : List Span}
    (h : Consecutive size start spans) (hle : earlier ≤ start) :
    Consecutive size earlier spans := by
  cases spans with
  | nil => trivial
  | cons span spans => exact ⟨Nat.le_trans hle h.1, h.2⟩

theorem findAllFrom_consecutive (count start : Nat) (last : Option Nat) :
    Consecutive text.size start (regex.findAllFrom text count start last) := by
  induction count generalizing start last with
  | zero => trivial
  | succ count ih =>
    simp only [findAllFrom]
    split
    · trivial
    · next found hfound =>
      obtain ⟨hle, hwithin⟩ := find?_within hfound
      have hspan := hwithin.span
      have hstop := hspan.start_le
      split
      · split
        · exact (ih _ _).mono (by omega)
        · exact ⟨hle, hspan, (ih _ _).mono (by omega)⟩
      · exact ⟨hle, hspan, ih _ _⟩

/-- All matches of an expression follow one another. -/
theorem findAll_consecutive (regex : Regex) (text : Array Char) :
    Consecutive text.size 0 (regex.findAll text) :=
  findAllFrom_consecutive _ _ _

end Highlighter.Regex
