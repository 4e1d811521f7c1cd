import Highlighter.Proofs.Regex.Alike
import Highlighter.Proofs.Regex.Ends

/-!
# Parts that are settled

In a settled part, a match takes as many characters as the sizes of the part say, stays within the
text and records the groups of the part. Where the size is fixed, all ends of the part are therefore
alike, and nothing is lost when only the first of them is kept.
-/

namespace Highlighter.Regex

variable {text : Array Char} {watched : Nat → Prop} {size size' : Nat} {isFixed isFixed' greedy : Bool}
  {numbers numbers' : List Nat} {state between after : State} {ends ends' : Ends}

/-! ## How far a match gets -/

/-- A match has taken at least `size` characters, exactly so many if its size is fixed. It ends within
the text unless it has taken none, and it has changed no groups but the given ones. -/
structure State.Advance (text : Array Char) (size : Nat) (isFixed : Bool) (numbers : List Nat)
    (state after : State) : Prop where
  least : state.position + size ≤ after.position
  fixed : isFixed = true → after.position = state.position + size
  within : after.position = state.position ∨ after.position ≤ text.size
  group? : ∀ number, number ∉ numbers → after.group? number = state.group? number

namespace State.Advance

theorem refl (state : State) (isFixed : Bool) (numbers : List Nat) :
    State.Advance text 0 isFixed numbers state state :=
  ⟨Nat.le_refl _, fun _ => rfl, .inl rfl, fun _ _ => rfl⟩

theorem mono (h : State.Advance text size isFixed numbers state after) (hsize : size' ≤ size)
    (hfixed : isFixed' = true → isFixed = true ∧ size' = size) (hnumbers : numbers ⊆ numbers') :
    State.Advance text size' isFixed' numbers' state after where
  least := by
    have hleast := h.least
    omega
  fixed htrue := by
    obtain ⟨hsame, rfl⟩ := hfixed htrue
    exact h.fixed hsame
  within := h.within
  group? number hnumber := h.group? number fun hmem => hnumber (hnumbers hmem)

theorem trans (h : State.Advance text size isFixed numbers state between)
    (h' : State.Advance text size' isFixed' numbers' between after) :
    State.Advance text (size + size') (isFixed && isFixed') (numbers ++ numbers') state after where
  least := by
    have hleast := h.least
    have hleast' := h'.least
    omega
  fixed htrue := by
    rw [Bool.and_eq_true] at htrue
    rw [h'.fixed htrue.2, h.fixed htrue.1, Nat.add_assoc]
  within := by
    rcases h'.within with hsame | hwithin
    · rw [hsame]
      exact h.within
    · exact .inr hwithin
  group? number hnumber := by
    rw [List.mem_append, not_or] at hnumber
    rw [h'.group? number hnumber.2, h.group? number hnumber.1]

theorem close (h : State.Advance text size isFixed numbers state after) (number : Nat) :
    State.Advance text size isFixed (number :: numbers) state
      (after.close number state.position) where
  least := h.least
  fixed := h.fixed
  within := h.within
  group? other hother := by
    rw [List.mem_cons, not_or] at hother
    rw [group?_close, if_neg hother.1, h.group? other hother.2]

/-- Two matches of a part of fixed size, none of whose groups is watched, end alike. -/
theorem alike {after' : State} (h : State.Advance text size true numbers state after)
    (h' : State.Advance text size true numbers state after')
    (hnumbers : ∀ number ∈ numbers, ¬ watched number) : State.Alike watched after after' where
  position := by rw [h'.fixed rfl, h.fixed rfl]
  group? number hwatched := by
    have hnot : number ∉ numbers := fun hmem => hnumbers number hmem hwatched
    rw [h'.group? number hnot, h.group? number hnot]

end State.Advance

namespace Ends

/-- Every match gets as far as the size says. -/
def Advance (text : Array Char) (size : Nat) (isFixed : Bool) (numbers : List Nat) (ends : Ends) :
    Prop :=
  ∀ state, ∀ after ∈ ends state, State.Advance text size isFixed numbers state after

namespace Advance

theorem mono (h : ends.Advance text size isFixed numbers) (hsize : size' ≤ size)
    (hfixed : isFixed' = true → isFixed = true ∧ size' = size) (hnumbers : numbers ⊆ numbers') :
    ends.Advance text size' isFixed' numbers' :=
  fun state after hafter => (h state after hafter).mono hsize hfixed hnumbers

theorem comp (h : ends.Advance text size isFixed numbers)
    (h' : ends'.Advance text size' isFixed' numbers') :
    Ends.Advance text (size + size') (isFixed && isFixed') (numbers ++ numbers')
      fun state => (ends state).flatMap ends' := by
  intro state after hafter
  obtain ⟨between, hbetween, hafter⟩ := List.mem_flatMap.mp hafter
  exact (h state between hbetween).trans (h' between after hafter)

theorem append (h : ends.Advance text size isFixed numbers)
    (h' : ends'.Advance text size isFixed numbers) :
    Ends.Advance text size isFixed numbers fun state => ends state ++ ends' state :=
  fun state after hafter =>
    (List.mem_append.mp hafter).elim (h state after) (h' state after)

theorem copies (h : ends.Advance text size isFixed numbers) (count : Nat) :
    Ends.Advance text (size * count) isFixed numbers (ends.copies count) := by
  induction count with
  | zero =>
    intro state after hafter
    cases List.mem_singleton.mp hafter
    exact .refl state isFixed numbers
  | succ count ih =>
    have hsize : size * (count + 1) = size + size * count := by
      rw [Nat.mul_succ, Nat.add_comm]
    exact (h.comp ih).mono (Nat.le_of_eq hsize) (fun hfixed => ⟨by simp [hfixed], hsize⟩) (by simp)

/-- A match that may be missing. -/
theorem prefer (h : ends.Advance text size isFixed numbers) (greedy : Bool) :
    Ends.Advance text 0 false numbers fun state => Ends.prefer greedy (ends state) [state] := by
  have hsome : ends.Advance text 0 false numbers :=
    h.mono (Nat.zero_le _) (fun hfalse => by cases hfalse) (List.Subset.refl _)
  have hnone : Ends.Advance text 0 false numbers fun state => [state] := by
    intro state after hafter
    cases List.mem_singleton.mp hafter
    exact .refl state false numbers
  cases greedy
  · exact hnone.append hsome
  · exact hsome.append hnone

theorem optionals (h : ends.Advance text size isFixed numbers) (greedy : Bool) (count : Nat) :
    Ends.Advance text 0 (decide (count = 0)) numbers (ends.optionals greedy count) := by
  induction count with
  | zero =>
    intro state after hafter
    cases List.mem_singleton.mp hafter
    exact .refl state _ numbers
  | succ count ih =>
    exact ((h.comp ih).prefer greedy).mono (Nat.le_refl _) (fun hfalse => by cases hfalse) (by simp)

theorem moving (h : ends.Advance text size isFixed numbers) (greedy : Bool) (count : Nat) :
    Ends.Advance text 0 false numbers (ends.moving greedy count) := by
  induction count with
  | zero =>
    intro state after hafter
    cases List.mem_singleton.mp hafter
    exact .refl state false numbers
  | succ count ih =>
    have hmoved : Ends.Advance text (size + 0) (isFixed && false) (numbers ++ numbers) fun state =>
        (ends state).flatMap fun between =>
          if state.position < between.position then ends.moving greedy count between else [] := by
      intro state after hafter
      obtain ⟨between, hbetween, hafter⟩ := List.mem_flatMap.mp hafter
      split at hafter
      · exact (h state between hbetween).trans (ih between after hafter)
      · cases hafter
    exact (hmoved.prefer greedy).mono (Nat.le_refl _) (fun hfalse => by cases hfalse) (by simp)

end Advance

end Ends

/-! ## Programs -/

namespace Program

variable {body : Program} {programs : List Program}

/-- Every match of a program gets as far as the size says. -/
def Advance (text : Array Char) (size : Nat) (isFixed : Bool) (numbers : List Nat)
    (program : Program) : Prop :=
  (program.ends text).Advance text size isFixed numbers

namespace Advance

theorem group (h : body.Advance text size isFixed numbers) (number : Nat) :
    (Program.group number body).Advance text size isFixed (number :: numbers) := by
  intro state after hafter
  obtain ⟨inner, hinner, rfl⟩ := List.mem_map.mp hafter
  exact (h state inner hinner).close number

theorem times (h : body.Advance text size isFixed numbers) (least extra : Nat) (greedy : Bool) :
    (Program.times body least extra greedy).Advance text (size * least)
      (isFixed && decide (extra = 0)) numbers :=
  ((Ends.Advance.copies h least).comp (Ends.Advance.optionals h greedy extra)).mono (Nat.le_refl _)
    (fun hfixed => ⟨hfixed, rfl⟩) (by simp)

theorem plus (h : body.Advance text size isFixed numbers) (greedy : Bool) :
    (Program.plus body greedy).Advance text size false numbers := by
  intro state after hafter
  obtain ⟨between, hbetween, hafter⟩ := List.mem_flatMap.mp hafter
  have hfirst := h state between hbetween
  split at hafter
  · exact (hfirst.trans (Ends.Advance.moving h greedy _ between after hafter)).mono (Nat.le_refl _)
      (fun hfalse => by cases hfalse) (by simp)
  · cases List.mem_singleton.mp hafter
    exact hfirst.mono (Nat.le_refl _) (fun hfalse => by cases hfalse) (List.Subset.refl _)

theorem alts (hsome : programs ≠ [])
    (h : ∀ program ∈ programs, program.Advance text size isFixed numbers) :
    (Program.alts programs).Advance text size isFixed numbers := by
  induction programs with
  | nil => exact absurd rfl hsome
  | cons program programs ih =>
    obtain ⟨hfirst, hrest⟩ := List.forall_mem_cons.mp h
    cases programs with
    | nil => exact hfirst
    | cons second programs => exact Ends.Advance.append hfirst (ih (List.cons_ne_nil _ _) hrest)

end Advance

/-! ## Repeated parts -/

/-- At the end of the text no match moves forward. -/
theorem Advance.stuck (h : body.Advance text size isFixed numbers)
    (hend : text.size ≤ state.position) (next : Ends) :
    ((body.ends text state).flatMap fun after =>
      if state.position < after.position then next after else []) = [] := by
  refine List.flatMap_eq_nil_iff.mpr fun after hafter => if_neg ?_
  have hwithin := (h state after hafter).within
  omega

/-- A bound on the number of matches is idle when it exceeds what is left of the text. -/
theorem Advance.moving_eq (h : body.Advance text size isFixed numbers) (greedy : Bool)
    {count count' : Nat} (hcount : text.size ≤ state.position + count)
    (hcount' : text.size ≤ state.position + count') :
    Ends.moving (body.ends text) greedy count state =
      Ends.moving (body.ends text) greedy count' state := by
  induction count generalizing state count' with
  | zero =>
    cases count' with
    | zero => rfl
    | succ count' =>
      rw [Ends.moving, Ends.moving, h.stuck hcount]
      cases greedy <;> rfl
  | succ count ih =>
    cases count' with
    | zero =>
      rw [Ends.moving, Ends.moving, h.stuck hcount']
      cases greedy <;> rfl
    | succ count' =>
      rw [Ends.moving, Ends.moving]
      congr 1
      refine List.flatMap_congr fun after _ => ?_
      split
      · exact ih (by omega) (by omega)
      · rfl

/-! ## Settled parts of fixed size -/

/-- Where all ends are alike, nothing is found beyond the first of them. -/
theorem findSome?_of_alike {next next' : Continuation}
    (hnext : Continuation.Alike watched next next') {first : Option State}
    {found : List State} (hfirst : Option.Rel (State.Alike watched) first found.head?)
    (hfound : ∀ after ∈ found, ∀ other ∈ found, State.Alike watched after other) :
    Option.Rel (State.Alike watched) (first.bind next) (found.findSome? next') := by
  cases found with
  | nil =>
    cases hfirst
    exact .none
  | cons after' others =>
    cases hfirst with
    | @some after _ hafter =>
      have hrel := hnext after after' hafter
      rw [Option.bind_some, List.findSome?_cons]
      cases hresult' : next' after' with
      | some last =>
        rw [hresult'] at hrel
        exact hrel
      | none =>
        rw [hresult'] at hrel
        have hothers : others.findSome? next' = none := by
          rw [List.findSome?_eq_none_iff]
          intro other hother
          have hagain := hnext after other (hafter.trans
            (hfound after' List.mem_cons_self other (List.mem_cons_of_mem _ hother)))
          cases hresult : next after with
          | some last =>
            rw [hresult] at hrel
            cases hrel
          | none =>
            rw [hresult] at hagain
            cases hother' : next' other with
            | some last =>
              rw [hother'] at hagain
              cases hagain
            | none => rfl
        rw [hothers]
        exact hrel

/-- A settled part of fixed size, none of whose groups is watched, runs as if it were not settled. -/
theorem Alike.of_settled (hrefers : body.RefersTo watched)
    (hadvance : body.Advance text size true numbers)
    (hnumbers : ∀ number ∈ numbers, ¬ watched number) {first last : Nat}
    (hforgotten : ∀ number, first ≤ number → number < last → ¬ watched number) :
    Program.Alike text watched (.settled first last body) body := by
  intro next next' hnext state state' hstate
  have hforget : State.Alike watched (state.forget first last) state := by
    refine ⟨rfl, fun number hwatched => ?_⟩
    rw [State.group?_forget, if_neg fun hrange => hforgotten number hrange.1 hrange.2 hwatched]
  have hfirst := Step.Alike.alone (hrefers.alike text) _ _ (hforget.trans hstate)
  have hsettled : (Program.settled first last body).run text next state =
      (body.run text some (state.forget first last)).bind next := by
    rw [run]
    cases body.run text some (state.forget first last) <;> rfl
  rw [hsettled, run_lists text body next' state']
  rw [run_some text body state'] at hfirst
  exact findSome?_of_alike hnext hfirst fun after hafter other hother =>
    (hadvance state' after hafter).alike (hadvance state' other hother) hnumbers

end Program

end Highlighter.Regex
