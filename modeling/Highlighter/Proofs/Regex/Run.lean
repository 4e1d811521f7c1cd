import Highlighter.Proofs.Regex.Shift
import Highlighter.Regex.Match

/-!
# Runs with other group numbers

A program whose groups have been given higher numbers runs as it did before: it reaches the same
positions in the same order, and every group is known under its new number. The two runs are
compared through what they hand on: two steps agree when they make agreeing continuations out of
agreeing continuations.
-/

namespace Highlighter.Regex

/-- The programs that record no groups but those from number 1 up to a bound. -/
def Program.GroupsUpTo (bound : Nat) : Program → Prop
  | .empty | .char _ | .anchor _ | .backref _ => True
  | .seq first second | .alt first second => first.GroupsUpTo bound ∧ second.GroupsUpTo bound
  | .group number body => (0 < number ∧ number ≤ bound) ∧ body.GroupsUpTo bound
  | .times body _ _ _ | .more body _ | .plus body _ | .ahead _ body | .behind _ _ body
  | .atomic body | .settled _ _ body => body.GroupsUpTo bound

namespace State

theorem group?_close (state : State) (number start other : Nat) :
    (state.close number start).group? other =
      if other = number then some ⟨start, state.position⟩ else state.group? other := by
  simp only [group?, close, List.lookup_cons]
  by_cases heq : other = number
  · simp [heq]
  · rw [beq_eq_false_iff_ne.mpr heq, if_neg heq]

theorem group?_forget (state : State) (first last number : Nat) :
    (state.forget first last).group? number =
      if first ≤ number ∧ number < last then none else state.group? number := by
  have hlookup : ∀ numbers : List Nat,
      ((numbers.map fun number => (number, (none : Option Span))) ++ state.groups).lookup number =
        if number ∈ numbers then some none else state.groups.lookup number := by
    intro numbers
    induction numbers with
    | nil => simp
    | cons other numbers ih =>
      simp only [List.map_cons, List.cons_append, List.lookup_cons, ih, List.mem_cons]
      by_cases heq : number = other
      · simp [heq]
      · simp only [beq_eq_false_iff_ne.mpr heq, heq, false_or]
  have hmem : number ∈ List.range' first (last - first) ↔ first ≤ number ∧ number < last := by
    rw [List.mem_range'_1]
    omega
  simp only [group?, forget, hlookup, hmem]
  split <;> rfl

/-- Two states have got equally far. The second knows the groups of the first under numbers moved
up by `offset` and no others; the first knows no groups beyond `bound`. -/
structure Moved (offset bound : Nat) (state state' : State) : Prop where
  position : state'.position = state.position
  moved : ∀ number, state'.group? (number + offset) = state.group? number
  below : ∀ number, number ≤ offset → state'.group? number = none
  beyond : ∀ number, bound < number → state.group? number = none

namespace Moved

variable {offset bound : Nat} {state state' : State}

/-- A search starts without groups. -/
theorem start (position : Nat) :
    Moved offset bound { position := position } { position := position } :=
  ⟨rfl, fun _ => rfl, fun _ _ => rfl, fun _ _ => rfl⟩

theorem moveTo (h : Moved offset bound state state') (position : Nat) :
    Moved offset bound { state with position := position } { state' with position := position } :=
  ⟨rfl, h.moved, h.below, h.beyond⟩

theorem close (h : Moved offset bound state state') {number : Nat}
    (hnumber : 0 < number ∧ number ≤ bound) (start : Nat) :
    Moved offset bound (state.close number start) (state'.close (number + offset) start) where
  position := h.position
  moved other := by
    have hiff : other + offset = number + offset ↔ other = number := by omega
    simp only [group?_close, h.moved, h.position, hiff]
  below other hother := by
    have hne : other ≠ number + offset := by omega
    simp only [group?_close, h.below other hother, if_neg hne]
  beyond other hother := by
    have hne : other ≠ number := by omega
    simp only [group?_close, h.beyond other hother, if_neg hne]

theorem forget (h : Moved offset bound state state') (first last : Nat) :
    Moved offset bound (state.forget first last)
      (state'.forget (first + offset) (last + offset)) where
  position := h.position
  moved other := by
    have hiff : (first + offset ≤ other + offset ∧ other + offset < last + offset) ↔
        (first ≤ other ∧ other < last) := by omega
    simp only [group?_forget, h.moved, hiff]
  below other hother := by
    simp only [group?_forget, h.below other hother, ite_self]
  beyond other hother := by
    simp only [group?_forget, h.beyond other hother, ite_self]

/-- Forgetting no groups changes nothing. -/
theorem forget_self (h : Moved offset bound state state') (first : Nat) :
    Moved offset bound (state.forget first first) (state'.forget first first) := by
  have hself : ∀ state : State, state.forget first first = state := by
    intro state
    simp [State.forget]
  rw [hself, hself]
  exact h

end Moved

end State

/-- The groups of a match, apart from the whole match, are those of the state it ends in. -/
theorem Match.group?_of_state (start : Nat) (after : State) {number : Nat}
    (hpositive : 0 < number) :
    (⟨⟨start, after.position⟩, after.groups⟩ : Match).group? number = after.group? number := by
  rw [Match.group?, if_neg (Nat.ne_of_gt hpositive)]
  rfl

/-- Two continuations agree: from states that have got equally far, both fail or both give results
that are related. -/
def Continuation.Agrees (offset bound : Nat) (related : State → State → Prop)
    (next next' : Continuation) : Prop :=
  ∀ state state' : State, state.Moved offset bound state' →
    Option.Rel related (next state) (next' state')

/-- Two steps agree: they make agreeing continuations out of agreeing continuations. -/
def Step.Agrees (offset bound : Nat) (step step' : Step) : Prop :=
  ∀ (related : State → State → Prop) (next next' : Continuation),
    Continuation.Agrees offset bound related next next' →
      Continuation.Agrees offset bound related (step next) (step' next')

variable {offset bound : Nat}

theorem prefer_agrees {related : State → State → Prop} {greedy : Bool}
    {first second first' second' : Unit → Option State}
    (hfirst : Option.Rel related (first ()) (first' ()))
    (hsecond : Option.Rel related (second ()) (second' ())) :
    Option.Rel related (prefer greedy first second) (prefer greedy first' second') := by
  cases greedy
  · simp only [prefer, Bool.false_eq_true, if_false]
    generalize second () = result at hsecond ⊢
    generalize second' () = result' at hsecond ⊢
    cases hsecond with
    | some hresult => exact .some hresult
    | none => exact hfirst
  · simp only [prefer, if_true]
    generalize first () = result at hfirst ⊢
    generalize first' () = result' at hfirst ⊢
    cases hfirst with
    | some hresult => exact .some hresult
    | none => exact hsecond

namespace Step.Agrees

variable {related : State → State → Prop} {step step' : Step} {next next' : Continuation}

theorem copies (hstep : Step.Agrees offset bound step step')
    (hnext : Continuation.Agrees offset bound related next next') (count : Nat) :
    Continuation.Agrees offset bound related (copies step next count)
      (copies step' next' count) := by
  induction count with
  | zero => exact hnext
  | succ count ih => exact hstep _ _ _ ih

theorem optionals (hstep : Step.Agrees offset bound step step') (greedy : Bool)
    (hnext : Continuation.Agrees offset bound related next next') (count : Nat) :
    Continuation.Agrees offset bound related (optionals step greedy next count)
      (optionals step' greedy next' count) := by
  induction count with
  | zero => exact hnext
  | succ count ih =>
    intro state state' hstate
    unfold Regex.optionals
    apply prefer_agrees
    · exact hstep _ _ _ ih _ _ hstate
    · exact hnext _ _ hstate

theorem moving (hstep : Step.Agrees offset bound step step') (greedy : Bool)
    (hnext : Continuation.Agrees offset bound related next next') (count : Nat) :
    Continuation.Agrees offset bound related (moving step greedy next count)
      (moving step' greedy next' count) := by
  induction count with
  | zero => exact hnext
  | succ count ih =>
    intro state state' hstate
    unfold Regex.moving
    apply prefer_agrees
    · refine hstep _ _ _ (fun after after' hafter => ?_) _ _ hstate
      simp only [hstate.position, hafter.position]
      split
      · exact ih _ _ hafter
      · exact .none
    · exact hnext _ _ hstate

/-- Steps that agree also agree when they run on their own. -/
theorem alone (hstep : Step.Agrees offset bound step step') :
    Continuation.Agrees offset bound (State.Moved offset bound) (step some) (step' some) :=
  hstep _ _ _ fun _ _ hstate => .some hstate

end Step.Agrees

theorem Program.run_shift (text : Array Char) (program : Program)
    (hgroups : program.GroupsUpTo bound) :
    Step.Agrees offset bound (program.run text) ((program.shift offset).run text) := by
  induction program with
  | empty => exact fun _ _ _ hnext => hnext
  | char set =>
    intro related next next' hnext state state' hstate
    simp only [shift, run, hstate.position]
    split
    · split
      · exact hnext _ _ (hstate.moveTo _)
      · exact .none
    · exact .none
  | anchor position =>
    intro related next next' hnext state state' hstate
    simp only [shift, run, hstate.position]
    split
    · exact hnext _ _ hstate
    · exact .none
  | seq first second ihfirst ihsecond =>
    intro related next next' hnext state state' hstate
    exact ihfirst hgroups.1 _ _ _ (ihsecond hgroups.2 _ _ _ hnext) _ _ hstate
  | alt first second ihfirst ihsecond =>
    intro related next next' hnext state state' hstate
    exact prefer_agrees (ihfirst hgroups.1 _ _ _ hnext _ _ hstate)
      (ihsecond hgroups.2 _ _ _ hnext _ _ hstate)
  | group number body ih =>
    intro related next next' hnext state state' hstate
    simp only [shift, run, hstate.position]
    exact ih hgroups.2 _ _ _ (fun _ _ hafter => hnext _ _ (hafter.close hgroups.1 _)) _ _ hstate
  | times body least extra greedy ih =>
    intro related next next' hnext state state' hstate
    exact (ih hgroups).copies ((ih hgroups).optionals greedy hnext extra) least _ _ hstate
  | more body greedy ih =>
    intro related next next' hnext state state' hstate
    exact (ih hgroups).moving greedy hnext _ _ _ hstate
  | plus body greedy ih =>
    intro related next next' hnext state state' hstate
    refine ih hgroups _ _ _ ?_ _ _ hstate
    intro after after' hafter
    simp only [hstate.position, hafter.position]
    split
    · exact (ih hgroups).moving greedy hnext _ _ _ hafter
    · exact hnext _ _ hafter
  | ahead negated body ih =>
    intro related next next' hnext state state' hstate
    simp only [shift, run, hstate.position]
    cases negated
    · exact ih hgroups _ _ _ (fun _ _ hafter => hnext _ _ (hafter.moveTo _)) _ _ hstate
    · have halone := (ih hgroups).alone _ _ hstate
      simp only [if_true]
      generalize body.run text some state = result at halone ⊢
      generalize (body.shift offset).run text some state' = result' at halone ⊢
      cases halone with
      | some _ => exact .none
      | none => exact hnext _ _ hstate
  | behind length negated body ih =>
    intro related next next' hnext state state' hstate
    simp only [shift, run, hstate.position]
    split
    · split
      · exact hnext _ _ hstate
      · exact .none
    · have hback := hstate.moveTo (state.position - length)
      cases negated
      · exact ih hgroups _ _ _ (fun _ _ hafter => hnext _ _ (hafter.moveTo _)) _ _ hback
      · have halone := (ih hgroups).alone _ _ hback
        simp only [if_true]
        generalize body.run text some _ = result at halone ⊢
        generalize (body.shift offset).run text some _ = result' at halone ⊢
        cases halone with
        | some _ => exact .none
        | none => exact hnext _ _ hstate
  | atomic body ih =>
    intro related next next' hnext state state' hstate
    have halone := (ih hgroups).alone _ _ hstate
    simp only [shift, run]
    generalize body.run text some state = result at halone ⊢
    generalize (body.shift offset).run text some state' = result' at halone ⊢
    cases halone with
    | some hafter => exact hnext _ _ hafter
    | none => exact .none
  | settled first last body ih =>
    intro related next next' hnext state state' hstate
    by_cases hempty : first = last
    · have halone := (ih hgroups).alone _ _ (hstate.forget_self last)
      simp only [shift, hempty, if_true, run]
      generalize body.run text some _ = result at halone ⊢
      generalize (body.shift offset).run text some _ = result' at halone ⊢
      cases halone with
      | some hafter => exact hnext _ _ hafter
      | none => exact .none
    · have halone := (ih hgroups).alone _ _ (hstate.forget first last)
      simp only [shift, if_neg hempty, run]
      generalize body.run text some _ = result at halone ⊢
      generalize (body.shift offset).run text some _ = result' at halone ⊢
      cases halone with
      | some hafter => exact hnext _ _ hafter
      | none => exact .none
  | backref number =>
    intro related next next' hnext state state' hstate
    simp only [shift, run, hstate.moved, hstate.position]
    split
    · split
      · exact hnext _ _ (hstate.moveTo _)
      · exact .none
    · exact .none

/-- At the end of a program, it does not matter that a match is settled. -/
theorem Program.run_settled {text : Array Char} (first last : Nat) (body : Program)
    (state : State) : (settled first last body).run text some state =
      body.run text some (state.forget first last) := by
  rw [run]
  cases body.run text some (state.forget first last) <;> rfl

end Highlighter.Regex
