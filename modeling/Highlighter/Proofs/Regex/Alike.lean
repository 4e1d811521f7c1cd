import Mathlib.Data.List.Forall2
import Highlighter.Proofs.Regex.Plan

/-!
# Runs that watch some groups

Some groups are watched, and what happened to the others does not matter: a program that refers to
watched groups only runs alike from states that know the same about these. Different programs may
run alike as well. Then each of them may stand for the other in a larger program.
-/

namespace Highlighter.Regex

variable {watched : Nat → Prop} {text : Array Char}

/-- Two states have got equally far, and they know the same about the watched groups. -/
structure State.Alike (watched : Nat → Prop) (state state' : State) : Prop where
  position : state'.position = state.position
  group? : ∀ number, watched number → state'.group? number = state.group? number

/-- From alike states, two continuations get to alike states, or both fail. -/
def Continuation.Alike (watched : Nat → Prop) (next next' : Continuation) : Prop :=
  ∀ state state' : State, state.Alike watched state' →
    Option.Rel (State.Alike watched) (next state) (next' state')

/-- Two steps make alike continuations out of alike continuations. -/
def Step.Alike (watched : Nat → Prop) (step step' : Step) : Prop :=
  ∀ next next' : Continuation, Continuation.Alike watched next next' →
    Continuation.Alike watched (step next) (step' next')

namespace State.Alike

variable {state state' state'' : State}

theorem refl (state : State) : State.Alike watched state state :=
  ⟨rfl, fun _ _ => rfl⟩

theorem symm (h : State.Alike watched state state') : State.Alike watched state' state :=
  ⟨h.position.symm, fun number hnumber => (h.group? number hnumber).symm⟩

theorem trans (h : State.Alike watched state state') (h' : State.Alike watched state' state'') :
    State.Alike watched state state'' :=
  ⟨h'.position.trans h.position,
    fun number hnumber => (h'.group? number hnumber).trans (h.group? number hnumber)⟩

theorem moveTo (h : State.Alike watched state state') (position : Nat) :
    State.Alike watched { state with position := position } { state' with position := position } :=
  ⟨rfl, h.group?⟩

theorem close (h : State.Alike watched state state') (number start : Nat) :
    State.Alike watched (state.close number start) (state'.close number start) :=
  ⟨h.position, fun other hother => by
    rw [group?_close, group?_close, h.position, h.group? other hother]⟩

theorem forget (h : State.Alike watched state state') (first last : Nat) :
    State.Alike watched (state.forget first last) (state'.forget first last) :=
  ⟨h.position, fun other hother => by
    rw [group?_forget, group?_forget, h.group? other hother]⟩

end State.Alike

theorem State.Alike.option_symm {result result' : Option State}
    (h : Option.Rel (State.Alike watched) result result') :
    Option.Rel (State.Alike watched) result' result := by
  cases h with
  | some h => exact .some h.symm
  | none => exact .none

theorem State.Alike.option_trans {result result' result'' : Option State}
    (h : Option.Rel (State.Alike watched) result result')
    (h' : Option.Rel (State.Alike watched) result' result'') :
    Option.Rel (State.Alike watched) result result'' := by
  cases h with
  | some h =>
    cases h' with
    | some h' => exact .some (h.trans h')
  | none => exact h'

/-- What goes on alike with something else goes on alike with itself. -/
theorem Continuation.Alike.self {next next' : Continuation}
    (h : Continuation.Alike watched next next') : Continuation.Alike watched next next :=
  fun state state' hstate => State.Alike.option_trans (h state state' hstate)
    (State.Alike.option_symm (h state' state' (.refl state')))

namespace Step.Alike

variable {step step' step'' first first' second second' : Step}

theorem id : Step.Alike watched (fun next => next) (fun next => next) :=
  fun _ _ hnext => hnext

theorem trans (h : Step.Alike watched step step') (h' : Step.Alike watched step' step'') :
    Step.Alike watched step step'' :=
  fun next next' hnext state state' hstate =>
    State.Alike.option_trans (h next next hnext.self state state' hstate)
      (h' next next' hnext state' state' (.refl state'))

theorem symm (h : Step.Alike watched step step') : Step.Alike watched step' step :=
  fun next next' hnext state state' hstate => by
    have hback : Continuation.Alike watched next' next := fun after after' hafter =>
      State.Alike.option_symm (hnext after' after hafter.symm)
    exact State.Alike.option_symm (h next' next hback state' state hstate.symm)

theorem comp (hfirst : Step.Alike watched first first') (hsecond : Step.Alike watched second second') :
    Step.Alike watched (fun next => first (second next)) (fun next => first' (second' next)) :=
  fun _ _ hnext => hfirst _ _ (hsecond _ _ hnext)

theorem prefer (hfirst : Step.Alike watched first first')
    (hsecond : Step.Alike watched second second') (greedy : Bool) :
    Step.Alike watched
      (fun next state => Regex.prefer greedy (fun _ => first next state) fun _ => second next state)
      (fun next state =>
        Regex.prefer greedy (fun _ => first' next state) fun _ => second' next state) :=
  fun _ _ hnext _ _ hstate =>
    prefer_agrees (hfirst _ _ hnext _ _ hstate) (hsecond _ _ hnext _ _ hstate)

theorem copies (hstep : Step.Alike watched step step') (count : Nat) :
    Step.Alike watched (fun next => copies step next count) (fun next => copies step' next count) := by
  intro next next' hnext
  induction count with
  | zero => exact hnext
  | succ count ih => exact hstep _ _ ih

theorem optionals (hstep : Step.Alike watched step step') (greedy : Bool) (count : Nat) :
    Step.Alike watched (fun next => optionals step greedy next count)
      (fun next => optionals step' greedy next count) := by
  intro next next' hnext
  induction count with
  | zero => exact hnext
  | succ count ih =>
    intro state state' hstate
    unfold Regex.optionals
    exact prefer_agrees (hstep _ _ ih _ _ hstate) (hnext _ _ hstate)

theorem moving (hstep : Step.Alike watched step step') (greedy : Bool) (count : Nat) :
    Step.Alike watched (fun next => moving step greedy next count)
      (fun next => moving step' greedy next count) := by
  intro next next' hnext
  induction count with
  | zero => exact hnext
  | succ count ih =>
    intro state state' hstate
    unfold Regex.moving
    refine prefer_agrees (hstep _ _ (fun after after' hafter => ?_) _ _ hstate) (hnext _ _ hstate)
    simp only [hstate.position, hafter.position]
    split
    · exact ih _ _ hafter
    · exact .none

/-- Steps that are alike also reach alike states when they run on their own. -/
theorem alone (hstep : Step.Alike watched step step') :
    Continuation.Alike watched (step some) (step' some) :=
  hstep _ _ fun _ _ hstate => .some hstate

end Step.Alike

/-! ## Programs that run alike -/

/-- Two programs run alike on a text. -/
def Program.Alike (text : Array Char) (watched : Nat → Prop) (program program' : Program) : Prop :=
  Step.Alike watched (program.run text) (program'.run text)

/-- The programs that refer to watched groups only. -/
def Program.RefersTo (watched : Nat → Prop) : Program → Prop
  | .empty | .char _ | .anchor _ => True
  | .seq first second | .alt first second => first.RefersTo watched ∧ second.RefersTo watched
  | .group _ body | .times body _ _ _ | .more body _ | .plus body _ | .ahead _ body
  | .behind _ _ body | .atomic body | .settled _ _ body => body.RefersTo watched
  | .backref number => watched number

namespace Program.Alike

variable {body body' first first' second second' : Program}

theorem group (h : Program.Alike text watched body body') (number : Nat) :
    Program.Alike text watched (.group number body) (.group number body') := by
  intro next next' hnext state state' hstate
  refine h _ _ (fun after after' hafter => ?_) _ _ hstate
  rw [hstate.position]
  exact hnext _ _ (hafter.close number state.position)

theorem times (h : Program.Alike text watched body body') (least extra : Nat) (greedy : Bool) :
    Program.Alike text watched (.times body least extra greedy) (.times body' least extra greedy) :=
  (Step.Alike.copies h least).comp (Step.Alike.optionals h greedy extra)

theorem more (h : Program.Alike text watched body body') (greedy : Bool) :
    Program.Alike text watched (.more body greedy) (.more body' greedy) :=
  Step.Alike.moving h greedy _

theorem plus (h : Program.Alike text watched body body') (greedy : Bool) :
    Program.Alike text watched (.plus body greedy) (.plus body' greedy) := by
  intro next next' hnext state state' hstate
  refine h _ _ (fun after after' hafter => ?_) _ _ hstate
  simp only [hstate.position, hafter.position]
  split
  · exact Step.Alike.moving h greedy _ _ _ hnext _ _ hafter
  · exact hnext _ _ hafter

theorem ahead (h : Program.Alike text watched body body') (negated : Bool) :
    Program.Alike text watched (.ahead negated body) (.ahead negated body') := by
  intro next next' hnext state state' hstate
  simp only [run, hstate.position]
  cases negated
  · exact h _ _ (fun _ _ hafter => hnext _ _ (hafter.moveTo _)) _ _ hstate
  · have halone := Step.Alike.alone h _ _ hstate
    simp only [if_true]
    generalize body.run text some state = result at halone ⊢
    generalize body'.run text some state' = result' at halone ⊢
    cases halone with
    | some _ => exact .none
    | none => exact hnext _ _ hstate

theorem behind (h : Program.Alike text watched body body') (length : Nat) (negated : Bool) :
    Program.Alike text watched (.behind length negated body) (.behind length negated body') := by
  intro next next' hnext state state' hstate
  simp only [run, hstate.position]
  split
  · split
    · exact hnext _ _ hstate
    · exact .none
  · have hback := hstate.moveTo (state.position - length)
    cases negated
    · exact h _ _ (fun _ _ hafter => hnext _ _ (hafter.moveTo _)) _ _ hback
    · have halone := Step.Alike.alone h _ _ hback
      simp only [if_true]
      generalize body.run text some _ = result at halone ⊢
      generalize body'.run text some _ = result' at halone ⊢
      cases halone with
      | some _ => exact .none
      | none => exact hnext _ _ hstate

theorem atomic (h : Program.Alike text watched body body') :
    Program.Alike text watched (.atomic body) (.atomic body') := by
  intro next next' hnext state state' hstate
  have halone := Step.Alike.alone h _ _ hstate
  simp only [run]
  generalize body.run text some state = result at halone ⊢
  generalize body'.run text some state' = result' at halone ⊢
  cases halone with
  | some hafter => exact hnext _ _ hafter
  | none => exact .none

theorem settled (h : Program.Alike text watched body body') (first last : Nat) :
    Program.Alike text watched (.settled first last body) (.settled first last body') := by
  intro next next' hnext state state' hstate
  have halone := Step.Alike.alone h _ _ (hstate.forget first last)
  simp only [run]
  generalize body.run text some _ = result at halone ⊢
  generalize body'.run text some _ = result' at halone ⊢
  cases halone with
  | some hafter => exact hnext _ _ hafter
  | none => exact .none

end Program.Alike

/-- A program that refers to watched groups only runs alike from alike states. -/
theorem Program.RefersTo.alike {program : Program} (h : program.RefersTo watched)
    (text : Array Char) : Program.Alike text watched program program := by
  induction program with
  | empty => exact Step.Alike.id
  | char set =>
    intro next next' hnext state state' hstate
    simp only [run, hstate.position]
    split
    · split
      · exact hnext _ _ (hstate.moveTo _)
      · exact .none
    · exact .none
  | anchor position =>
    intro next next' hnext state state' hstate
    simp only [run, hstate.position]
    split
    · exact hnext _ _ hstate
    · exact .none
  | seq first second ihfirst ihsecond =>
    intro next next' hnext
    exact ihfirst h.1 _ _ (ihsecond h.2 _ _ hnext)
  | alt first second ihfirst ihsecond =>
    intro next next' hnext state state' hstate
    exact prefer_agrees (ihfirst h.1 _ _ hnext _ _ hstate) (ihsecond h.2 _ _ hnext _ _ hstate)
  | group number body ih => exact (ih h).group number
  | times body least extra greedy ih => exact (ih h).times least extra greedy
  | more body greedy ih => exact (ih h).more greedy
  | plus body greedy ih => exact (ih h).plus greedy
  | ahead negated body ih => exact (ih h).ahead negated
  | behind length negated body ih => exact (ih h).behind length negated
  | atomic body ih => exact (ih h).atomic
  | settled first last body ih => exact (ih h).settled first last
  | backref number =>
    intro next next' hnext state state' hstate
    simp only [run, hstate.position, hstate.group? number h]
    split
    · split
      · exact hnext _ _ (hstate.moveTo _)
      · exact .none
    · exact .none

theorem Program.refersTo_hereditary (watched : Nat → Prop) :
    Program.Hereditary (fun _ => True) watched (Program.RefersTo watched) where
  empty := trivial
  char _ := trivial
  anchor _ := trivial
  seq hfirst hsecond := ⟨hfirst, hsecond⟩
  alt hfirst hsecond := ⟨hfirst, hsecond⟩
  group _ hbody := hbody
  times _ _ _ hbody := hbody
  more _ hbody := hbody
  plus _ hbody := hbody
  ahead _ hbody := hbody
  behind _ _ hbody := hbody
  atomic hbody := hbody
  settled _ hbody := hbody
  backref hnumber := hnumber

/-- The program of a tree refers to no groups but those that the tree refers to. -/
theorem Tree.plan_refersTo {referenced : List Nat} {hard : Bool} {tree : Tree} {program : Program}
    (hreferences : ∀ number ∈ tree.references, watched number)
    (h : tree.plan referenced hard = .ok program) : program.RefersTo watched :=
  plan_induct (Program.refersTo_hereditary watched) (fun _ _ => trivial) hreferences h

/-! ## Programs in a row -/

namespace Program

variable {programs programs' others others' : List Program}

theorem run_seqs_cons (program : Program) (programs : List Program) (next : Continuation) :
    (seqs (program :: programs)).run text next = program.run text ((seqs programs).run text next) := by
  cases programs with
  | nil => rfl
  | cons second programs => rfl

theorem run_seqs_append (programs others : List Program) (next : Continuation) :
    (seqs (programs ++ others)).run text next =
      (seqs programs).run text ((seqs others).run text next) := by
  induction programs with
  | nil => rfl
  | cons program programs ih => rw [List.cons_append, run_seqs_cons, run_seqs_cons, ih]

theorem Alike.seqs (h : List.Forall₂ (Program.Alike text watched) programs programs') :
    Program.Alike text watched (.seqs programs) (.seqs programs') := by
  induction h with
  | nil => exact Step.Alike.id
  | @cons program program' programs programs' hfirst _ ih =>
    intro next next' hnext
    rw [run_seqs_cons, run_seqs_cons]
    exact hfirst _ _ (ih _ _ hnext)

theorem Alike.append (h : Program.Alike text watched (.seqs programs) (.seqs programs'))
    (h' : Program.Alike text watched (.seqs others) (.seqs others')) :
    Program.Alike text watched (.seqs (programs ++ others)) (.seqs (programs' ++ others')) := by
  intro next next' hnext
  rw [run_seqs_append, run_seqs_append]
  exact h _ _ (h' _ _ hnext)

theorem Alike.alts (h : List.Forall₂ (Program.Alike text watched) programs programs') :
    Program.Alike text watched (.alts programs) (.alts programs') := by
  induction h with
  | nil => exact Step.Alike.id
  | cons hfirst hrest ih =>
    cases hrest with
    | nil => exact hfirst
    | cons hsecond hrest => exact Step.Alike.prefer hfirst ih true

end Program

end Highlighter.Regex
