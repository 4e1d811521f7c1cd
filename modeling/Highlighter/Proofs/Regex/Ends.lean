import Highlighter.Regex.Match

/-!
# Ends of matches

A program hands on the states in which a match may end, the preferred one first, until what follows
accepts one. Listed, these are the ends of the program. To run a program is to look through its ends
for the first one that is accepted.
-/

namespace Highlighter.Regex

/-- The states in which a match that begins in a state may end, the preferred one first. -/
abbrev Ends := State → List State

namespace Ends

/-- The ends of `first`, and then those of `second`; the other way round when not `greedy`. -/
def prefer (greedy : Bool) (first second : List State) : List State :=
  if greedy then first ++ second else second ++ first

/-- The ends of `count` matches in a row. -/
def copies (ends : Ends) : Nat → Ends
  | 0, state => [state]
  | count + 1, state => (ends state).flatMap (copies ends count)

/-- The ends of at most `count` matches in a row. -/
def optionals (ends : Ends) (greedy : Bool) : Nat → Ends
  | 0, state => [state]
  | count + 1, state =>
    prefer greedy ((ends state).flatMap (optionals ends greedy count)) [state]

/-- The ends of matches in a row, each of which moves forward; at most `count` of them. -/
def moving (ends : Ends) (greedy : Bool) : Nat → Ends
  | 0, state => [state]
  | count + 1, state =>
    prefer greedy
      ((ends state).flatMap fun after =>
        if state.position < after.position then moving ends greedy count after else [])
      [state]

end Ends

/-- The ends of a program. -/
def Program.ends (text : Array Char) : Program → Ends
  | .empty, state => [state]
  | .char set, state =>
    match text[state.position]? with
    | some c => if set.has c then [{ state with position := state.position + 1 }] else []
    | none => []
  | .anchor position, state => if position.holds text state.position then [state] else []
  | .seq first second, state => (first.ends text state).flatMap (second.ends text)
  | .alt first second, state => first.ends text state ++ second.ends text state
  | .group number body, state =>
    (body.ends text state).map fun after => after.close number state.position
  | .times body least extra greedy, state =>
    (Ends.copies (body.ends text) least state).flatMap
      (Ends.optionals (body.ends text) greedy extra)
  | .more body greedy, state => Ends.moving (body.ends text) greedy (text.size + 1) state
  | .plus body greedy, state =>
    (body.ends text state).flatMap fun after =>
      if state.position < after.position then
        Ends.moving (body.ends text) greedy (text.size + 1) after
      else [after]
  | .ahead negated body, state =>
    if negated then if (body.ends text state).isEmpty then [state] else []
    else (body.ends text state).map fun after => { after with position := state.position }
  | .behind length negated body, state =>
    if state.position < length then if negated then [state] else []
    else
      let back := { state with position := state.position - length }
      if negated then if (body.ends text back).isEmpty then [state] else []
      else (body.ends text back).map fun after => { after with position := state.position }
  | .atomic body, state => (body.ends text state).head?.toList
  | .settled first last body, state => (body.ends text (state.forget first last)).head?.toList
  | .backref number, state =>
    match state.group? number with
    | some span =>
      if repeatsAt text span state.position then
        [{ state with position := state.position + (span.stop - span.start) }]
      else []
    | none => []

/-- A step looks through listed ends. -/
def Step.Lists (step : Step) (ends : Ends) : Prop :=
  ∀ next state, step next state = (ends state).findSome? next

theorem findSome?_flatMap {α β γ : Type} (f : α → List β) (g : β → Option γ) (items : List α) :
    (items.flatMap f).findSome? g = items.findSome? fun item => (f item).findSome? g := by
  induction items with
  | nil => rfl
  | cons item items ih =>
    rw [List.flatMap_cons, List.findSome?_append, List.findSome?_cons, ih]
    cases (f item).findSome? g <;> rfl

theorem findSome?_some {α : Type} (items : List α) : items.findSome? some = items.head? := by
  cases items <;> rfl

theorem findSome?_singleton {α β : Type} (f : α → Option β) (item : α) :
    [item].findSome? f = f item := by
  rw [List.findSome?_cons, List.findSome?_nil]
  cases f item <;> rfl

theorem findSome?_toList {α β : Type} (f : α → Option β) (item : Option α) :
    item.toList.findSome? f = item.bind f := by
  cases item with
  | none => rfl
  | some item => exact findSome?_singleton f item

theorem prefer_findSome? (greedy : Bool) (first second : List State) (next : Continuation) :
    prefer greedy (fun _ => first.findSome? next) (fun _ => second.findSome? next) =
      (Ends.prefer greedy first second).findSome? next := by
  unfold prefer Ends.prefer
  cases greedy
  · simp only [Bool.false_eq_true, if_false, List.findSome?_append]
    cases second.findSome? next <;> rfl
  · simp only [if_true, List.findSome?_append]
    cases first.findSome? next <;> rfl

namespace Step.Lists

variable {step : Step} {ends : Ends}

theorem copies (h : step.Lists ends) (next : Continuation) (count : Nat) (state : State) :
    Regex.copies step next count state = (ends.copies count state).findSome? next := by
  induction count generalizing state with
  | zero => exact (findSome?_singleton next state).symm
  | succ count ih =>
    rw [Regex.copies, h, Ends.copies, findSome?_flatMap]
    exact congrArg (List.findSome? · _) (funext ih)

theorem optionals (h : step.Lists ends) (greedy : Bool) (next : Continuation) (count : Nat)
    (state : State) :
    Regex.optionals step greedy next count state =
      (ends.optionals greedy count state).findSome? next := by
  induction count generalizing state with
  | zero => exact (findSome?_singleton next state).symm
  | succ count ih =>
    rw [Ends.optionals, ← prefer_findSome?, findSome?_singleton, findSome?_flatMap, ← funext ih]
    simp only [Regex.optionals, h _ state]

theorem moving (h : step.Lists ends) (greedy : Bool) (next : Continuation) (count : Nat)
    (state : State) :
    Regex.moving step greedy next count state =
      (ends.moving greedy count state).findSome? next := by
  induction count generalizing state with
  | zero => exact (findSome?_singleton next state).symm
  | succ count ih =>
    rw [Ends.moving, ← prefer_findSome?, findSome?_singleton, findSome?_flatMap]
    simp only [Regex.moving, h _ state, ih, apply_ite (List.findSome? next), List.findSome?_nil]

end Step.Lists

/-- To run a program is to look through its ends. -/
theorem Program.run_lists (text : Array Char) (program : Program) :
    Step.Lists (program.run text) (program.ends text) := by
  induction program with
  | empty => exact fun next state => (findSome?_singleton next state).symm
  | char set =>
    intro next state
    rw [run, ends]
    cases text[state.position]? with
    | none => rfl
    | some c =>
      cases hc : set.has c
      · simp only [hc, Bool.false_eq_true, if_false, List.findSome?_nil]
      · simp only [hc, if_true, findSome?_singleton]
  | anchor position =>
    intro next state
    rw [run, ends, apply_ite (List.findSome? next), findSome?_singleton]
    rfl
  | seq first second ihfirst ihsecond =>
    intro next state
    rw [run, ends, findSome?_flatMap, ihfirst]
    exact congrArg (List.findSome? · _) (funext fun after => ihsecond next after)
  | alt first second ihfirst ihsecond =>
    intro next state
    rw [run, ends, ihfirst, ihsecond, prefer_findSome?]
    rfl
  | group number body ih =>
    intro next state
    rw [run, ends, List.findSome?_map, ih]
    rfl
  | times body least extra greedy ih =>
    intro next state
    rw [run, ends, findSome?_flatMap, ih.copies]
    exact congrArg (List.findSome? · _) (funext fun after => ih.optionals greedy next extra after)
  | more body greedy ih =>
    intro next state
    rw [run, ends, ih.moving]
  | plus body greedy ih =>
    intro next state
    rw [run, ends, findSome?_flatMap, ih]
    simp only [apply_ite (List.findSome? next), findSome?_singleton, ih.moving]
  | ahead negated body ih =>
    intro next state
    rw [run, ends]
    cases negated
    · rw [if_neg Bool.false_ne_true, if_neg Bool.false_ne_true, List.findSome?_map, ih]
      rfl
    · rw [if_pos rfl, if_pos rfl, ih, findSome?_some]
      cases body.ends text state with
      | nil => exact (findSome?_singleton _ _).symm
      | cons => rfl
  | behind length negated body ih =>
    intro next state
    rw [run, ends]
    split
    · cases negated
      · rfl
      · exact (findSome?_singleton _ _).symm
    · cases negated
      · rw [if_neg Bool.false_ne_true, if_neg Bool.false_ne_true, List.findSome?_map, ih]
        rfl
      · rw [if_pos rfl, if_pos rfl, ih, findSome?_some]
        cases body.ends text { state with position := state.position - length } with
        | nil => exact (findSome?_singleton _ _).symm
        | cons => rfl
  | atomic body ih =>
    intro next state
    rw [run, ends, ih, findSome?_some, findSome?_toList]
    cases (body.ends text state).head? <;> rfl
  | settled first last body ih =>
    intro next state
    rw [run, ends, ih, findSome?_some, findSome?_toList]
    cases (body.ends text (state.forget first last)).head? <;> rfl
  | backref number =>
    intro next state
    rw [run, ends]
    cases state.group? number with
    | none => rfl
    | some span => simp only [apply_ite (List.findSome? next), findSome?_singleton, List.findSome?_nil]

/-- A program that runs on its own ends where it prefers to. -/
theorem Program.run_some (text : Array Char) (program : Program) (state : State) :
    program.run text some state = (program.ends text state).head? := by
  rw [run_lists, findSome?_some]

end Highlighter.Regex
