import Highlighter.Trace

/-!
# Outcomes of traced computations

A computation that leaves a trace gives a result and the trace after it. The relations here take
such computations apart at their binds, so that proofs follow the successful path of a `do` block
step by step and never look at the state underneath.
-/

namespace Highlighter

variable {α β : Type}

/-- A result of two computations in a row comes from a result of the first. -/
theorem ok_of_bind_eq_ok {ε : Type} {x : Except ε α} {f : α → Except ε β} {b : β}
    (h : x >>= f = .ok b) : ∃ a, x = .ok a ∧ f a = .ok b := by
  cases x with
  | error _ => cases h
  | ok a => exact ⟨a, rfl, h⟩

/-- From the trace `before`, the computation gives `a` and leaves the trace `after`. -/
def Gives (x : Traced α) (before : Trace) (a : α) (after : Trace) : Prop :=
  x.run before = (a, after)

/-- From the trace `before`, the computation succeeds with `a` and leaves the trace `after`. -/
def Returns (x : TracedExcept α) (before : Trace) (a : α) (after : Trace) : Prop :=
  Gives x.run before (.ok a) after

theorem exists_ok_of_isOk {ε : Type} {x : Except ε α} (h : x.isOk = true) : ∃ a, x = .ok a := by
  cases x with
  | error _ => cases h
  | ok a => exact ⟨a, rfl⟩

/-- A computation that has been seen to succeed gives what it is said to give. -/
theorem eq_ok_of_isOk {ε : Type} {x : Except ε α} (h : x.isOk = true) (a : α) :
    x = .ok (x.toOption.getD a) := by
  obtain ⟨b, rfl⟩ := exists_ok_of_isOk h
  rfl

theorem eq_ok_of_toOption {ε : Type} {x : Except ε α} {a : α} (h : x.toOption = some a) :
    x = .ok a := by
  cases x with
  | error _ => cases h
  | ok b => exact congrArg Except.ok (Option.some.inj h)

theorem exists_gives_of_toOption {ε : Type} {x : Traced (Except ε α)} {before : Trace} {a : α}
    (h : (x.run before).1.toOption = some a) : ∃ after, Gives x before (.ok a) after :=
  ⟨_, Prod.ext (eq_ok_of_toOption h) rfl⟩

/-- A computation that has been seen to succeed has a result. -/
theorem exists_gives_ok {ε : Type} {x : Traced (Except ε α)} {before : Trace}
    (h : (x.run before).1.isOk = true) : ∃ a after, Gives x before (.ok a) after := by
  obtain ⟨a, ha⟩ := exists_ok_of_isOk h
  exact ⟨a, _, Prod.ext ha rfl⟩

theorem gives_pure_iff {a b : α} {before after : Trace} :
    Gives (pure a) before b after ↔ a = b ∧ before = after := by
  simp only [Gives, StateT.run_pure]
  exact Prod.ext_iff

theorem gives_bind_iff {x : Traced α} {f : α → Traced β} {before after : Trace} {b : β} :
    Gives (x >>= f) before b after ↔
      ∃ a between, Gives x before a between ∧ Gives (f a) between b after := by
  unfold Gives
  constructor
  · intro h
    exact ⟨_, _, rfl, h⟩
  · rintro ⟨a, between, hx, hf⟩
    rw [StateT.run_bind, hx]
    exact hf

theorem returns_pure_iff {a b : α} {before after : Trace} :
    Returns (pure a) before b after ↔ a = b ∧ before = after := by
  simp only [Returns, ExceptT.run_pure, gives_pure_iff, Except.ok.injEq]

theorem returns_bind_iff {x : TracedExcept α} {f : α → TracedExcept β} {before after : Trace}
    {b : β} :
    Returns (x >>= f) before b after ↔
      ∃ a between, Returns x before a between ∧ Returns (f a) between b after := by
  unfold Returns
  rw [ExceptT.run_bind, gives_bind_iff]
  constructor
  · rintro ⟨outcome, between, hx, hf⟩
    cases outcome with
    | error fault =>
      have := (gives_pure_iff.mp hf).1
      cases this
    | ok a => exact ⟨a, between, hx, hf⟩
  · rintro ⟨a, between, hx, hf⟩
    exact ⟨.ok a, between, hx, hf⟩

theorem not_returns_throw {fault : Fault} {before after : Trace} {a : α} :
    ¬ Returns (throw fault) before a after := by
  intro h
  have := congrArg Prod.fst h
  cases this

theorem not_returns_throw_bind {fault : Fault} {f : β → TracedExcept α} {before after : Trace}
    {a : α} : ¬ Returns (throw fault >>= f) before a after := by
  intro h
  obtain ⟨_, _, hthrow, _⟩ := returns_bind_iff.mp h
  exact not_returns_throw hthrow

theorem bind_run_congr {x y : TracedExcept α} {f : α → TracedExcept β} {before : Trace}
    (h : x.run.run before = y.run.run before) :
    (x >>= f).run.run before = (y >>= f).run.run before := by
  rw [ExceptT.run_bind, ExceptT.run_bind, StateT.run_bind, StateT.run_bind, h]

/-- What follows a computation needs to be the same for what this gives only. -/
theorem lift_bind_run_congr {x : Traced α} {f g : α → TracedExcept β} {before : Trace}
    (h : ∀ a between, Gives x before a between → (f a).run.run between = (g a).run.run between) :
    ((liftM x : TracedExcept α) >>= f).run.run before =
      ((liftM x : TracedExcept α) >>= g).run.run before :=
  h _ _ rfl

/-- A computation that cannot fail succeeds with what it gives. -/
theorem returns_lift_iff {x : Traced α} {before after : Trace} {a : α} :
    Returns (liftM x) before a after ↔ Gives x before a after := by
  have hrun : (liftM x : TracedExcept α).run = (x >>= fun a => pure (.ok a)) := rfl
  rw [Returns, hrun, gives_bind_iff]
  constructor
  · rintro ⟨b, between, hx, hf⟩
    obtain ⟨heq, rfl⟩ := gives_pure_iff.mp hf
    cases heq
    exact hx
  · intro h
    exact ⟨a, after, h, gives_pure_iff.mpr ⟨rfl, rfl⟩⟩

/-- What follows a computation that cannot fail starts from what this gives. -/
theorem gives_lift_bind_iff {x : Traced α} {f : α → TracedExcept β}
    {before after : Trace} {outcome : Except Fault β} :
    Gives ((liftM x : TracedExcept α) >>= f).run before outcome after ↔
      ∃ a between, Gives x before a between ∧ Gives (f a).run between outcome after :=
  gives_bind_iff

/-- What a computation gives does not depend on the trace before it. -/
def Steady (x : Traced α) : Prop :=
  ∀ before before', (x.run before).1 = (x.run before').1

theorem Steady.gives {x : Traced α} {before after : Trace} {a : α} (h : Steady x)
    (hx : Gives x before a after) (trace : Trace) : (x.run trace).1 = a := by
  rw [h trace before, hx]

theorem steady_pure (a : α) : Steady (pure a) :=
  fun _ _ => rfl

theorem Steady.bind {x : Traced α} {f : α → Traced β} (hx : Steady x) (hf : ∀ a, Steady (f a)) :
    Steady (x >>= f) := by
  intro before before'
  rw [StateT.run_bind, StateT.run_bind]
  have heq := hx before before'
  generalize x.run before = first at heq ⊢
  generalize x.run before' = second at heq ⊢
  obtain ⟨a, between⟩ := first
  obtain ⟨b, between'⟩ := second
  cases heq
  exact hf a between between'

/-- The answer of a hook is its own. -/
theorem ask_run (edge : Edge) (hook : Hook) (info : MatchInfo) (data : FrameData)
    (trace : Trace) : ((Trace.ask edge hook info data).run trace).1 = hook.call info data := by
  unfold Trace.ask
  cases hook.isTraced <;> rfl

theorem steady_ask (edge : Edge) (hook : Hook) (info : MatchInfo) (data : FrameData) :
    Steady (Trace.ask edge hook info data) := by
  intro before before'
  rw [ask_run, ask_run]

end Highlighter
