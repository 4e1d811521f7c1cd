import Highlighter.Proofs.Outcome

/-!
# Computations that agree

Two computations agree when they give related results, whatever traces they start from. Where they
may fail, both succeed or both fail with the same fault. Lenient agreement asks nothing of the
second computation where the first one fails.
-/

namespace Highlighter

variable {α β γ δ ε ζ : Type} {lenient : Bool}

/-- Whatever has happened before, two computations give related results. -/
def Agree (r : α → β → Prop) (x : Traced α) (y : Traced β) : Prop :=
  ∀ before before', r (x.run before).1 (y.run before').1

/-- Two outcomes agree: both are results that are related by `r`, or both are errors that are
related by `e`. A lenient agreement excuses whatever stands beside an error of the first outcome. -/
inductive OutcomesAgree (lenient : Bool) (e : ε → ζ → Prop) (r : α → β → Prop) :
    Except ε α → Except ζ β → Prop where
  | ok {a : α} {b : β} (h : r a b) : OutcomesAgree lenient e r (.ok a) (.ok b)
  | error {error : ε} {error' : ζ} (h : e error error') :
      OutcomesAgree lenient e r (.error error) (.error error')
  | excused {error : ε} {outcome : Except ζ β} (h : lenient = true) :
      OutcomesAgree lenient e r (.error error) outcome

/-- Two computations that may fail agree. -/
def AgreeExcept (lenient : Bool) (r : α → β → Prop) (x : TracedExcept α) (y : TracedExcept β) :
    Prop :=
  Agree (OutcomesAgree lenient Eq r) x.run y.run

theorem agree_pure {r : α → β → Prop} {a : α} {b : β} (h : r a b) :
    Agree r (pure a) (pure b) :=
  fun _ _ => h

theorem Agree.mono {r s : α → β → Prop} {x : Traced α} {y : Traced β} (h : Agree r x y)
    (himp : ∀ a b, r a b → s a b) : Agree s x y :=
  fun before before' => himp _ _ (h before before')

theorem Agree.bind {r : α → β → Prop} {s : γ → δ → Prop} {x : Traced α} {y : Traced β}
    {f : α → Traced γ} {g : β → Traced δ} (h : Agree r x y)
    (hrest : ∀ a b, r a b → Agree s (f a) (g b)) : Agree s (x >>= f) (y >>= g) :=
  fun before before' => hrest _ _ (h before before') _ _

namespace AgreeExcept

variable {r : α → β → Prop} {s : γ → δ → Prop} {x : TracedExcept α} {y : TracedExcept β}

theorem of_pure {a : α} {b : β} (h : r a b) : AgreeExcept lenient r (pure a) (pure b) :=
  fun _ _ => .ok h

theorem of_throw (fault : Fault) : AgreeExcept lenient r (throw fault) (throw fault) :=
  fun _ _ => .error rfl

/-- A lenient agreement excuses everything where the first computation fails. -/
theorem of_excused (h : lenient = true) (fault : Fault) : AgreeExcept lenient r (throw fault) y :=
  fun _ _ => .excused h

theorem bind {f : α → TracedExcept γ} {g : β → TracedExcept δ} (h : AgreeExcept lenient r x y)
    (hrest : ∀ a b, r a b → AgreeExcept lenient s (f a) (g b)) :
    AgreeExcept lenient s (x >>= f) (y >>= g) := by
  intro before before'
  have hfirst := h before before'
  rw [ExceptT.run_bind, ExceptT.run_bind, StateT.run_bind, StateT.run_bind]
  generalize x.run.run before = outcome at hfirst ⊢
  generalize y.run.run before' = outcome' at hfirst ⊢
  obtain ⟨result, between⟩ := outcome
  obtain ⟨result', between'⟩ := outcome'
  cases hfirst with
  | ok hr => exact hrest _ _ hr between between'
  | error herror =>
    cases herror
    exact .error rfl
  | excused hlenient => exact .excused hlenient

theorem of_agree {x : Traced α} {y : Traced β} (h : Agree r x y) :
    AgreeExcept lenient r (liftM x) (liftM y) :=
  fun before before' => .ok (h before before')

theorem mono {r' : α → β → Prop} (h : AgreeExcept lenient r x y) (himp : ∀ a b, r a b → r' a b) :
    AgreeExcept lenient r' x y := by
  refine Agree.mono h fun outcome outcome' hagree => ?_
  cases hagree with
  | ok hr => exact .ok (himp _ _ hr)
  | error herror => exact .error herror
  | excused hlenient => exact .excused hlenient

end AgreeExcept

/-- Nothing follows a fault. -/
theorem throw_bind (fault : Fault) (f : α → TracedExcept β) :
    (throw fault >>= f) = throw fault :=
  rfl

end Highlighter
