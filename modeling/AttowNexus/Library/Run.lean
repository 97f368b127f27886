import Mathlib.Data.List.Basic

/-! # Labelled runs of a transition relation

A run carries the list of the labels it took. Induction goes over the last step, so an invariant
needs its start and one step; a run can be cut at any label.
-/

/-- From `start`, the steps labelled by the list lead to the last state. -/
inductive Run {σ ℓ : Type*} (step : σ → ℓ → σ → Prop) (start : σ) : List ℓ → σ → Prop
  | nil : Run step start [] start
  | snoc {events : List ℓ} {s t : σ} {event : ℓ} :
      Run step start events s → step s event t → Run step start (events ++ [event]) t

namespace Run

variable {σ ℓ : Type*} {step step' : σ → ℓ → σ → Prop} {start middle finish : σ} {first second : List ℓ}

/-- What holds at the start and survives every step holds at the end. -/
theorem invariant {I : σ → Prop} (run : Run step start first finish) (init : I start)
    (keep : ∀ s event t, I s → step s event t → I t) : I finish := by
  induction run with
  | nil => exact init
  | snoc _ taken ih => exact keep _ _ _ ih taken

/-- A run of one relation is a run of any larger one. -/
theorem mono (run : Run step start first finish) (sub : ∀ s event t, step s event t → step' s event t) :
    Run step' start first finish := by
  induction run with
  | nil => exact .nil
  | snoc _ taken ih => exact .snoc ih (sub _ _ _ taken)

theorem append (left : Run step start first middle) (right : Run step middle second finish) :
    Run step start (first ++ second) finish := by
  induction right with
  | nil => simpa using left
  | snoc _ taken ih =>
    rw [← List.append_assoc]
    exact .snoc ih taken

theorem single {event : ℓ} (taken : step start event finish) : Run step start [event] finish :=
  .snoc .nil taken

theorem cons {event : ℓ} (taken : step start event middle) (rest : Run step middle second finish) :
    Run step start (event :: second) finish :=
  (single taken).append rest

end Run
