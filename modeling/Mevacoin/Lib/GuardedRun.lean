/-
Runs of a partial step function in which every step meets a condition on the state it is
taken in. What the starting states have and allowed steps keep, every state reached has.
-/

import Mathlib.Logic.Basic

namespace GuardedRun
variable {σ α : Type}

inductive Reached (start : σ → Prop) (step : σ → α → Option σ) (allowed : σ → α → Prop) :
    σ → Prop where
  | initial {state : σ} (isStart : start state) : Reached start step allowed state
  | next {state after : σ} {action : α} (reached : Reached start step allowed state)
      (meets : allowed state action) (ran : step state action = some after) :
      Reached start step allowed after

variable {start : σ → Prop} {step : σ → α → Option σ} {allowed : σ → α → Prop}

theorem Reached.invariant (holds : σ → Prop) (initially : ∀ state, start state → holds state)
    (kept : ∀ state action after, holds state → allowed state action →
      step state action = some after → holds after)
    {state : σ} (reached : Reached start step allowed state) : holds state := by
  induction reached with
  | initial isStart => exact initially _ isStart
  | next _ meets ran ih => exact kept _ _ _ ih meets ran

end GuardedRun
