/-
Sequences of actions that can be cut short. Each action takes a state to the next one or
stops the sequence; an interruption can leave any state that a first part of the actions
leads to.
-/

import Mathlib.Data.List.Basic

namespace Interruption
variable {σ α : Type} (apply : α → σ → Option σ)

def run : List α → σ → Option σ
  | [], state => some state
  | action :: actions, state => (apply action state).bind (run actions)

def Left (actions : List α) (start state : σ) : Prop :=
  ∃ count, run apply (actions.take count) start = some state

variable {apply}

theorem run_append (first second : List α) (start : σ) :
    run apply (first ++ second) start = (run apply first start).bind (run apply second) := by
  induction first generalizing start with
  | nil => rfl
  | cons action first ih =>
    change (apply action start).bind (run apply (first ++ second)) =
      ((apply action start).bind (run apply first)).bind (run apply second)
    rw [Option.bind_assoc]
    exact congrArg _ (funext ih)

theorem left_nil {start state : σ} : Left apply [] start state ↔ state = start := by
  constructor
  · rintro ⟨count, ran⟩
    rw [List.take_nil] at ran
    exact (Option.some.inj ran).symm
  · rintro rfl
    exact ⟨0, rfl⟩

theorem left_cons {action : α} {actions : List α} {start state : σ} :
    Left apply (action :: actions) start state ↔
      state = start ∨ ∃ next, apply action start = some next ∧ Left apply actions next state := by
  constructor
  · rintro ⟨count, ran⟩
    cases count with
    | zero => exact .inl (Option.some.inj ran).symm
    | succ count =>
      obtain ⟨next, applied, later⟩ := Option.bind_eq_some_iff.mp ran
      exact .inr ⟨next, applied, count, later⟩
  · rintro (rfl | ⟨next, applied, count, ran⟩)
    · exact ⟨0, rfl⟩
    · exact ⟨count + 1, Option.bind_eq_some_iff.mpr ⟨next, applied, ran⟩⟩

theorem left_append {first second : List α} {start state : σ}
    (left : Left apply (first ++ second) start state) :
    Left apply first start state ∨
      ∃ middle, run apply first start = some middle ∧ Left apply second middle state := by
  induction first generalizing start with
  | nil => exact .inr ⟨start, rfl, left⟩
  | cons action first ih =>
    rcases left_cons.mp left with rfl | ⟨next, applied, later⟩
    · exact .inl ⟨0, rfl⟩
    · rcases ih later with early | ⟨middle, ran, late⟩
      · exact .inl (left_cons.mpr (.inr ⟨next, applied, early⟩))
      · exact .inr ⟨middle, Option.bind_eq_some_iff.mpr ⟨next, applied, ran⟩, late⟩

theorem left_of_invariant {actions : List α} {start state : σ} {invariant : σ → Prop}
    (keeps : ∀ action ∈ actions, ∀ before after, apply action before = some after →
      invariant before → invariant after)
    (atStart : invariant start) (left : Left apply actions start state) : invariant state := by
  induction actions generalizing start with
  | nil =>
    rw [left_nil.mp left]
    exact atStart
  | cons action actions ih =>
    rcases left_cons.mp left with rfl | ⟨next, applied, later⟩
    · exact atStart
    · exact ih (fun other isOther => keeps other (List.mem_cons_of_mem _ isOther))
        (keeps action List.mem_cons_self _ _ applied atStart) later

end Interruption
