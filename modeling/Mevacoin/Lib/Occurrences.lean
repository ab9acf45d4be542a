/-
Numbering the occurrences of each key in a list. A key gets the number of its earlier
occurrences, counted from the keys that came before the list.
-/

import Mathlib.Data.List.Count
import Mathlib.Data.List.MinMax

namespace Occurrences
open List

variable {α : Type} [DecidableEq α]

def numbered (before : List α) : List α → List (α × Nat)
  | [] => []
  | key :: keys => (key, before.count key) :: numbered (before ++ [key]) keys

def numbersOf (key : α) (numbers : List (α × Nat)) : List Nat :=
  numbers.filterMap fun number => if number.1 = key then some number.2 else none

theorem numbered_append (before first second : List α) :
    numbered before (first ++ second)
      = numbered before first ++ numbered (before ++ first) second := by
  induction first generalizing before with
  | nil => simp [numbered]
  | cons key keys ih => simp [numbered, ih]

theorem numbersOf_numbered (key : α) (before keys : List α) :
    numbersOf key (numbered before keys) = List.range' (before.count key) (keys.count key) := by
  induction keys generalizing before with
  | nil => rfl
  | cons head keys ih =>
    have rest := ih (before ++ [head])
    unfold numbersOf at rest ⊢
    rw [numbered, filterMap_cons, rest]
    by_cases same : head = key
    · subst same
      rw [if_pos rfl, count_append, count_singleton_self, count_cons_self, range'_succ]
    · rw [if_neg same, count_append, count_singleton, count_cons]
      simp [same]

theorem min?_numbersOf (key : α) (before keys : List α) :
    (numbersOf key (numbered before keys)).min?
      = if keys.count key = 0 then none else some (before.count key) := by
  rw [numbersOf_numbered]
  cases keys.count key with
  | zero => rfl
  | succ count =>
    rw [if_neg (Nat.succ_ne_zero _), min?_eq_some_iff]
    constructor
    · rw [range'_succ]
      exact mem_cons_self
    · intro number member
      exact (mem_range'_1.mp member).1

end Occurrences
