/-
Numbers as sums of single digits with trailing zeros. Every number is the sum of its
digits at their places, and it has at most as many of them as decimal places.
-/

import Mathlib.Algebra.Order.BigOperators.Group.List
import Mathlib.Data.List.Sort
import Mathlib.Tactic.Ring

namespace Decimal
open List Nat

/-- A digit that is not zero, followed by zeros. -/
def IsPart (value : Nat) : Prop := ∃ digit power, 1 ≤ digit ∧ digit ≤ 9 ∧ value = digit * 10 ^ power

theorem IsPart.pos {value : Nat} (isPart : IsPart value) : 0 < value := by
  obtain ⟨digit, power, positive, _, rfl⟩ := isPart
  exact Nat.mul_pos positive (Nat.pow_pos (by decide))

/-- The digits of a number that are not zero, at their places, the lowest first. -/
def parts : Nat → Nat → Nat → List Nat
  | 0, _, _ => []
  | places + 1, scale, number =>
    (if number % 10 ≠ 0 then [number % 10 * scale] else [])
      ++ parts places (scale * 10) (number / 10)

@[simp] theorem parts_zero (places scale : Nat) : parts places scale 0 = [] := by
  induction places generalizing scale with
  | zero => rfl
  | succ places ih => simp [parts, ih]

theorem parts_split (low high scale number : Nat) : parts (low + high) scale number
    = parts low scale (number % 10 ^ low) ++ parts high (scale * 10 ^ low) (number / 10 ^ low) := by
  induction low generalizing scale number with
  | zero => simp [parts]
  | succ low ih =>
    have digit : number % 10 ^ (low + 1) % 10 = number % 10 :=
      mod_mod_of_dvd _ (dvd_pow_self 10 (succ_ne_zero low))
    have others : number % 10 ^ (low + 1) / 10 = number / 10 % 10 ^ low := by
      rw [pow_succ', mod_mul_right_div_self]
    rw [succ_add, parts, parts, ih, digit, others, append_assoc, Nat.div_div_eq_div_mul, ← pow_succ',
      Nat.mul_assoc, ← pow_succ']

theorem parts_of_le_ten {places number : Nat} (small : number ≤ 10) (fits : number < 10 ^ places) :
    parts places 1 number = if number ≠ 0 then [number] else [] := by
  match places with
  | 0 =>
    rw [lt_one_iff.mp fits]
    rfl
  | 1 =>
    rw [parts, mod_eq_of_lt (show number < 10 from fits), Nat.mul_one]
    exact append_nil _
  | places + 2 =>
    have cases : number = 10 ∨ number < 10 := by omega
    rcases cases with rfl | below
    · simp [parts]
    · simp [parts, mod_eq_of_lt below, Nat.div_eq_of_lt below]

theorem sum_parts {places number : Nat} (scale : Nat) (fits : number < 10 ^ places) :
    (parts places scale number).sum = number * scale := by
  induction places generalizing scale number with
  | zero =>
    have zero : number = 0 := lt_one_iff.mp fits
    rw [zero, zero_mul]
    rfl
  | succ places ih =>
    have smaller : number / 10 < 10 ^ places := by
      rw [div_lt_iff_lt_mul (by decide), ← pow_succ]
      exact fits
    have first : (if number % 10 ≠ 0 then [number % 10 * scale] else []).sum
        = number % 10 * scale := by
      split
      · exact sum_singleton
      · rename_i zero
        rw [Decidable.not_not.mp zero, zero_mul]
        rfl
    rw [parts, sum_append_nat, first, ih (scale * 10) smaller]
    calc
      number % 10 * scale + number / 10 * (scale * 10)
          = (number % 10 + 10 * (number / 10)) * scale := by ring
      _ = number * scale := by rw [mod_add_div]

theorem mem_parts {places power number value : Nat}
    (member : value ∈ parts places (10 ^ power) number) : 10 ^ power ≤ value ∧ IsPart value := by
  induction places generalizing power number with
  | zero => cases member
  | succ places ih =>
    rw [parts, mem_append] at member
    rcases member with first | later
    · split at first
      · rename_i nonzero
        rw [mem_singleton.mp first]
        have positive := pos_of_ne_zero nonzero
        exact ⟨Nat.le_mul_of_pos_left _ positive,
          number % 10, power, positive, le_of_lt_succ (mod_lt _ (by decide)), rfl⟩
      · cases first
    · obtain ⟨bound, isPart⟩ := @ih (power + 1) _ later
      exact ⟨(Nat.pow_le_pow_right (by decide) (Nat.le_succ power)).trans bound, isPart⟩

theorem sorted_parts (places power number : Nat) :
    (parts places (10 ^ power) number).Pairwise (· ≤ ·) := by
  induction places generalizing power number with
  | zero => exact .nil
  | succ places ih =>
    rw [parts, pairwise_append]
    refine ⟨?_, ih (power + 1) _, ?_⟩
    · split
      · exact pairwise_singleton _ _
      · exact .nil
    · intro first isFirst later isLater
      have above := (@mem_parts places (power + 1) _ _ isLater).1
      split at isFirst
      · rw [mem_singleton.mp isFirst]
        have digit : number % 10 ≤ 10 := le_of_lt (mod_lt _ (by decide))
        calc
          number % 10 * 10 ^ power ≤ 10 * 10 ^ power := mul_le_mul_right _ digit
          _ = 10 ^ (power + 1) := by ring
          _ ≤ later := above
      · cases isFirst

theorem length_parts_le {digits number : Nat} (places scale : Nat) (fits : number < 10 ^ digits) :
    (parts places scale number).length ≤ digits := by
  induction places generalizing digits scale number with
  | zero => exact zero_le _
  | succ places ih =>
    cases digits with
    | zero =>
      have zero : number = 0 := lt_one_iff.mp fits
      rw [zero, parts_zero]
      exact le_refl 0
    | succ digits =>
      have smaller : number / 10 < 10 ^ digits := by
        rw [div_lt_iff_lt_mul (by decide), ← pow_succ]
        exact fits
      have rest := ih (scale * 10) smaller
      rw [parts, length_append]
      split
      · rw [length_singleton]
        omega
      · rw [length_nil]
        omega

theorem length_parts_mul_le {digits number : Nat} (places power scale : Nat)
    (fits : number < 10 ^ digits) :
    (parts places scale (number * 10 ^ power)).length ≤ digits := by
  induction power generalizing places scale with
  | zero =>
    rw [pow_zero, mul_one]
    exact length_parts_le places scale fits
  | succ power ih =>
    cases places with
    | zero => exact zero_le _
    | succ places =>
      have last : number * 10 ^ (power + 1) = number * 10 ^ power * 10 := by ring
      rw [parts, last, mul_mod_left, if_neg (fun nonzero => nonzero rfl),
        Nat.mul_div_cancel _ (by decide)]
      exact ih places (scale * 10)

end Decimal
