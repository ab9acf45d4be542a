/-
Numbers below the cube of a base, as three symbols. The first symbol is the lowest
digit; each later symbol is the sum of a digit and the symbol before it. A symbol
equal to the base, one past the last, reads as zero in the second and third place.
-/

import Mathlib.Tactic.Ring

namespace DifferenceDigits
open Nat

variable {base : Nat}

def first (base number : Nat) : Nat := number % base

def second (base number : Nat) : Nat := (number / base + first base number) % base

def third (base number : Nat) : Nat := (number / base / base + second base number) % base

def value (base low middle high : Nat) : Nat :=
  low + base * ((base - low + middle) % base) + base * base * ((base - middle + high) % base)

private theorem difference_of_sum {digit symbol : Nat} (isSymbol : symbol < base) :
    (base - symbol + (digit + symbol) % base) % base = digit % base := by
  rw [add_mod_mod, show base - symbol + (digit + symbol) = digit + base by omega, add_mod_right]

private theorem sum_of_difference {symbol next : Nat} (isSymbol : symbol < base)
    (isNext : next < base) : ((base - symbol + next) % base + symbol) % base = next := by
  rw [mod_add_mod, show base - symbol + next + symbol = next + base by omega,
    add_mod_right, mod_eq_of_lt isNext]

/-! ### Round trips -/

theorem value_symbols {number : Nat} (fits : number < base * base * base) :
    value base (first base number) (second base number) (third base number) = number := by
  have positive : 0 < base := by
    rcases Nat.eq_zero_or_pos base with rfl | positive
    · simp at fits
    · exact positive
  have top : number / base / base < base := by
    rw [Nat.div_div_eq_div_mul]
    exact Nat.div_lt_of_lt_mul fits
  have middleDigit := @difference_of_sum base (number / base) _ (mod_lt number positive)
  have highDigit := @difference_of_sum base (number / base / base) (second base number)
    (mod_lt _ positive)
  rw [mod_eq_of_lt top] at highDigit
  change number % base + base * ((base - number % base + (number / base + number % base) % base) % base)
    + base * base * ((base - second base number +
      (number / base / base + second base number) % base) % base) = number
  rw [middleDigit, highDigit]
  calc
    number % base + base * (number / base % base) + base * base * (number / base / base)
        = number % base + base * (number / base % base + base * (number / base / base)) := by ring
    _ = number := by rw [mod_add_div, mod_add_div]

section Symbols
variable {low middle high : Nat}

theorem value_eq_add_mul (base low middle high : Nat) :
    value base low middle high =
      low + base * ((base - low + middle) % base + base * ((base - middle + high) % base)) := by
  rw [value]
  ring

section
variable (isLow : low < base)
include isLow

theorem value_mod : value base low middle high % base = low := by
  rw [value_eq_add_mul, add_mul_mod_self_left, mod_eq_of_lt isLow]

private theorem value_div :
    value base low middle high / base =
      (base - low + middle) % base + base * ((base - middle + high) % base) := by
  rw [value_eq_add_mul, add_mul_div_left _ _ (lt_of_le_of_lt (zero_le _) isLow),
    div_eq_of_lt isLow, zero_add]

theorem first_value : first base (value base low middle high) = low :=
  value_mod isLow

theorem second_value (isMiddle : middle < base) :
    second base (value base low middle high) = middle := by
  rw [second, first_value isLow, value_div isLow, add_right_comm, add_mul_mod_self_left,
    sum_of_difference isLow isMiddle]

theorem third_value (isMiddle : middle < base) (isHigh : high < base) :
    third base (value base low middle high) = high := by
  have positive : 0 < base := lt_of_le_of_lt (zero_le _) isLow
  rw [third, second_value isLow isMiddle, value_div isLow, add_mul_div_left _ _ positive,
    div_eq_of_lt (mod_lt _ positive), zero_add, sum_of_difference isMiddle isHigh]

theorem value_lt : value base low middle high < base * base * base := by
  have positive : 0 < base := lt_of_le_of_lt (zero_le _) isLow
  have middleDigit : (base - low + middle) % base + 1 ≤ base := mod_lt _ positive
  have highDigit : (base - middle + high) % base + 1 ≤ base := mod_lt _ positive
  generalize isMiddle : (base - low + middle) % base = middleDifference at middleDigit
  generalize isHigh : (base - middle + high) % base = highDifference at highDigit
  rw [value, isMiddle, isHigh]
  calc
    low + base * middleDifference + base * base * highDifference
        < base + base * middleDifference + base * base * highDifference := by omega
    _ = base * (middleDifference + 1) + base * base * highDifference := by ring
    _ ≤ base * base + base * base * highDifference :=
        Nat.add_le_add_right (Nat.mul_le_mul_left base middleDigit) _
    _ = base * base * (highDifference + 1) := by ring
    _ ≤ base * base * base := mul_le_mul_left _ highDigit

end

theorem value_base_middle : value base low base high = value base low 0 high := by
  rw [value, value, Nat.add_mod_right, Nat.add_zero, Nat.sub_self, Nat.zero_add, Nat.sub_zero,
    add_mod_left]

theorem value_base_high : value base low middle base = value base low middle 0 := by
  rw [value, value, add_mod_right, add_zero]

end Symbols
end DifferenceDigits
