/-
The 128-bit helpers of the integer utilities: a 64 by 64 bit product held in two
words, and the long division of such a pair by a 32-bit divisor. They follow the
32-bit limb code and are shown to be exact.
-/

import Mathlib.Data.Nat.Bitwise
import Mathlib.Tactic.Ring
import Mathlib.Tactic.Linarith

namespace Mevacoin
open Nat

def hiDword (value : UInt64) : UInt64 := value >>> 32

def loDword (value : UInt64) : UInt64 := value &&& 0xFFFFFFFF

def mul128 (multiplier multiplicand : UInt64) : UInt64 × UInt64 :=
  let a := hiDword multiplier
  let b := loDword multiplier
  let c := hiDword multiplicand
  let d := loDword multiplicand
  let ac := a * c
  let ad := a * d
  let bc := b * c
  let bd := b * d
  let adbc := ad + bc
  let adbcCarry : UInt64 := if adbc < ad then 1 else 0
  let productLo := bd + (adbc <<< 32)
  let productLoCarry : UInt64 := if productLo < bd then 1 else 0
  let productHi := ac + (adbc >>> 32) + (adbcCarry <<< 32) + productLoCarry
  (productLo, productHi)

/-- One limb of the long division: the quotient and the new remainder. -/
def divWithReminder (dividend : UInt64) (divisor remainder : UInt32) : UInt64 × UInt32 :=
  let dividend := dividend ||| (remainder.toUInt64 <<< 32)
  (dividend / divisor.toUInt64, (dividend % divisor.toUInt64).toUInt32)

/-- The high word of the quotient, its low word and the remainder. -/
def div128By32 (dividendHi dividendLo : UInt64) (divisor : UInt32) : UInt64 × UInt64 × UInt32 :=
  let (q3, r3) := divWithReminder (hiDword dividendHi) divisor 0
  let (q2, r2) := divWithReminder (loDword dividendHi) divisor r3
  let (q1, r1) := divWithReminder (hiDword dividendLo) divisor r2
  let (q0, r0) := divWithReminder (loDword dividendLo) divisor r1
  ((q3 <<< 32) ||| q2, (q1 <<< 32) ||| q0, r0)

@[simp] theorem toNat_hiDword (value : UInt64) :
    (hiDword value).toNat = value.toNat / 2 ^ 32 := by
  simp [hiDword, UInt64.toNat_shiftRight, Nat.shiftRight_eq_div_pow]

@[simp] theorem toNat_loDword (value : UInt64) :
    (loDword value).toNat = value.toNat % 2 ^ 32 := by
  have mask : (0xFFFFFFFF : UInt64).toNat = 2 ^ 32 - 1 := by decide
  rw [loDword, UInt64.toNat_and, mask, Nat.and_two_pow_sub_one_eq_mod]

private theorem product_limbs (x y : Nat) :
    x * y = (x / 2 ^ 32) * (y / 2 ^ 32) * 2 ^ 64
      + ((x / 2 ^ 32) * (y % 2 ^ 32) + (x % 2 ^ 32) * (y / 2 ^ 32)) * 2 ^ 32
      + (x % 2 ^ 32) * (y % 2 ^ 32) := by
  conv_lhs => rw [← div_add_mod x (2 ^ 32), ← div_add_mod y (2 ^ 32)]
  ring

private theorem limb_product_le {x y : Nat} (xBound : x < 2 ^ 32) (yBound : y < 2 ^ 32) :
    x * y ≤ (2 ^ 32 - 1) * (2 ^ 32 - 1) :=
  Nat.mul_le_mul (by omega) (by omega)

theorem mul128_exact (x y : UInt64) :
    (mul128 x y).1.toNat + 2 ^ 64 * (mul128 x y).2.toNat = x.toNat * y.toNat := by
  have xHigh : x.toNat / 2 ^ 32 < 2 ^ 32 := by have := x.toNat_lt; omega
  have yHigh : y.toNat / 2 ^ 32 < 2 ^ 32 := by have := y.toNat_lt; omega
  have xLow : x.toNat % 2 ^ 32 < 2 ^ 32 := mod_lt _ (by decide)
  have yLow : y.toNat % 2 ^ 32 < 2 ^ 32 := mod_lt _ (by decide)
  have acBound := limb_product_le xHigh yHigh
  have adBound := limb_product_le xHigh yLow
  have bcBound := limb_product_le xLow yHigh
  have bdBound := limb_product_le xLow yLow
  rw [product_limbs x.toNat y.toNat]
  simp only [mul128, UInt64.toNat_add, UInt64.toNat_mul, UInt64.toNat_shiftLeft,
    UInt64.toNat_shiftRight, UInt64.lt_iff_toNat_lt, toNat_hiDword, toNat_loDword,
    shiftLeft_eq, shiftRight_eq_div_pow]
  have thirtyTwo : (32 : UInt64).toNat % 64 = 32 := by decide
  rw [thirtyTwo]
  split <;> split <;> simp only [UInt64.toNat_one, UInt64.toNat_zero] <;> omega

/-! ### Long division -/

private theorem shifted_or {high low : Nat} (lowBound : low < 2 ^ 32) :
    low ||| high * 2 ^ 32 = high * 2 ^ 32 + low := by
  rw [lor_comm, ← shiftLeft_eq, shiftLeft_add_eq_or_of_lt lowBound]

theorem divWithReminder_exact (dividend : UInt64) (divisor remainder : UInt32)
    (limb : dividend.toNat < 2 ^ 32) (positive : 0 < divisor.toNat) :
    (divWithReminder dividend divisor remainder).1.toNat
        = (remainder.toNat * 2 ^ 32 + dividend.toNat) / divisor.toNat ∧
      (divWithReminder dividend divisor remainder).2.toNat
        = (remainder.toNat * 2 ^ 32 + dividend.toNat) % divisor.toNat := by
  have shift : (32 : UInt64).toNat % 64 = 32 := by decide
  have remainderBound := remainder.toNat_lt
  have divisorBound := divisor.toNat_lt
  have combined : (dividend ||| (remainder.toUInt64 <<< 32)).toNat
      = remainder.toNat * 2 ^ 32 + dividend.toNat := by
    rw [UInt64.toNat_or, UInt64.toNat_shiftLeft, shift, Nat.shiftLeft_eq,
      UInt32.toNat_toUInt64, mod_eq_of_lt (by omega), shifted_or limb]
  constructor
  · simp only [divWithReminder, UInt64.toNat_div, combined, UInt32.toNat_toUInt64]
  · simp only [divWithReminder, UInt64.toNat_toUInt32, UInt64.toNat_mod, combined,
      UInt32.toNat_toUInt64]
    exact Nat.mod_eq_of_lt (lt_trans (Nat.mod_lt _ positive) divisorBound)

private theorem limb_quotient_lt {remainder limb divisor : Nat}
    (remainderBound : remainder < divisor) (limbBound : limb < 2 ^ 32) :
    (remainder * 2 ^ 32 + limb) / divisor < 2 ^ 32 := by
  rw [div_lt_iff_lt_mul (by omega)]
  omega

private theorem two_limbs (remainder high low : Nat) {divisor : Nat} (positive : 0 < divisor) :
    ((remainder * 2 ^ 32 + high) / divisor) * 2 ^ 32
        + (((remainder * 2 ^ 32 + high) % divisor) * 2 ^ 32 + low) / divisor
      = (remainder * 2 ^ 64 + high * 2 ^ 32 + low) / divisor ∧
    (((remainder * 2 ^ 32 + high) % divisor) * 2 ^ 32 + low) % divisor
      = (remainder * 2 ^ 64 + high * 2 ^ 32 + low) % divisor := by
  obtain ⟨first, upper⟩ : ∃ first, first = remainder * 2 ^ 32 + high := ⟨_, rfl⟩
  rw [← upper]
  have whole : remainder * 2 ^ 64 + high * 2 ^ 32 + low
      = (first % divisor * 2 ^ 32 + low) + divisor * (first / divisor * 2 ^ 32) := by
    have split := div_add_mod first divisor
    calc remainder * 2 ^ 64 + high * 2 ^ 32 + low
        = first * 2 ^ 32 + low := by rw [upper]; ring
      _ = (divisor * (first / divisor) + first % divisor) * 2 ^ 32 + low := by rw [split]
      _ = _ := by ring
  rw [whole]
  constructor
  · rw [add_mul_div_left _ _ positive, add_comm]
  · rw [add_mul_mod_self_left]

private theorem joined_word {high low : UInt64} (highBound : high.toNat < 2 ^ 32)
    (lowBound : low.toNat < 2 ^ 32) :
    ((high <<< 32) ||| low).toNat = high.toNat * 2 ^ 32 + low.toNat := by
  have shift : (32 : UInt64).toNat % 64 = 32 := by decide
  rw [UInt64.toNat_or, UInt64.toNat_shiftLeft, shift, Nat.shiftLeft_eq,
    mod_eq_of_lt (by omega), lor_comm, shifted_or lowBound]

private theorem divWord_exact (word : UInt64) (divisor remainder : UInt32)
    (below : remainder.toNat < divisor.toNat) :
    let first := divWithReminder (hiDword word) divisor remainder
    let second := divWithReminder (loDword word) divisor first.2
    ((first.1 <<< 32) ||| second.1).toNat
        = (remainder.toNat * 2 ^ 64 + word.toNat) / divisor.toNat ∧
      second.2.toNat = (remainder.toNat * 2 ^ 64 + word.toNat) % divisor.toNat := by
  intro first second
  have positive : 0 < divisor.toNat := by omega
  have highLimb : (hiDword word).toNat < 2 ^ 32 := by
    rw [toNat_hiDword]
    have := word.toNat_lt
    omega
  have lowLimb : (loDword word).toNat < 2 ^ 32 := by
    rw [toNat_loDword]
    exact mod_lt _ (by decide)
  obtain ⟨firstQuotient, firstRemainder⟩ :=
    divWithReminder_exact (hiDword word) divisor remainder highLimb positive
  obtain ⟨secondQuotient, secondRemainder⟩ :=
    divWithReminder_exact (loDword word) divisor first.2 lowLimb positive
  have firstBelow : first.2.toNat < divisor.toNat := by
    rw [firstRemainder]
    exact mod_lt _ positive
  have spelled : word.toNat = word.toNat / 2 ^ 32 * 2 ^ 32 + word.toNat % 2 ^ 32 := by
    omega
  obtain ⟨quotients, remainders⟩ :=
    two_limbs remainder.toNat (word.toNat / 2 ^ 32) (word.toNat % 2 ^ 32) positive
  rw [add_assoc, ← spelled] at quotients remainders
  constructor
  · rw [joined_word, firstQuotient, secondQuotient, firstRemainder, toNat_hiDword,
      toNat_loDword, quotients]
    · rw [firstQuotient]
      exact limb_quotient_lt below highLimb
    · rw [secondQuotient]
      exact limb_quotient_lt firstBelow lowLimb
  · rw [secondRemainder, firstRemainder, toNat_hiDword, toNat_loDword, remainders]

theorem div128By32_exact (dividendHi dividendLo : UInt64) (divisor : UInt32)
    (positive : 0 < divisor.toNat) :
    2 ^ 64 * (div128By32 dividendHi dividendLo divisor).1.toNat
        + (div128By32 dividendHi dividendLo divisor).2.1.toNat
      = (2 ^ 64 * dividendHi.toNat + dividendLo.toNat) / divisor.toNat := by
  obtain ⟨highQuotient, highRemainder⟩ := divWord_exact dividendHi divisor 0 (by simpa using positive)
  obtain ⟨lowQuotient, _⟩ := divWord_exact dividendLo divisor
    (divWithReminder (loDword dividendHi) divisor
      (divWithReminder (hiDword dividendHi) divisor 0).2).2
    (by rw [highRemainder]; exact mod_lt _ positive)
  have split := div_add_mod dividendHi.toNat divisor.toNat
  simp only [div128By32]
  rw [highQuotient, lowQuotient, highRemainder]
  simp only [UInt32.toNat_zero, Nat.zero_mul, Nat.zero_add]
  have whole : 2 ^ 64 * dividendHi.toNat + dividendLo.toNat
      = (dividendHi.toNat % divisor.toNat * 2 ^ 64 + dividendLo.toNat)
        + divisor.toNat * (2 ^ 64 * (dividendHi.toNat / divisor.toNat)) := by
    calc 2 ^ 64 * dividendHi.toNat + dividendLo.toNat
        = 2 ^ 64 * (divisor.toNat * (dividendHi.toNat / divisor.toNat)
            + dividendHi.toNat % divisor.toNat) + dividendLo.toNat := by rw [split]
      _ = _ := by ring
  rw [whole, add_mul_div_left _ _ positive, add_comm]

end Mevacoin
