/-
The penalty on blocks above the median size. The two-word arithmetic gives the exact
quotient, which falls as the block grows.
-/

import Mevacoin.Reward

namespace Mevacoin
open UInt64 Nat

/-- The part of `medianSize ^ 2` that a block above the median keeps. -/
def keptShare (medianSize currentBlockSize : Nat) : Nat :=
  currentBlockSize * (2 * medianSize - currentBlockSize)

variable {amount : UInt64} {medianSize size larger : Nat}

section
variable (above : medianSize ≤ size)
include above

private theorem keptShare_eq :
    keptShare medianSize size = medianSize ^ 2 - (size - medianSize) ^ 2 := by
  rw [sq_sub_sq, keptShare]
  congr 1 <;> omega

private theorem keptShare_antitone (order : size ≤ larger) :
    keptShare medianSize larger ≤ keptShare medianSize size := by
  rw [keptShare_eq above, keptShare_eq (above.trans order)]
  apply Nat.sub_le_sub_left
  exact Nat.pow_le_pow_left (Nat.sub_le_sub_right order _) 2

private theorem keptShare_le :
    keptShare medianSize size ≤ medianSize ^ 2 := by
  rw [keptShare_eq above]
  exact sub_le _ _

private theorem penalized_le :
    amount.toNat * keptShare medianSize size / medianSize ^ 2 ≤ amount.toNat := by
  apply Nat.div_le_of_le_mul
  rw [Nat.mul_comm]
  exact mul_le_mul_right _ (keptShare_le above)

end

/-- A quotient that fits one word is the low word of the second division. -/
private theorem div128By32_twice (high low : UInt64) (divisor : UInt32)
    (positive : 0 < divisor.toNat)
    (fits : (2 ^ 64 * high.toNat + low.toNat) / divisor.toNat ^ 2 < 2 ^ 64) :
    (div128By32 (div128By32 high low divisor).1 (div128By32 high low divisor).2.1
        divisor).2.1.toNat
      = (2 ^ 64 * high.toNat + low.toNat) / divisor.toNat ^ 2 := by
  have second := div128By32_exact (div128By32 high low divisor).1
    (div128By32 high low divisor).2.1 divisor positive
  rw [div128By32_exact high low divisor positive, Nat.div_div_eq_div_mul, ← pow_two] at second
  omega

theorem getPenalizedAmount_of_le (within : size ≤ medianSize) :
    getPenalizedAmount amount medianSize size = amount := by
  unfold getPenalizedAmount
  split
  · next zero => exact zero.symm
  · rfl

theorem toNat_getPenalizedAmount (above : medianSize < size) (within : size ≤ 2 * medianSize)
    (bounded : size < 2 ^ 32) :
    (getPenalizedAmount amount medianSize size).toNat
      = amount.toNat * keptShare medianSize size / medianSize ^ 2 := by
  have divisor : (UInt32.ofNat medianSize).toNat = medianSize :=
    UInt32.toNat_ofNat_of_lt' (above.trans bounded)
  have share : (UInt64.ofNat (keptShare medianSize size)).toNat = keptShare medianSize size := by
    apply toNat_ofNat_of_lt'
    apply (keptShare_le above.le).trans_lt
    exact (Nat.pow_lt_pow_left (above.trans bounded) (by decide)).trans_eq (by norm_num)
  have product := mul128_exact amount (UInt64.ofNat (keptShare medianSize size))
  rw [add_comm, share] at product
  by_cases zero : amount = 0
  · simp [getPenalizedAmount, zero]
  · rw [getPenalizedAmount, if_neg zero, if_neg (by omega), ← keptShare]
    have twice := div128By32_twice
      (mul128 amount (UInt64.ofNat (keptShare medianSize size))).2
      (mul128 amount (UInt64.ofNat (keptShare medianSize size))).1
      (UInt32.ofNat medianSize)
    rw [product, divisor] at twice
    apply twice
    · omega
    · exact (penalized_le above.le).trans_lt amount.toNat_lt

theorem getPenalizedAmount_exact (amount : UInt64) (medianSize : Nat) :
    (∀ size, size ≤ medianSize → getPenalizedAmount amount medianSize size = amount) ∧
      (∀ size, medianSize < size → size ≤ 2 * medianSize → size < 2 ^ 32 →
        (getPenalizedAmount amount medianSize size).toNat
            = amount.toNat * size * (2 * medianSize - size) / medianSize ^ 2 ∧
          getPenalizedAmount amount medianSize size ≤ amount) ∧
      ∀ size larger, size ≤ larger → larger ≤ 2 * medianSize → larger < 2 ^ 32 →
        getPenalizedAmount amount medianSize larger
          ≤ getPenalizedAmount amount medianSize size := by
  have bound : ∀ size, medianSize < size → size ≤ 2 * medianSize → size < 2 ^ 32 →
      getPenalizedAmount amount medianSize size ≤ amount := by
    intro size above within bounded
    rw [le_iff_toNat_le, toNat_getPenalizedAmount above within bounded]
    exact penalized_le above.le
  refine ⟨fun size => getPenalizedAmount_of_le, ?_, ?_⟩
  · intro size above within bounded
    refine ⟨?_, bound size above within bounded⟩
    rw [toNat_getPenalizedAmount above within bounded, keptShare, ← mul_assoc]
  · intro size larger order within bounded
    by_cases above : medianSize < size
    · rw [le_iff_toNat_le, toNat_getPenalizedAmount (by omega) within bounded,
        toNat_getPenalizedAmount above (by omega) (by omega)]
      apply Nat.div_le_div_right
      exact Nat.mul_le_mul_left _ (keptShare_antitone above.le order)
    · rw [getPenalizedAmount_of_le (not_lt.mp above)]
      by_cases exceeds : medianSize < larger
      · exact bound larger exceeds within bounded
      · rw [getPenalizedAmount_of_le (not_lt.mp exceeds)]
        exact UInt64.le_refl amount

end Mevacoin
