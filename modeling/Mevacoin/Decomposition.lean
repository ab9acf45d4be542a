/-
Splitting amounts conserves them: the pieces of an amount add up to it for every dust
threshold, the miner's merging of pieces keeps their sum, and a fusion transaction pays
out exactly what it takes in.
-/

import Mevacoin.Wallet.Fusion

namespace Mevacoin
open List SendTransaction

theorem totalAmount_decompose (amount threshold : UInt64) :
    totalAmount (decomposeAmountIntoDigits amount threshold) = amount.toNat := by
  obtain ⟨places, within, low, _, isLow, result⟩ := decomposedParts amount threshold
  have high : amount.toNat / 10 ^ places < 10 ^ (20 - places) := by
    rw [Nat.div_lt_iff_lt_mul (pow_pos (by decide) _), ← pow_add, Nat.sub_add_cancel within]
    exact amount.toNat_lt.trans (by decide)
  have dust : (if low ≠ 0 then [low] else []).sum = low := by
    by_cases zero : low = 0 <;> simp [zero]
  rw [totalAmount, result, sum_append, dust, Decimal.sum_parts _ high, isLow, Nat.mul_comm,
    Nat.mod_add_div]

theorem zero_not_mem_decompose (amount threshold : UInt64) :
    0 ∉ decomposeAmountIntoDigits amount threshold := by
  obtain ⟨places, _, low, _, _, result⟩ := decomposedParts amount threshold
  intro member
  have isPiece := mem_map_of_mem (f := UInt64.toNat) member
  rw [result, mem_append] at isPiece
  rcases isPiece with isDust | isChunk
  · split at isDust
    · rename_i nonzero
      exact nonzero (mem_singleton.mp isDust).symm
    · cases isDust
  · exact absurd (Decimal.mem_parts isChunk).2.pos (by decide)

/-- The closed form of the merging loop agrees with a round of it. -/
theorem limitOuts_merge {maxOuts : Nat} {front : List UInt64} (last surplus : UInt64)
    (positive : 1 ≤ maxOuts) (more : maxOuts < front.length + 2) :
    limitOuts maxOuts (front ++ [last, surplus]) = limitOuts maxOuts (front ++ [last + surplus]) := by
  have inside : maxOuts - 1 ≤ front.length := by omega
  unfold limitOuts
  rw [take_append_of_le_length inside, take_append_of_le_length inside,
    drop_append_of_le_length inside, drop_append_of_le_length inside, if_pos (by simpa using more)]
  split
  · simp
  · rename_i few
    have whole : maxOuts - 1 = front.length := by
      rw [length_append, length_singleton] at few
      omega
    simp [whole]

theorem limitOuts_conserves {maxOuts : Nat} {outs : List UInt64} (positive : 1 ≤ maxOuts)
    (fits : totalAmount outs < 2 ^ 64) :
    (limitOuts maxOuts outs).length ≤ maxOuts ∧ totalAmount (limitOuts maxOuts outs) = totalAmount outs := by
  unfold limitOuts
  split
  · have whole := totalAmount_append (outs.take (maxOuts - 1)) (outs.drop (maxOuts - 1))
    rw [take_append_drop] at whole
    rw [length_append, length_take, totalAmount_append, totalAmount_cons,
      toNat_sum_of_lt (by omega), whole]
    exact ⟨by rw [length_singleton]; omega, rfl⟩
  · exact ⟨by omega, rfl⟩

/-- Pieces of an amount, outputs of a coinbase and outputs of a fusion transaction. -/
theorem amounts_conserved :
    (∀ amount threshold : UInt64, 0 ∉ decomposeAmountIntoDigits amount threshold ∧
      totalAmount (decomposeAmountIntoDigits amount threshold) = amount.toNat ∧
      ∃ dust ≤ threshold.toNat, ∃ chunks, (∀ chunk ∈ chunks, Decimal.IsPart chunk) ∧
        (decomposeAmountIntoDigits amount threshold).map UInt64.toNat
          = (if dust ≠ 0 then [dust] else []) ++ chunks) ∧
    (∀ maxOuts height (reward : UInt64), 1 ≤ maxOuts →
      (limitOuts maxOuts (decomposeAmountIntoDigits reward
        (Currency.defaultDustThreshold height))).length ≤ maxOuts ∧
      totalAmount (limitOuts maxOuts (decomposeAmountIntoDigits reward
        (Currency.defaultDustThreshold height))) = reward.toNat) ∧
    ∀ inputs outputs size height, totalAmount inputs < 2 ^ 64 →
      Currency.isFusionTransaction inputs outputs size height = true →
      0 ∉ outputs ∧ outputs.Pairwise (· ≤ ·) ∧ totalAmount outputs = totalAmount inputs := by
  refine ⟨fun amount threshold => ⟨zero_not_mem_decompose amount threshold,
    totalAmount_decompose amount threshold, ?_⟩, fun maxOuts height reward positive => ?_, ?_⟩
  · obtain ⟨places, _, dust, bound, _, result⟩ := decomposedParts amount threshold
    exact ⟨dust, bound, _, fun chunk member => (Decimal.mem_parts member).2, result⟩
  · have total := totalAmount_decompose reward (Currency.defaultDustThreshold height)
    rw [← total]
    exact limitOuts_conserves positive (total ▸ reward.toNat_lt)
  · intro inputs outputs size height fits isFusion
    obtain ⟨_, _, _, _, rfl⟩ := Currency.isFusionTransaction_eq_true.mp isFusion
    rw [Currency.sortAmounts_decompose]
    refine ⟨fun zero => ?_, sorted_splitAmount _, ?_⟩
    · exact absurd (isPart_of_mem_splitAmount zero).pos (by decide)
    · rw [totalAmount_splitAmount, toNat_sum_of_lt fits]

end Mevacoin
