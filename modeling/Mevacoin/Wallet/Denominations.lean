/-
Amounts as they are split into outputs. The wallet splits an amount into its digits, and
so does the node.
-/

import Mevacoin.Core.TransactionSums
import Mevacoin.Lib.Decimal
import Mevacoin.Wallet.Transfer

namespace Mevacoin
open List UInt64 Nat Decimal

namespace SendTransaction

private theorem toNat_mul_of_fits {left right : UInt64}
    (fits : left.toNat * right.toNat < 2 ^ 64) : (left * right).toNat = left.toNat * right.toNat := by
  exact mod_eq_of_lt fits

private theorem toNat_mod_ten (amount : UInt64) : (amount % 10).toNat = amount.toNat % 10 :=
  UInt64.toNat_mod amount 10

private theorem toNat_div_ten (amount : UInt64) : (amount / 10).toNat = amount.toNat / 10 :=
  UInt64.toNat_div amount 10

/-! ### Digits of a word -/

section Digits
variable {amount scale : UInt64}

theorem splitDigits_zero (rounds : Nat) (scale : UInt64) : splitDigits rounds scale 0 = [] := by
  cases rounds <;> rfl

theorem toNat_digit (fits : amount.toNat * scale.toNat < 2 ^ 64) :
    (scale * (amount % 10)).toNat = amount.toNat % 10 * scale.toNat := by
  have bound : amount.toNat % 10 * scale.toNat ≤ amount.toNat * scale.toNat :=
    mul_le_mul_right _ (mod_le _ _)
  rw [toNat_mul_of_fits, toNat_mod_ten, mul_comm]
  rw [toNat_mod_ten, mul_comm]
  omega

theorem toNat_next_scale (fits : amount.toNat * scale.toNat < 2 ^ 64) (more : amount / 10 ≠ 0) :
    (scale * 10).toNat = scale.toNat * 10 ∧
      (amount / 10).toNat * (scale * 10).toNat ≤ amount.toNat * scale.toNat := by
  have positive : 1 ≤ amount.toNat / 10 := by
    rw [← toNat_div_ten, one_le_iff_ne_zero]
    exact fun zero => more (UInt64.toNat_inj.mp zero)
  have bound : amount.toNat / 10 * (scale.toNat * 10) ≤ amount.toNat * scale.toNat := by
    calc
      amount.toNat / 10 * (scale.toNat * 10) = amount.toNat / 10 * 10 * scale.toNat := by ring
      _ ≤ amount.toNat * scale.toNat := mul_le_mul_right _ (div_mul_le_self _ _)
  have next : (scale * 10).toNat = scale.toNat * 10 := by
    refine toNat_mul_of_fits (lt_of_le_of_lt ?_ fits)
    exact (Nat.le_mul_of_pos_left _ positive).trans bound
  rw [next, toNat_div_ten]
  exact ⟨rfl, bound⟩

theorem map_toNat_splitDigits (rounds : Nat) (positive : 0 < scale.toNat)
    (fits : amount.toNat * scale.toNat < 2 ^ 64) :
    (splitDigits rounds scale amount).map UInt64.toNat = parts rounds scale.toNat amount.toNat := by
  induction rounds generalizing amount scale with
  | zero => rfl
  | succ rounds ih =>
    rw [splitDigits]
    split
    · rename_i zero
      rw [zero]
      exact (parts_zero _ _).symm
    · have digit := toNat_digit fits
      have rest : (splitDigits rounds (scale * 10) (amount / 10)).map UInt64.toNat
          = parts rounds (scale.toNat * 10) (amount.toNat / 10) := by
        by_cases last : amount / 10 = 0
        · rw [last, splitDigits_zero, ← toNat_div_ten, last]
          exact (parts_zero _ _).symm
        · obtain ⟨next, less⟩ := toNat_next_scale fits last
          rw [ih (by omega) (less.trans_lt fits), next, toNat_div_ten]
      have nonzero : scale * (amount % 10) ≠ 0 ↔ amount.toNat % 10 ≠ 0 := by
        rw [Ne, ← UInt64.toNat_inj, digit, UInt64.toNat_zero, Nat.mul_eq_zero, not_or]
        exact and_iff_left (by omega)
      rw [parts, map_append, rest]
      by_cases empty : amount.toNat % 10 = 0
      · rw [if_neg (by rw [nonzero]; exact not_not.mpr empty), if_neg (not_not.mpr empty)]
        rfl
      · rw [if_pos (nonzero.mpr empty), if_pos empty, map_singleton, digit]

end Digits

theorem map_toNat_splitAmount (amount : UInt64) :
    (splitAmountIntoDenominations amount).map UInt64.toNat = parts 20 1 amount.toNat :=
  map_toNat_splitDigits 20 Nat.one_pos (by rw [UInt64.toNat_one, Nat.mul_one]; exact amount.toNat_lt)

theorem totalAmount_splitAmount (amount : UInt64) :
    totalAmount (splitAmountIntoDenominations amount) = amount.toNat := by
  have bound : amount.toNat < 10 ^ 20 := lt_trans amount.toNat_lt (by decide)
  rw [totalAmount, map_toNat_splitAmount, sum_parts 1 bound, Nat.mul_one]

theorem isPart_of_mem_splitAmount {amount denomination : UInt64}
    (member : denomination ∈ splitAmountIntoDenominations amount) :
    Decimal.IsPart denomination.toNat := by
  have isPart := mem_map_of_mem (f := UInt64.toNat) member
  rw [map_toNat_splitAmount] at isPart
  exact (@Decimal.mem_parts 20 0 _ _ isPart).2

theorem sorted_splitAmount (amount : UInt64) :
    (splitAmountIntoDenominations amount).Pairwise (· ≤ ·) := by
  have sorted := sorted_parts 20 0 amount.toNat
  rw [pow_zero, ← map_toNat_splitAmount, pairwise_map] at sorted
  exact sorted.imp le_iff_toNat_le.mpr

/-! ### The node's decomposition -/

section Dust
variable {threshold amount order dust : UInt64}

theorem decomposeDigits_zero (threshold : UInt64) (rounds : Nat) (order dust : UInt64)
    (handled : Bool) : decomposeDigits threshold rounds 0 order dust handled
      = if !handled && dust ≠ 0 then [dust] else [] := by
  cases rounds <;> rfl

theorem toNat_dust_add (fits : dust.toNat + amount.toNat * order.toNat < 2 ^ 64) :
    (dust + amount % 10 * order).toNat = dust.toNat + amount.toNat % 10 * order.toNat := by
  have bound : amount.toNat % 10 * order.toNat ≤ amount.toNat * order.toNat :=
    mul_le_mul_right _ (mod_le _ _)
  rw [UInt64.toNat_add, UInt64.mul_comm, toNat_digit (by omega), mod_eq_of_lt (by omega)]

/-- Behind the first digit above the threshold every digit is a chunk. -/
theorem decomposeDigits_chunks (rounds : Nat) {handled : Bool} (isDust : dust ≤ threshold)
    (fits : dust.toNat + amount.toNat * order.toNat < 2 ^ 64)
    (high : threshold.toNat < dust.toNat + order.toNat) (done : (!handled && dust ≠ 0) = false) :
    decomposeDigits threshold rounds amount order dust handled = splitDigits rounds order amount := by
  induction rounds generalizing amount order with
  | zero => rw [decomposeDigits, splitDigits, done]; rfl
  | succ rounds ih =>
    have rest : decomposeDigits threshold rounds (amount / 10) (order * 10) dust handled
        = splitDigits rounds (order * 10) (amount / 10) := by
      by_cases last : amount / 10 = 0
      · rw [last, decomposeDigits_zero, splitDigits_zero, done]
        rfl
      · obtain ⟨scaled, less⟩ := toNat_next_scale (lt_of_le_of_lt (le_add_left _ _) fits) last
        exact ih (by omega) (by omega)
    rw [decomposeDigits, splitDigits, UInt64.mul_comm order (amount % 10)]
    split
    · rw [done]
      rfl
    · by_cases none : amount % 10 * order = 0
      · simp only [none, UInt64.add_zero, if_pos isDust, ne_eq, not_true_eq_false, if_false,
          nil_append]
        exact rest
      · have digit : 0 < amount.toNat % 10 := by
          rw [pos_iff_ne_zero, ← toNat_mod_ten]
          intro zero
          rw [show amount % 10 = 0 from UInt64.toNat_inj.mp zero, UInt64.zero_mul] at none
          exact none rfl
        have above : ¬dust + amount % 10 * order ≤ threshold := by
          have large := Nat.le_mul_of_pos_left order.toNat digit
          rw [le_iff_toNat_le, toNat_dust_add fits]
          omega
        have flag : (handled || dust ≠ 0) = handled := by
          cases handled
          · exact done
          · rfl
        simp only [if_neg above, done, flag, rest, ne_eq, none, not_false_eq_true, if_true]
        rfl

theorem map_toNat_dust (dust : UInt64) :
    (if !false && dust ≠ 0 then [dust] else []).map UInt64.toNat
      = if dust.toNat ≠ 0 then [dust.toNat] else [] := by
  by_cases zero : dust = 0
  · simp [zero]
  · have nonzero : dust.toNat ≠ 0 := fun same => zero (UInt64.toNat_inj.mp same)
    simp [zero, nonzero]

/-- The digits of the first places are added up as dust, each other digit is a chunk. -/
theorem decomposeDigits_parts (rounds : Nat) (isDust : dust ≤ threshold) (positive : 0 < order.toNat)
    (fits : dust.toNat + amount.toNat * order.toNat < 2 ^ 64) :
    ∃ places ≤ rounds, ∃ low ≤ threshold.toNat,
      low = dust.toNat + amount.toNat % 10 ^ places * order.toNat ∧
      (decomposeDigits threshold rounds amount order dust false).map UInt64.toNat
        = (if low ≠ 0 then [low] else [])
          ++ parts (rounds - places) (order.toNat * 10 ^ places)
            (amount.toNat / 10 ^ places) := by
  have bound := le_iff_toNat_le.mp isDust
  have alone : dust.toNat = dust.toNat + amount.toNat % 10 ^ 0 * order.toNat := by
    rw [pow_zero, mod_one, Nat.zero_mul, Nat.add_zero]
  induction rounds generalizing amount order dust with
  | zero =>
    refine ⟨0, zero_le _, dust.toNat, bound, alone, ?_⟩
    rw [decomposeDigits, map_toNat_dust, parts, append_nil]
  | succ rounds ih =>
    by_cases finished : amount = 0
    · refine ⟨0, zero_le _, dust.toNat, bound, alone, ?_⟩
      rw [finished, decomposeDigits_zero, map_toNat_dust, UInt64.toNat_zero, Nat.zero_div,
        parts_zero, append_nil]
    have inside : amount.toNat * order.toNat < 2 ^ 64 := lt_of_le_of_lt (le_add_left _ _) fits
    have added := toNat_dust_add fits
    rw [decomposeDigits, if_neg finished]
    by_cases below : dust + amount % 10 * order ≤ threshold
    · have addedBound := le_iff_toNat_le.mp below
      rw [if_pos below]
      by_cases last : amount / 10 = 0
      · have single : amount.toNat / 10 = 0 := by
          rw [← toNat_div_ten, last]
          rfl
        refine ⟨1, by omega, _, addedBound, by rw [added, pow_one], ?_⟩
        rw [last, decomposeDigits_zero, map_toNat_dust, pow_one, single, parts_zero, append_nil]
      · obtain ⟨scaled, less⟩ := toNat_next_scale inside last
        obtain ⟨places, within, low, lowBound, isLow, result⟩ := @ih (amount / 10) (order * 10)
          (dust + amount % 10 * order) below (by omega) (by
            have whole : amount.toNat % 10 * order.toNat
                + amount.toNat / 10 * (order.toNat * 10) = amount.toNat * order.toNat := by
              rw [← Nat.mul_assoc, Nat.mul_right_comm, ← Nat.add_mul, Nat.mul_comm _ 10, mod_add_div]
            rw [added, scaled, toNat_div_ten]
            omega) addedBound (by rw [pow_zero, mod_one, Nat.zero_mul, Nat.add_zero])
        refine ⟨places + 1, by omega, low, lowBound, ?_, ?_⟩
        · rw [isLow, added, scaled, toNat_div_ten, pow_succ', mod_mul]
          ring
        · rw [result, scaled, toNat_div_ten, Nat.add_sub_add_right, Nat.div_div_eq_div_mul,
            ← pow_succ', Nat.mul_assoc, ← pow_succ']
    · have above := below
      rw [le_iff_toNat_le, added] at above
      have rest : decomposeDigits threshold rounds (amount / 10) (order * 10) dust
          (false || dust ≠ 0) = splitDigits rounds (order * 10) (amount / 10) := by
        have done : (!(false || decide (dust ≠ 0)) && decide (dust ≠ 0)) = false := by simp
        by_cases last : amount / 10 = 0
        · rw [last, decomposeDigits_zero, splitDigits_zero, done]
          rfl
        · obtain ⟨scaled, less⟩ := toNat_next_scale inside last
          have digit : amount.toNat % 10 * order.toNat ≤ 9 * order.toNat :=
            mul_le_mul_right _ (le_of_lt_succ (mod_lt _ (by decide)))
          exact decomposeDigits_chunks rounds isDust (by omega) (by omega) done
      refine ⟨0, zero_le _, dust.toNat, bound, alone, ?_⟩
      have whole := map_toNat_splitDigits (rounds + 1) positive inside
      rw [splitDigits, if_neg finished, UInt64.mul_comm order] at whole
      rw [if_neg below, append_assoc, rest, map_append, map_toNat_dust, whole, pow_zero,
        Nat.mul_one, Nat.div_one]
      rfl

end Dust

theorem decomposedParts (amount threshold : UInt64) :
    ∃ places ≤ 20, ∃ low ≤ threshold.toNat, low = amount.toNat % 10 ^ places ∧
      (decomposeAmountIntoDigits amount threshold).map UInt64.toNat
        = (if low ≠ 0 then [low] else [])
          ++ parts (20 - places) (10 ^ places) (amount.toNat / 10 ^ places) := by
  have parts := @decomposeDigits_parts threshold amount 1 0 20 (le_iff_toNat_le.mpr (zero_le _))
    one_pos
  simp only [UInt64.toNat_one, Nat.mul_one, Nat.one_mul, UInt64.toNat_zero, Nat.zero_add] at parts
  exact parts amount.toNat_lt

theorem decomposeAmountIntoDigits_eq {threshold : UInt64} (small : threshold.toNat ≤ 10)
    (amount : UInt64) :
    decomposeAmountIntoDigits amount threshold = splitAmountIntoDenominations amount := by
  obtain ⟨places, within, low, bound, isLow, result⟩ := decomposedParts amount threshold
  apply map_injective_iff.mpr (fun _ _ => UInt64.toNat_inj.mp)
  have whole := parts_split places (20 - places) 1 amount.toNat
  rw [Nat.add_sub_cancel' within, ← isLow, Nat.one_mul, parts_of_le_ten (bound.trans small)
    (isLow ▸ mod_lt _ (pow_pos (by decide) _))] at whole
  rw [map_toNat_splitAmount, whole]
  exact result

end SendTransaction
end Mevacoin
