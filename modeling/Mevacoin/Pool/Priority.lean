/-
The order of the pool. On encoded transactions the comparator is the order by exact
fee per byte, then by size, then by the time of receipt, and so a strict weak order.
-/

import Mathlib.Data.Prod.Lex
import Mathlib.Data.Rat.Cast.Order
import Mevacoin.Pool.TransactionPool

namespace Mevacoin
open UInt64 (lt_iff_toNat_lt ofNat toNat_inj)

namespace PendingTransactionInfo

def blobSize (pending : PendingTransactionInfo) : Nat :=
  pending.cachedTransaction.binaryArray.length

def fee (pending : PendingTransactionInfo) : UInt64 :=
  pending.cachedTransaction.getTransactionFee

def price (pending : PendingTransactionInfo) : ℚ :=
  pending.fee.toNat / pending.blobSize

/-- A nonempty encoding whose length is a machine word. -/
def Encoded (pending : PendingTransactionInfo) : Prop :=
  0 < pending.blobSize ∧ pending.blobSize < 2 ^ 64

/-- Smaller keys come first, so the price is taken upside down. -/
def costKey (pending : PendingTransactionInfo) : ℚᵒᵈ ×ₗ ℕ ×ₗ ℕ :=
  toLex (OrderDual.toDual pending.price, toLex (pending.blobSize, pending.receiveTime.toNat))

variable {left right : PendingTransactionInfo}

theorem costKey_lt_iff : left.costKey < right.costKey ↔
    right.price < left.price ∨ left.price = right.price ∧
      (left.blobSize < right.blobSize ∨
        left.blobSize = right.blobSize ∧ left.receiveTime < right.receiveTime) := by
  simp only [costKey, Prod.Lex.toLex_lt_toLex, OrderDual.toDual_lt_toDual,
    OrderDual.toDual_inj, lt_iff_toNat_lt]

/-- Two products in words compare as the products themselves. -/
private theorem words_compare (a b c d : UInt64) :
    ((mul128 a b).2 > (mul128 c d).2 ∨
        (mul128 a b).2 = (mul128 c d).2 ∧ (mul128 a b).1 > (mul128 c d).1 ↔
      c.toNat * d.toNat < a.toNat * b.toNat) ∧
    ((mul128 a b).2 = (mul128 c d).2 ∧ (mul128 a b).1 = (mul128 c d).1 ↔
      a.toNat * b.toNat = c.toNat * d.toNat) := by
  rw [← mul128_exact a b, ← mul128_exact c d]
  have first := (mul128 a b).1.toNat_lt
  have second := (mul128 c d).1.toNat_lt
  simp only [gt_iff_lt, lt_iff_toNat_lt, ← toNat_inj]
  omega

private theorem prices_compare (first : left.Encoded) (second : right.Encoded) :
    (right.price < left.price ↔ right.fee.toNat * left.blobSize < left.fee.toNat * right.blobSize) ∧
    (left.price = right.price ↔
      left.fee.toNat * right.blobSize = right.fee.toNat * left.blobSize) := by
  have leftPositive : (0 : ℚ) < left.blobSize := Nat.cast_pos.mpr first.1
  have rightPositive : (0 : ℚ) < right.blobSize := Nat.cast_pos.mpr second.1
  unfold price
  rw [div_lt_div_iff₀ rightPositive leftPositive, div_eq_div_iff leftPositive.ne' rightPositive.ne']
  norm_cast

theorem hasPriority_iff (first : left.Encoded) (second : right.Encoded) :
    left.hasPriority right = true ↔ left.costKey < right.costKey := by
  have leftSize : (ofNat left.blobSize).toNat = left.blobSize :=
    UInt64.toNat_ofNat_of_lt' first.2
  have rightSize : (ofNat right.blobSize).toNat = right.blobSize :=
    UInt64.toNat_ofNat_of_lt' second.2
  have words := words_compare left.fee (ofNat right.blobSize) right.fee
    (ofNat left.blobSize)
  have prices := prices_compare first second
  rw [leftSize, rightSize] at words
  rw [costKey_lt_iff, prices.1, prices.2, ← words.1, ← words.2]
  have smaller : left.blobSize < right.blobSize ↔
      ofNat left.blobSize < ofNat right.blobSize := by
    rw [lt_iff_toNat_lt, leftSize, rightSize]
  have sameSize : left.blobSize = right.blobSize ↔
      ofNat left.blobSize = ofNat right.blobSize := by
    rw [← toNat_inj, leftSize, rightSize]
  rw [smaller, sameSize]
  simp only [hasPriority, Bool.or_eq_true, Bool.and_eq_true, decide_eq_true_eq]
  unfold fee blobSize
  grind

theorem hasPriority_strictWeakOrder :
    IsStrictWeakOrder { pending : PendingTransactionInfo // pending.Encoded }
        (fun left right => left.1.hasPriority right.1) ∧
      ∀ left right : PendingTransactionInfo, left.Encoded → right.Encoded →
        (left.hasPriority right = true ↔
          right.price < left.price ∨ left.price = right.price ∧
            (left.blobSize < right.blobSize ∨
              left.blobSize = right.blobSize ∧ left.receiveTime < right.receiveTime)) := by
  constructor
  · have byKey : (fun left right : { pending : PendingTransactionInfo // pending.Encoded } =>
        left.1.hasPriority right.1 = true) = fun left right => left.1.costKey < right.1.costKey := by
      funext left right
      exact propext (hasPriority_iff left.2 right.2)
    rw [byKey]
    exact {
      irrefl := fun _ => lt_irrefl _
      trans := fun _ _ _ => lt_trans
      incomp_trans := by
        intro first second third before after
        simp only [not_lt] at before after ⊢
        exact ⟨after.1.trans before.1, before.2.trans after.2⟩ }
  · intro left right first second
    rw [hasPriority_iff first second, costKey_lt_iff]

end PendingTransactionInfo
end Mevacoin
