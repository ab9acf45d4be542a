/-
Sums in transactions. The semantic checks add amounts in 64-bit arithmetic and refuse to
overflow, so that the sums and the fee are exact; the packed output indexes are added in
32-bit arithmetic without a check.
-/

import Mathlib.Algebra.Order.BigOperators.Group.List
import Mevacoin.Core.Validate

namespace Mevacoin
open List Checked Nat

/-! ### Amounts -/

def totalAmount (amounts : List UInt64) : Nat := (amounts.map UInt64.toNat).sum

theorem totalAmount_cons (amount : UInt64) (amounts : List UInt64) :
    totalAmount (amount :: amounts) = amount.toNat + totalAmount amounts := rfl

theorem totalAmount_append (first second : List UInt64) :
    totalAmount (first ++ second) = totalAmount first + totalAmount second := by
  unfold totalAmount
  rw [map_append, sum_append]

theorem toNat_sum_eq (amounts : List UInt64) :
    amounts.sum.toNat = totalAmount amounts % 2 ^ 64 := by
  induction amounts with
  | nil => rfl
  | cons amount amounts ih =>
    rw [sum_cons, UInt64.toNat_add, ih, totalAmount_cons, Nat.add_mod_mod]

theorem toNat_sum_of_lt {amounts : List UInt64} (fits : totalAmount amounts < 2 ^ 64) :
    amounts.sum.toNat = totalAmount amounts := by
  rw [toNat_sum_eq, mod_eq_of_lt fits]

theorem totalAmount_perm {left right : List UInt64} (perm : left.Perm right) :
    totalAmount left = totalAmount right :=
  (perm.map UInt64.toNat).sum_eq

theorem totalAmount_sublist {part whole : List UInt64} (sublist : part.Sublist whole) :
    totalAmount part ≤ totalAmount whole :=
  (sublist.map UInt64.toNat).sum_le_sum (fun _ _ => zero_le _)

theorem le_totalAmount {amount : UInt64} {amounts : List UInt64} (member : amount ∈ amounts) :
    amount.toNat ≤ totalAmount amounts :=
  single_le_sum (fun _ _ => zero_le _) _ (mem_map_of_mem member)

namespace Transaction

def outputAmounts (transaction : Transaction) : List UInt64 :=
  transaction.outputs.map TransactionOutput.amount

def inputAmounts (transaction : Transaction) : List UInt64 :=
  transaction.keyInputs.map KeyInput.amount

end Transaction

section Amounts
variable {primitives : Primitives}

private theorem amount_fits {sum amount : UInt64} (fits : ¬maxAmount - amount < sum) :
    sum.toNat + amount.toNat < 2 ^ 64 := by
  rw [UInt64.not_lt, UInt64.le_iff_toNat_le, UInt64.toNat_sub_of_le] at fits
  · have bound := amount.toNat_lt
    have largest : maxAmount.toNat = 2 ^ 64 - 1 := rfl
    omega
  · rw [UInt64.le_iff_toNat_le]
    have bound := amount.toNat_lt
    have largest : maxAmount.toNat = 2 ^ 64 - 1 := rfl
    omega

private theorem toNat_add_of_fits {sum amount : UInt64}
    (fits : sum.toNat + amount.toNat < 2 ^ 64) : (sum + amount).toNat = sum.toNat + amount.toNat := by
  exact mod_eq_of_lt fits

theorem addOutputAmount_eq_ok {sum next : UInt64} {output : TransactionOutput}
    (ran : addOutputAmount primitives sum output = .ok next) :
    next.toNat = sum.toNat + output.amount.toNat := by
  obtain ⟨-, ran⟩ := rejectIf_bind_eq_ok.mp ran
  obtain ⟨-, ran⟩ := rejectIf_bind_eq_ok.mp ran
  obtain ⟨fits, ran⟩ := rejectIf_bind_eq_ok.mp ran
  cases ran
  exact toNat_add_of_fits (amount_fits fits)

theorem sumOutputs_eq_ok {outputs : List TransactionOutput} {sum total : UInt64}
    (ran : outputs.foldlM (addOutputAmount primitives) sum = .ok total) :
    total.toNat = sum.toNat + totalAmount (outputs.map TransactionOutput.amount) := by
  induction outputs generalizing sum with
  | nil =>
    cases ran
    rfl
  | cons output outputs ih =>
    obtain ⟨next, first, rest⟩ := foldlM_cons_eq_ok.mp ran
    rw [ih rest, addOutputAmount_eq_ok first, map_cons, totalAmount_cons, add_assoc]

/-- What the semantic checks establish about a key input. -/
structure WellPacked (input : KeyInput) : Prop where
  nonempty : input.outputIndexes ≠ []
  offsets : 0 ∉ input.outputIndexes.tail

theorem addInputAmount_eq_ok {met next : List KeyImage × UInt64} {input : TransactionInput}
    (ran : addInputAmount primitives met input = .ok next) :
    ∃ keyInput, input = .key keyInput ∧ WellPacked keyInput ∧
      next.2.toNat = met.2.toNat + keyInput.amount.toNat := by
  cases input with
  | base blockIndex => cases ran
  | key keyInput =>
    obtain ⟨-, ran⟩ := rejectIf_bind_eq_ok.mp ran
    obtain ⟨nonempty, ran⟩ := rejectIf_bind_eq_ok.mp ran
    obtain ⟨-, ran⟩ := rejectIf_bind_eq_ok.mp ran
    obtain ⟨offsets, ran⟩ := rejectIf_bind_eq_ok.mp ran
    obtain ⟨fits, ran⟩ := rejectIf_bind_eq_ok.mp ran
    cases ran
    exact ⟨keyInput, rfl, ⟨nonempty, offsets⟩, toNat_add_of_fits (amount_fits fits)⟩

theorem sumInputs_eq_ok {inputs : List TransactionInput} {met result : List KeyImage × UInt64}
    (ran : inputs.foldlM (addInputAmount primitives) met = .ok result) :
    (∀ input ∈ inputs, ∃ keyInput, input = .key keyInput ∧ WellPacked keyInput) ∧
      result.2.toNat = met.2.toNat
        + totalAmount ((inputs.filterMap TransactionInput.keyInput?).map KeyInput.amount) := by
  induction inputs generalizing met with
  | nil =>
    cases ran
    refine ⟨?_, rfl⟩
    intro input member
    cases member
  | cons input inputs ih =>
    obtain ⟨next, first, rest⟩ := foldlM_cons_eq_ok.mp ran
    obtain ⟨keyInput, isKey, packed, sum⟩ := addInputAmount_eq_ok first
    obtain ⟨others, total⟩ := ih rest
    subst isKey
    constructor
    · intro other member
      rcases mem_cons.mp member with isFirst | later
      · exact ⟨keyInput, isFirst, packed⟩
      · exact others other later
    · rw [total, sum, add_assoc]
      rfl

/-- What the semantic checks establish: only well-packed key inputs, and the fee is what the
inputs have more than the outputs. -/
structure ValidSemantic (transaction : Transaction) (fee : UInt64) : Prop where
  inputs : ∀ input ∈ transaction.inputs, ∃ keyInput, input = .key keyInput ∧ WellPacked keyInput
  balance : totalAmount transaction.outputAmounts + fee.toNat = totalAmount transaction.inputAmounts

theorem validateSemantic_eq_ok {transaction : Transaction} {fee : UInt64}
    (ran : validateSemantic primitives transaction = .ok fee) :
    ValidSemantic transaction fee := by
  obtain ⟨-, ran⟩ := rejectIf_bind_eq_ok.mp ran
  obtain ⟨outputSum, outputs, ran⟩ := bind_eq_ok.mp ran
  obtain ⟨⟨met, inputSum⟩, inputs, ran⟩ := bind_eq_ok.mp ran
  obtain ⟨enough, ran⟩ := rejectIf_bind_eq_ok.mp ran
  cases ran
  obtain ⟨areKeys, inputTotal⟩ := sumInputs_eq_ok inputs
  have outputTotal := sumOutputs_eq_ok outputs
  refine ⟨areKeys, ?_⟩
  have zero : (0 : UInt64).toNat = 0 := rfl
  rw [zero, zero_add] at inputTotal outputTotal
  change totalAmount (transaction.outputs.map TransactionOutput.amount) + _
    = totalAmount ((transaction.inputs.filterMap TransactionInput.keyInput?).map KeyInput.amount)
  have covered : outputSum ≤ inputSum := UInt64.not_lt.mp enough
  rw [← inputTotal, ← outputTotal, UInt64.toNat_sub_of_le _ _ covered]
  have bound := UInt64.le_iff_toNat_le.mp covered
  simp only
  omega

end Amounts

/-! ### Packed output indexes -/

def totalOffset (offsets : List UInt32) : Nat := (offsets.map UInt32.toNat).sum

section Offsets

theorem globalIndexes_length (sum : UInt32) (offsets : List UInt32) :
    (globalIndexes sum offsets).length = offsets.length := by
  induction offsets generalizing sum with
  | nil => rfl
  | cons offset offsets ih => rw [globalIndexes, length_cons, ih, length_cons]

private theorem next_index {sum offset : UInt32} (positive : offset ≠ 0) :
    sum < sum + offset ↔ sum.toNat + offset.toNat < 2 ^ 32 := by
  have sumBound := sum.toNat_lt
  have offsetBound := offset.toNat_lt
  have notZero : offset.toNat ≠ 0 := by
    intro same
    exact positive (UInt32.toNat_inj.mp same)
  rw [UInt32.lt_iff_toNat_lt, UInt32.toNat_add]
  constructor
  · intro larger
    by_contra wraps
    rw [mod_eq_sub_mod (by omega), mod_eq_of_lt (by omega)] at larger
    omega
  · intro fits
    rw [mod_eq_of_lt fits]
    omega

theorem globalIndexes_increasing_iff {sum : UInt32} {offsets : List UInt32}
    (positive : 0 ∉ offsets) :
    (sum :: globalIndexes sum offsets).Pairwise (· < ·) ↔
      sum.toNat + totalOffset offsets < 2 ^ 32 := by
  induction offsets generalizing sum with
  | nil =>
    have bound := sum.toNat_lt
    constructor
    · intro _
      exact bound
    · intro _
      exact pairwise_singleton _ _
  | cons offset offsets ih =>
    rw [mem_cons, not_or] at positive
    have next : sum < sum + offset ↔ sum.toNat + offset.toNat < 2 ^ 32 :=
      next_index (Ne.symm positive.1)
    change _ ↔ sum.toNat + (offset.toNat + totalOffset offsets) < 2 ^ 32
    constructor
    · intro increasing
      obtain ⟨first, rest⟩ := pairwise_cons.mp increasing
      have fits := next.mp (first _ mem_cons_self)
      have later := (ih positive.2).mp rest
      rw [UInt32.toNat_add, Nat.mod_eq_of_lt fits] at later
      omega
    · intro fits
      have grows := next.mpr (by omega)
      have later := (@ih (sum + offset) positive.2).mpr (by
        rw [UInt32.toNat_add, Nat.mod_eq_of_lt (by omega)]
        omega)
      apply pairwise_cons.mpr
      refine ⟨?_, later⟩
      intro index member
      rcases mem_cons.mp member with isNext | inRest
      · rw [isNext]
        exact grows
      · exact UInt32.lt_trans grows ((pairwise_cons.mp later).1 index inRest)

theorem globalIndexes_below_iff {sum : UInt32} {offsets : List UInt32} {count : Nat}
    (fits : sum.toNat + totalOffset offsets < 2 ^ 32) :
    (∀ index ∈ sum :: globalIndexes sum offsets, index.toNat < count) ↔
      sum.toNat + totalOffset offsets < count := by
  induction offsets generalizing sum with
  | nil => exact forall_mem_singleton
  | cons offset offsets ih =>
    change sum.toNat + (offset.toNat + totalOffset offsets) < 2 ^ 32 at fits
    have next : (sum + offset).toNat = sum.toNat + offset.toNat := by
      rw [UInt32.toNat_add]
      exact mod_eq_of_lt (by omega)
    have later := @ih (sum + offset) (by omega)
    rw [globalIndexes, forall_mem_cons, later]
    change _ ↔ sum.toNat + (offset.toNat + totalOffset offsets) < count
    constructor
    · omega
    · intro bound
      constructor <;> omega

end Offsets

namespace WellPacked
variable {input : KeyInput}

private theorem first_index (packed : WellPacked input) :
    ∃ first rest, input.outputIndexes = first :: rest ∧ 0 ∉ rest ∧
      globalIndexes 0 input.outputIndexes = first :: globalIndexes first rest ∧
      totalOffset input.outputIndexes = first.toNat + totalOffset rest := by
  have nonempty := packed.nonempty
  have offsets := packed.offsets
  cases indexes : input.outputIndexes with
  | nil => exact absurd indexes nonempty
  | cons first rest =>
    rw [indexes] at offsets
    refine ⟨first, rest, rfl, offsets, ?_, rfl⟩
    rw [globalIndexes, UInt32.zero_add]

/-- The indexes of a well-packed input increase exactly if their sum does not wrap around. -/
theorem increasing_iff (packed : WellPacked input) :
    (globalIndexes 0 input.outputIndexes).Pairwise (· < ·) ↔
      totalOffset input.outputIndexes < 2 ^ 32 := by
  obtain ⟨first, rest, -, positive, indexes, total⟩ := packed.first_index
  rw [indexes, total]
  exact globalIndexes_increasing_iff positive

theorem below_iff (packed : WellPacked input) {count : Nat}
    (fits : totalOffset input.outputIndexes < 2 ^ 32) :
    (∀ index ∈ globalIndexes 0 input.outputIndexes, index.toNat < count) ↔
      totalOffset input.outputIndexes < count := by
  obtain ⟨first, rest, -, -, indexes, total⟩ := packed.first_index
  rw [total] at fits
  rw [indexes, total]
  exact globalIndexes_below_iff fits

end WellPacked
end Mevacoin
