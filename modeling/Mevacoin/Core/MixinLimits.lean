/-
The ring sizes of an accepted block. The mixin check compares the largest ring of a
transaction with both limits, so that a smaller ring passes beside a large one.
-/

import Mevacoin.Core.Commitment
import Mevacoin.Core.TransactionSums
import Mevacoin.Core.ValidTransactions

namespace Mevacoin
open List Checked

namespace Mixins
variable {transaction : Transaction} {transactions : List CachedTransaction} {height : Nat}

/-- The size of every ring of the transactions meets the condition. -/
def EveryRing (transactions : List CachedTransaction) (condition : Nat → Prop) : Prop :=
  ∀ cached ∈ transactions, ∀ input ∈ cached.transaction.keyInputs,
    condition input.outputIndexes.length

def RingsWithinLimits (transactions : List CachedTransaction) (height : Nat) : Prop :=
  EveryRing transactions fun size => (getMixinAllowableRange height).1 + 1 ≤ size ∧
    size ≤ (getMixinAllowableRange height).2 + 1

def RingsLargeEnough (transactions : List CachedTransaction) (height : Nat) : Prop :=
  EveryRing transactions fun size => (getMixinAllowableRange height).1 + 1 ≤ size

private theorem foldl_max_le_iff {sizes : List Nat} {start bound : Nat} :
    sizes.foldl max start ≤ bound ↔ start ≤ bound ∧ ∀ size ∈ sizes, size ≤ bound := by
  induction sizes generalizing start with
  | nil => simp
  | cons size sizes ih =>
    rw [foldl_cons, ih, forall_mem_cons, max_le_iff, and_assoc]

theorem ringSize_le_iff {bound : Nat} : ringSize transaction ≤ bound ↔
    1 ≤ bound ∧ ∀ input ∈ transaction.keyInputs, input.outputIndexes.length ≤ bound := by
  rw [ringSize, foldl_max_le_iff, forall_mem_map]

theorem validate_eq_true_iff : validate transactions height = true ↔
    ∀ cached ∈ transactions,
      ringSize cached.transaction ≤ (getMixinAllowableRange height).2 + 1 ∧
        (getMixinAllowableRange height).1 + 1 ≤ ringSize cached.transaction := by
  have positive (transaction : Transaction) : 1 ≤ ringSize transaction :=
    (ringSize_le_iff.mp le_rfl).1
  unfold validate validateOne
  simp only [all_eq_true, decide_eq_true_eq]
  refine forall₂_congr fun cached _ => ?_
  have atLeastOne := positive cached.transaction
  constructor
  · omega
  · omega

/-- The check bounds every ring from above. -/
theorem ringsWithinLimits_iff (validated : validate transactions height = true) :
    RingsWithinLimits transactions height ↔ RingsLargeEnough transactions height := by
  constructor
  · intro within cached member input isInput
    exact (within cached member input isInput).1
  · intro large cached member input isInput
    have above := (validate_eq_true_iff.mp validated cached member).1
    exact ⟨large cached member input isInput, (ringSize_le_iff.mp above).2 input isInput⟩

theorem validate_of_ringsWithinLimits (within : RingsWithinLimits transactions height)
    (spends : ∀ cached ∈ transactions, cached.transaction.keyInputs ≠ []) :
    validate transactions height = true := by
  apply validate_eq_true_iff.mpr
  intro cached member
  constructor
  · apply ringSize_le_iff.mpr
    exact ⟨Nat.le_add_left .., fun input isInput => (within cached member input isInput).2⟩
  · obtain ⟨input, isInput⟩ := exists_mem_of_ne_nil _ (spends cached member)
    have largest := (@ringSize_le_iff cached.transaction _).mp le_rfl
    exact (within cached member input isInput).1.trans (largest.2 input isInput)

/-- Two rings of one and of two members, where every ring has to have from two to six. -/
theorem validate_smallRing :
    ∃ transactions, validate transactions 1250000 = true ∧
      ¬RingsWithinLimits transactions 1250000 := by
  let small : KeyInput := { amount := 1, outputIndexes := [0], keyImage := { value := 1 } }
  let large : KeyInput := { amount := 1, outputIndexes := [1, 1], keyImage := { value := 2 } }
  let spending : Transaction :=
    { version := 1, unlockTime := 0, inputs := [.key small, .key large], outputs := []
      extra := [], signatures := [] }
  refine ⟨[{ transaction := spending, binaryArray := [] }], by decide, ?_⟩
  intro within
  have inside := within _ mem_cons_self small (by decide)
  revert inside
  decide

end Mixins

theorem validateSemantic_keyInputs {primitives : Primitives} {transaction : Transaction}
    {fee : UInt64} (ran : validateSemantic primitives transaction = .ok fee) :
    transaction.keyInputs ≠ [] := by
  have inputs := (validateSemantic_eq_ok ran).inputs
  obtain ⟨nonempty, -⟩ := rejectIf_bind_eq_ok.mp ran
  obtain ⟨input, member⟩ := exists_mem_of_ne_nil _ nonempty
  obtain ⟨keyInput, rfl, -⟩ := inputs input member
  exact ne_nil_of_mem (mem_filterMap.mpr ⟨_, member, rfl⟩)

namespace Core
open Mixins

/-- A list that passes the check has its rings within the limits exactly if none of them is
too small. A block is accepted if its transactions pass at its own height or at that of the
change window, and its rings are within the limits of one of the two exactly if at one of
them the transactions pass and no ring is too small. -/
theorem addBlock_ringsWithinLimits_iff (transactions : List CachedTransaction) :
    (∀ height, validate transactions height = true →
      (RingsWithinLimits transactions height ↔ RingsLargeEnough transactions height)) ∧
    ∀ (environment : Environment) (now : UInt64) (core result : Core) (rawBlock : RawBlock)
      (code : ErrorCode) (block : BlockTemplate) (cumulativeSize : Nat),
      core.addBlock environment now rawBlock = .ok (code, result) → code.accepted = true →
      environment.primitives.blockFromBinaryArray rawBlock.block = some block →
      extractTransactions environment.primitives rawBlock.transactions
        = some (transactions, cumulativeSize) →
      let heights := [block.getBlockIndex, mixinChangeWindow block.getBlockIndex]
      (∃ height ∈ heights, validate transactions height = true) ∧
        ((∃ height ∈ heights, RingsWithinLimits transactions height) ↔
          ∃ height ∈ heights, validate transactions height = true ∧
            RingsLargeEnough transactions height) := by
  refine ⟨fun _ => ringsWithinLimits_iff, ?_⟩
  intro environment now core result rawBlock code block cumulativeSize ran isAccepted
    parsed extracted heights
  obtain ⟨ptr, accepted, data, acceptance⟩ := acceptance_of_addBlock ran isAccepted parsed
  have extracted' := acceptance.extracted
  rw [extracted] at extracted'
  cases extracted'
  constructor
  · rcases acceptance.mixins with now | earlier
    · exact ⟨_, mem_cons_self, now⟩
    · exact ⟨_, mem_cons_of_mem _ mem_cons_self, earlier⟩
  have spends : ∀ cached ∈ accepted.pushed.transactions,
      cached.transaction.keyInputs ≠ [] := by
    intro cached member
    obtain ⟨fee, valid⟩ := validTransaction_of_mem acceptance.validTransactions member
    exact validateSemantic_keyInputs valid.semantic
  constructor
  · rintro ⟨height, listed, within⟩
    have validated := validate_of_ringsWithinLimits within spends
    exact ⟨height, listed, validated, (ringsWithinLimits_iff validated).mp within⟩
  · rintro ⟨height, listed, validated, large⟩
    exact ⟨height, listed, (ringsWithinLimits_iff validated).mpr large⟩

theorem addBlock_ringsWithinLimits_late :
    ∃ height ∈ [1750000, 1749980],
      RingsWithinLimits [{ transaction := singleSpend, binaryArray := [0] }] height := by
  have returned : lateCore.codeOf lateEnvironment 0 { block := [1], transactions := [[0]] }
      = some (.addBlock .addedToMain) := by decide +kernel
  have large : RingsLargeEnough [{ transaction := singleSpend, binaryArray := [0] }] 1750000 := by
    unfold RingsLargeEnough EveryRing
    decide
  exact ((addBlock_ringsWithinLimits_iff _).2 _ _ _ _ _ _ _ _ (addBlock_eq_after returned) rfl rfl
    rfl).2.mpr ⟨1750000, mem_cons_self, rfl, large⟩

end Core
end Mevacoin
