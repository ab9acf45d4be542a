/-
The block lists of the blockchain synchronizer's consumers, and how an interval of the
node's blocks changes them.
-/

import Mathlib.Data.List.Forall2
import Mevacoin.Types

namespace Mevacoin.Synchronization
open List

structure BlockchainInterval where
  startHeight : Nat
  blocks : List Hash

structure CheckResult where
  detachRequired : Bool
  detachHeight : Nat
  hasNewBlocks : Bool
  newBlockHeight : Nat

def commonLength : List Hash → List Hash → Nat
  | first :: rest, first' :: rest' => if first = first' then commonLength rest rest' + 1 else 0
  | _, _ => 0

def checkInterval (blockchain : List Hash) (interval : BlockchainInterval) : CheckResult :=
  let intervalEnd := interval.startHeight + interval.blocks.length
  let iterationEnd := min blockchain.length intervalEnd
  -- where the loop over both lists ends
  let i := interval.startHeight +
    commonLength (blockchain.drop interval.startHeight) interval.blocks
  if i < iterationEnd then ⟨true, i, true, i⟩
  else if intervalEnd > blockchain.length then ⟨false, 0, true, blockchain.length⟩
  else ⟨false, 0, false, 0⟩

def detach (blockchain : List Hash) (height : Nat) : List Hash := blockchain.take height

def addBlocks (blockchain blockHashes : List Hash) (count : Nat) : List Hash :=
  blockchain ++ blockHashes.take count

inductive UpdateConsumersResult where
  | nothingChanged
  | addedNewBlocks
  | errorOccurred
  deriving DecidableEq, Repr

/-- What an update does with one consumer: the blocks that `onNewBlocks` was given with the
height of their first, and how many of them it took. -/
structure ConsumerUpdate (β : Type) where
  blockchain : List Hash
  passed : Option (List β × Nat)
  startOffset : Nat
  addedCount : Nat

variable {β : Type} (blockHash : β → Hash)

/-- `accepts` is what the consumer's `onNewBlocks` returns. -/
def updateConsumer (interval : BlockchainInterval) (blocks : List β)
    (blockchain : List Hash) (accepts : Nat) : ConsumerUpdate β :=
  let result := checkInterval blockchain interval
  let kept := if result.detachRequired then detach blockchain result.detachHeight else blockchain
  let newBlockHeight := if result.newBlockHeight = 1 then 0 else result.newBlockHeight
  if result.hasNewBlocks then
    let startOffset := if newBlockHeight = 0 then 0 else newBlockHeight - interval.startHeight
    { blockchain := addBlocks kept (interval.blocks.drop startOffset) accepts
      passed := some (blocks.drop startOffset, newBlockHeight)
      startOffset := startOffset
      addedCount := accepts }
  else { blockchain := kept, passed := none, startOffset := 0, addedCount := 0 }

def updateConsumers (interval : BlockchainInterval) (blocks : List β)
    (consumers : List (List Hash × Nat)) :
    List (ConsumerUpdate β) × UpdateConsumersResult × Option Hash :=
  let updates := consumers.map fun consumer =>
    updateConsumer interval blocks consumer.1 consumer.2
  let hasErrors := updates.any fun update => update.passed.any fun passed =>
    update.addedCount = 0 ∨ update.addedCount < passed.1.length
  let added := updates.filter fun update => 0 < update.addedCount
  let lastBlockIndex := (added.map fun update => update.startOffset + update.addedCount - 1).min?
  (updates,
    if hasErrors then .errorOccurred else if added ≠ [] then .addedNewBlocks else .nothingChanged,
    lastBlockIndex.bind fun index => blocks[index]?.map blockHash)

/-! ### The common part -/

variable {known chain : List Hash} {start count : Nat}

theorem take_commonLength :
    known.take (commonLength known chain) = chain.take (commonLength known chain) ∧
      commonLength known chain ≤ known.length := by
  fun_induction commonLength known chain with
  | case1 first rest rest' ih => simp [ih]
  | case2 first rest first' rest' different => simp
  | case3 known chain short => simp

theorem commonLength_take :
    commonLength known (chain.take count) = min count (commonLength known chain) := by
  fun_induction commonLength known chain generalizing count with
  | case1 first rest rest' ih => cases count <;> simp [commonLength, ih]
  | case2 first rest first' rest' different => cases count <;> simp [commonLength, different]
  | case3 known chain short =>
    cases known with
    | nil => simp [commonLength]
    | cons first rest => cases chain with
      | nil => simp [commonLength]
      | cons first' rest' => exact absurd rfl (short first rest first' rest' rfl)

theorem commonLength_append (common : List Hash) :
    commonLength (common ++ known) (common ++ chain) = common.length + commonLength known chain := by
  induction common with
  | nil => simp
  | cons first common ih =>
    rw [cons_append, cons_append, commonLength, if_pos rfl, ih, length_cons]
    omega

/-! ### An interval of the node's chain -/

def intervalOf (chain : List Hash) (start count : Nat) : BlockchainInterval :=
  { startHeight := start, blocks := (chain.drop start).take count }

section
variable (inside : start ≤ known.length) (same : known.take start = chain.take start)
include inside same

theorem commonLength_drop :
    commonLength known chain = start + commonLength (known.drop start) (chain.drop start) := by
  have apart := @commonLength_append (known.drop start) (chain.drop start) (known.take start)
  rwa [take_append_drop, same, take_append_drop, ← same, length_take_of_le inside] at apart

/-- If the interval reaches beyond the common part, what follows in the list is cut off and
the blocks after the common part are new. -/
private theorem checkInterval_eq (isInterval : start + count ≤ chain.length) :
    let result := checkInterval known (intervalOf chain start count)
    let common := commonLength known chain
    if common < start + count then
      ∃ required height, result = ⟨required, height, true, common⟩ ∧
        (if required then detach known height else known) = chain.take common
    else result = ⟨false, 0, false, 0⟩ := by
  have size : ((chain.drop start).take count).length = count := by simp; omega
  have common := commonLength_drop inside same
  obtain ⟨equal, bound⟩ := @take_commonLength known chain
  unfold checkInterval intervalOf
  dsimp only
  rw [size, commonLength_take]
  by_cases reaches : commonLength known chain < start + count
  · rw [if_pos reaches, min_eq_right (by omega), ← common]
    by_cases cut : commonLength known chain < known.length
    · rw [if_pos (lt_min cut reaches)]
      exact ⟨true, _, rfl, equal⟩
    · have whole : commonLength known chain = known.length := by omega
      rw [if_neg (by omega), if_pos (by omega), whole]
      refine ⟨false, 0, rfl, ?_⟩
      rw [← whole, ← equal, whole, take_length]
      rfl
  · rw [if_neg reaches, if_neg (by omega), if_neg (by omega)]

end

/-- What an update should do: the list is one of the node's hashes, and the blocks after the
common part are passed with their heights. -/
structure Follows (node : List β) (start count : Nat) (known : List Hash)
    (update : ConsumerUpdate β) : Prop where
  blockchain : update.blockchain <+: node.map blockHash
  passed : update.passed = let common := commonLength known (node.map blockHash)
    if common < start + count then some ((node.take (start + count)).drop common, common)
    else none

private theorem drop_interval {α : Type} (items : List α) {common : Nat}
    (after : start ≤ common) (count : Nat) :
    ((items.drop start).take count).drop (common - start) =
      (items.take (start + count)).drop common := by
  rw [drop_take, drop_drop, drop_take, Nat.add_sub_cancel' after]
  congr 1
  omega

theorem updateConsumers_follow_iff (node : List β) (start count : Nat)
    (consumers : List (List Hash × Nat)) (isInterval : start + count ≤ node.length)
    (connected : ∀ consumer ∈ consumers, start ≤ consumer.1.length ∧
      consumer.1.take start = (node.map blockHash).take start) :
    Forall₂ (fun consumer update => Follows blockHash node start count consumer.1 update ↔
      let common := commonLength consumer.1 (node.map blockHash)
      if common < start + count then common ≠ 1 else consumer.1 <+: node.map blockHash)
    consumers (updateConsumers blockHash (intervalOf (node.map blockHash) start count)
      ((node.drop start).take count) consumers).1 := by
  apply forall₂_map_right_iff.mpr
  apply forall₂_same.mpr
  intro consumer member
  obtain ⟨inside, same⟩ := connected consumer member
  have bound : start ≤ commonLength consumer.1 (node.map blockHash) := by
    rw [commonLength_drop inside same]
    omega
  have check := checkInterval_eq inside same (by simpa using isInterval : start + count ≤ _)
  generalize isCommon : commonLength consumer.1 (node.map blockHash) = common at *
  by_cases reaches : common < start + count
  · simp only [if_pos reaches] at check ⊢
    obtain ⟨required, height, result, kept⟩ := check
    by_cases second : common = 1
    · refine iff_of_false (fun follows => ?_) (not_not_intro second)
      -- the first block passed should have height 1 and is given height 0
      have passed := follows.passed
      simp [updateConsumer, result, second, isCommon] at passed
    · have offset : (if common = 0 then 0 else common - start) = common - start := by
        split <;> omega
      rw [updateConsumer, result]
      simp only [intervalOf, if_true, if_neg second, offset, kept]
      refine iff_of_true ⟨?_, ?_⟩ second
      · rw [addBlocks, drop_interval _ bound, drop_take, take_take, ← take_add]
        exact List.take_prefix _ _
      · rw [drop_interval node bound, isCommon]
        exact (if_pos reaches).symm
  · simp only [if_neg reaches] at check ⊢
    rw [updateConsumer, check]
    refine ⟨Follows.blockchain, fun isPart => ⟨isPart, ?_⟩⟩
    rw [isCommon]
    exact (if_neg reaches).symm

theorem updateConsumers_follow_two :
    Follows id [⟨0⟩, ⟨1⟩, ⟨2⟩] 1 2 [⟨0⟩, ⟨1⟩]
      (updateConsumer (intervalOf [⟨0⟩, ⟨1⟩, ⟨2⟩] 1 2) [⟨1⟩, ⟨2⟩] [⟨0⟩, ⟨1⟩] 1) := by
  have follows := updateConsumers_follow_iff id [⟨0⟩, ⟨1⟩, ⟨2⟩] 1 2 [([⟨0⟩, ⟨1⟩], 1)] (by decide)
    (by decide)
  exact (forall₂_cons.mp follows).1.mpr (by decide)

/-- The genesis block comes twice, or the next block with height 0. -/
theorem updateConsumers_genesis_again :
    (updateConsumers id (intervalOf [⟨0⟩, ⟨1⟩] 0 2) [⟨0⟩, ⟨1⟩] [([⟨0⟩], 2)]).1.map
        (fun update => (update.blockchain, update.passed)) =
      [([⟨0⟩, ⟨0⟩, ⟨1⟩], some ([⟨0⟩, ⟨1⟩], 0))] ∧
    (updateConsumers id (intervalOf [⟨0⟩, ⟨1⟩] 1 1) [⟨1⟩] [([⟨0⟩], 1)]).1.map
        (fun update => (update.blockchain, update.passed)) =
      [([⟨0⟩, ⟨1⟩], some ([⟨1⟩], 0))] := by
  decide

end Mevacoin.Synchronization
