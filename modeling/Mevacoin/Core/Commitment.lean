/-
The transactions of an accepted block. The header commits to transaction hashes, all
later state is built from the raw transactions; from a fixed height on the two are
compared.
-/

import Mevacoin.Core.Step

namespace Mevacoin
open Checked
open Parameters

/-- The raw transactions are those whose hashes the header lists, each of them once. -/
def CarriesTransactions (primitives : Primitives) (block : BlockTemplate)
    (rawBlock : RawBlock) : Prop :=
  rawBlock.transactions.map primitives.getBinaryArrayHash = block.transactionHashes ∧
    block.transactionHashes.Nodup

instance (primitives : Primitives) (block : BlockTemplate) (rawBlock : RawBlock) :
    Decidable (CarriesTransactions primitives block rawBlock) :=
  inferInstanceAs (Decidable (_ ∧ _))

theorem checkTransactionHashes_eq_ok {primitives : Primitives} {block : BlockTemplate}
    {transactions : List CachedTransaction}
    (ran : checkTransactionHashes primitives block transactions = .ok ()) :
    block.transactionHashes.Nodup ∧
      block.transactionHashes
        = transactions.map (CachedTransaction.getTransactionHash primitives) := by
  obtain ⟨headerUnique, ran⟩ := rejectIf_bind_eq_ok.mp ran
  obtain ⟨-, ran⟩ := rejectIf_bind_eq_ok.mp ran
  obtain ⟨-, ran⟩ := rejectIf_bind_eq_ok.mp ran
  exact ⟨not_not.mp headerUnique, not_not.mp (rejectIf_eq_ok.mp ran)⟩

theorem hashes_of_extracted {primitives : Primitives} {binaries : List BinaryArray}
    {transactions : List CachedTransaction}
    (extracted : Extracted primitives binaries transactions) :
    transactions.map (CachedTransaction.getTransactionHash primitives)
      = binaries.map primitives.getBinaryArrayHash := by
  induction extracted with
  | nil => rfl
  | cons first _ ih =>
    rw [List.map_cons, List.map_cons, ih, CachedTransaction.getTransactionHash, first.1]

namespace Core

def singleSpend : Transaction :=
  { version := 1
    unlockTime := 0
    inputs := [.key { amount := 5, outputIndexes := [0, 1], keyImage := { value := 9 } }]
    outputs := [{ amount := 4, target := { key := { value := 0 } } }]
    extra := [0]
    signatures := [[{ value := 0 }, { value := 0 }]] }

/-- A segment that ends right below the check height, and a block above it that commits
to one transaction. -/
def lateEnvironment : Environment :=
  { primitives := tablePrimitives
      [coinbaseBlock 0 255 1749999 1,
        { coinbaseBlock 1 0 1750000 37252903 with transactionHashes := [{ value := 1 }] }]
      [singleSpend]
    checkpoints := { points := [(2000000, { value := 0 })] } }

def lateCore : Core :=
  { chainsStorage := [.memory
      { BlockchainCache.create 0 1749999 with
        parent := none
        blocks := [{
          info :=
            { blockHash := { value := 0 }
              timestamp := 0
              cumulativeDifficulty := 1
              alreadyGeneratedCoins := 1
              alreadyGeneratedTransactions := 1
              blockSize := 100 }
          rawBlock := codedBlock 0 }] }]
    chainsLeaves := [0]
    mainChainSet := [0]
    mainChainStorage := [] }

/-- A block that commits to one transaction, at a height where this is not checked. -/
def earlyEnvironment : Environment :=
  { primitives := tablePrimitives
      [coinbaseBlock 0 255 0 1,
        { coinbaseBlock 1 0 1 37252902 with transactionHashes := [{ value := 1 }] }] []
    checkpoints := { points := [] } }

def earlyGenesis : GenesisBlock earlyEnvironment.primitives :=
  { block := coinbaseBlock 0 255 0 1
    binaryArray := [0]
    parsed := rfl
    coinbase := inputs_firstBlock }

end Core
end Mevacoin
