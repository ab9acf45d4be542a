/-
The transactions and outputs of a chain in their order, and what the caches store about
them. The outputs of an amount are numbered in the order in which they are added.
-/

import Mevacoin.Cache.Records
import Mevacoin.Lib.Occurrences

namespace Mevacoin
open List
open Occurrences (numbered numbersOf)

variable {placed : List PlacedTransaction}

/-! ### Transactions in their places -/

/-- A transaction of a chain, with its block and its 16-bit position in the block. -/
structure PlacedTransaction where
  blockIndex : Nat
  transactionIndex : Nat
  transaction : Transaction

namespace PlacedTransaction
variable (primitives : Primitives)

def hash (placed : PlacedTransaction) : Hash :=
  (CachedTransaction.ofTransaction primitives placed.transaction).getTransactionHash primitives

def amounts (placed : PlacedTransaction) : List UInt64 :=
  placed.transaction.outputs.map TransactionOutput.amount

def storedOutput (placed : PlacedTransaction) (output : TransactionOutput × Nat) :
    UInt64 × StoredKeyOutput :=
  (output.1.amount,
    { packed :=
        { blockIndex := placed.blockIndex
          transactionIndex := placed.transactionIndex
          outputIndex := output.2 % 2 ^ 16 }
      info :=
        { publicKey := output.1.target.key
          transactionHash := placed.hash primitives
          unlockTime := placed.transaction.unlockTime
          outputIndex := output.2 % 2 ^ 16 } })

def outputs (placed : PlacedTransaction) : List (UInt64 × StoredKeyOutput) :=
  placed.transaction.outputs.zipIdx.map (placed.storedOutput primitives)

/-- What is stored about the transaction, given the amounts of all earlier outputs. -/
def info (before : List UInt64) (placed : PlacedTransaction) : ExtendedTransactionInfo :=
  { blockIndex := placed.blockIndex
    transactionIndex := placed.transactionIndex
    transactionHash := placed.hash primitives
    unlockTime := placed.transaction.unlockTime
    outputs := placed.transaction.outputs.map TransactionOutput.target
    globalIndexes := (numbered before placed.amounts).map fun number => UInt32.ofNat number.2
    amountToKeyIndexes := numbered before placed.amounts }

end PlacedTransaction

def amountsOf (placed : List PlacedTransaction) : List UInt64 :=
  placed.flatMap PlacedTransaction.amounts

def ofAmount (amount : UInt64) (outputs : List (UInt64 × StoredKeyOutput)) :
    List StoredKeyOutput :=
  outputs.filterMap fun output => if output.1 = amount then some output.2 else none

def outputsOf (primitives : Primitives) (amount : UInt64) (placed : List PlacedTransaction) :
    List StoredKeyOutput :=
  ofAmount amount (placed.flatMap (PlacedTransaction.outputs primitives))

def infosAfter (primitives : Primitives) (before : List UInt64) :
    List PlacedTransaction → List ExtendedTransactionInfo
  | [] => []
  | placed :: rest =>
    placed.info primitives before :: infosAfter primitives (before ++ placed.amounts) rest

section Lists
variable {primitives : Primitives} {amount : UInt64}

theorem amountsOf_append (first second : List PlacedTransaction) :
    amountsOf (first ++ second) = amountsOf first ++ amountsOf second :=
  flatMap_append

theorem ofAmount_append (first second : List (UInt64 × StoredKeyOutput)) :
    ofAmount amount (first ++ second) = ofAmount amount first ++ ofAmount amount second :=
  filterMap_append

theorem ofAmount_length (outputs : List (UInt64 × StoredKeyOutput)) :
    (ofAmount amount outputs).length = (outputs.map Prod.fst).count amount := by
  induction outputs with
  | nil => rfl
  | cons output outputs ih =>
    unfold ofAmount at ih ⊢
    by_cases same : output.1 = amount
    · simp [same, ih]
    · simp [same, ih]

theorem outputsOf_append (first second : List PlacedTransaction) :
    outputsOf primitives amount (first ++ second)
      = outputsOf primitives amount first ++ outputsOf primitives amount second := by
  unfold outputsOf
  rw [flatMap_append, ofAmount_append]

theorem PlacedTransaction.zipped_amounts (placed : PlacedTransaction) :
    placed.transaction.outputs.zipIdx.map (fun output => output.1.amount) = placed.amounts := by
  change placed.transaction.outputs.zipIdx.map
    (TransactionOutput.amount ∘ Prod.fst (α := TransactionOutput) (β := Nat)) = _
  rw [← map_map, zipIdx_map_fst]
  rfl

theorem PlacedTransaction.outputs_amounts (placed : PlacedTransaction) :
    (placed.outputs primitives).map Prod.fst = placed.amounts := by
  unfold outputs
  rw [map_map]
  exact placed.zipped_amounts

theorem outputsOf_length (placed : List PlacedTransaction) :
    (outputsOf primitives amount placed).length = (amountsOf placed).count amount := by
  unfold outputsOf amountsOf
  rw [ofAmount_length, map_flatMap]
  congr 1
  apply flatMap_congr
  intro transaction _
  exact transaction.outputs_amounts

theorem infosAfter_append (before : List UInt64) (first second : List PlacedTransaction) :
    infosAfter primitives before (first ++ second)
      = infosAfter primitives before first
        ++ infosAfter primitives (before ++ amountsOf first) second := by
  induction first generalizing before with
  | nil => simp [infosAfter, amountsOf]
  | cons placed rest ih => simp [infosAfter, amountsOf, ih]

theorem infosAfter_hashes (before : List UInt64) (placed : List PlacedTransaction) :
    (infosAfter primitives before placed).map (fun info => info.transactionHash)
      = placed.map (PlacedTransaction.hash primitives) := by
  induction placed generalizing before with
  | nil => rfl
  | cons head rest ih =>
    rw [infosAfter, map_cons, map_cons, ih]
    rfl

theorem mem_infosAfter {before : List UInt64}
    {info : ExtendedTransactionInfo} (member : info ∈ infosAfter primitives before placed) :
    ∃ earlier, ∃ transaction ∈ placed, info = transaction.info primitives earlier := by
  induction placed generalizing before with
  | nil => cases member
  | cons head rest ih =>
    rcases mem_cons.mp member with here | later
    · exact ⟨before, head, mem_cons_self, here⟩
    · obtain ⟨earlier, transaction, inRest, isInfo⟩ := ih later
      exact ⟨earlier, transaction, mem_cons_of_mem _ inRest, isInfo⟩

theorem infosAfter_numbers (before : List UInt64) (placed : List PlacedTransaction) :
    (infosAfter primitives before placed).flatMap ExtendedTransactionInfo.amountToKeyIndexes
      = numbered before (amountsOf placed) := by
  induction placed generalizing before with
  | nil => rfl
  | cons head rest ih =>
    rw [infosAfter, flatMap_cons, ih]
    change numbered before head.amounts ++ _ = numbered before (head.amounts ++ amountsOf rest)
    rw [Occurrences.numbered_append]

end Lists

/-! ### The transactions of a chain -/

def placeTransactions (blockIndex : Nat) (transactions : List Transaction) :
    List PlacedTransaction :=
  transactions.zipIdx.map fun transaction =>
    { blockIndex := blockIndex
      transactionIndex := transaction.2 % 2 ^ 16
      transaction := transaction.1 }

/-- The transactions of consecutive blocks, of which the first has the given index. -/
def placedFrom (primitives : Primitives) : Nat → List BlockEntry → List PlacedTransaction
  | _, [] => []
  | blockIndex, entry :: entries =>
    placeTransactions blockIndex (entry.transactions primitives)
      ++ placedFrom primitives (blockIndex + 1) entries

section Chains
variable {primitives : Primitives}

theorem placedFrom_append (blockIndex : Nat) (lower upper : List BlockEntry) :
    placedFrom primitives blockIndex (lower ++ upper)
      = placedFrom primitives blockIndex lower
        ++ placedFrom primitives (blockIndex + lower.length) upper := by
  induction lower generalizing blockIndex with
  | nil => rfl
  | cons entry lower ih =>
    rw [cons_append, placedFrom, placedFrom, ih, append_assoc, length_cons,
      Nat.add_right_comm, Nat.add_assoc]

theorem placedFrom_singleton (blockIndex : Nat) (entry : BlockEntry) :
    placedFrom primitives blockIndex [entry]
      = placeTransactions blockIndex (entry.transactions primitives) :=
  append_nil _

theorem placeTransactions_blockIndex {blockIndex : Nat} {transactions : List Transaction}
    {placed : PlacedTransaction} (member : placed ∈ placeTransactions blockIndex transactions) :
    placed.blockIndex = blockIndex := by
  obtain ⟨transaction, -, rfl⟩ := mem_map.mp member
  rfl

theorem placedFrom_bounds {blockIndex : Nat} {entries : List BlockEntry}
    {placed : PlacedTransaction} (member : placed ∈ placedFrom primitives blockIndex entries) :
    blockIndex ≤ placed.blockIndex ∧ placed.blockIndex < blockIndex + entries.length := by
  induction entries generalizing blockIndex with
  | nil => cases member
  | cons entry entries ih =>
    rw [length_cons]
    rcases mem_append.mp member with here | later
    · have index := placeTransactions_blockIndex here
      constructor <;> omega
    · have bounds := ih later
      constructor <;> omega

theorem mem_outputsOf {amount : UInt64}
    {stored : StoredKeyOutput} (member : stored ∈ outputsOf primitives amount placed) :
    ∃ transaction ∈ placed, ∃ output ∈ transaction.transaction.outputs.zipIdx,
      stored = (transaction.storedOutput primitives output).2 := by
  obtain ⟨pair, inOutputs, isOutput⟩ := mem_filterMap.mp member
  obtain ⟨transaction, inPlaced, isPair⟩ := mem_flatMap.mp inOutputs
  obtain ⟨output, inTransaction, isStored⟩ := mem_map.mp isPair
  subst isStored
  refine ⟨transaction, inPlaced, output, inTransaction, ?_⟩
  split at isOutput
  · exact (Option.some.inj isOutput).symm
  · cases isOutput

theorem outputsOf_blockIndex {amount : UInt64}
    {output : StoredKeyOutput} (member : output ∈ outputsOf primitives amount placed) :
    ∃ transaction ∈ placed, output.packed.blockIndex = transaction.blockIndex := by
  obtain ⟨transaction, inPlaced, source, -, isStored⟩ := mem_outputsOf member
  subst isStored
  exact ⟨transaction, inPlaced, rfl⟩

end Chains
end Mevacoin
