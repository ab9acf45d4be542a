/-
The look-up tables that the database keeps besides its blocks: block hashes by timestamp,
the first block of every day, and transaction hashes by payment ID. Every change of a push
or a split goes into one batch, and everything the call reads is read from the tables as
they were before the batch is written.

How a payment ID is found in the extra field of a transaction is a parameter. A result of
`none` is an exception.
-/

import Mevacoin.Cache.UnitsHistory
import Mevacoin.Lib.GuardedRun
import Mevacoin.Lib.WriteBatch

namespace Mevacoin
open Option DatabaseBlockchainCache CachedTransaction
open WriteBatch (Table Batch)

structure IndexedDatabase where
  cache : DatabaseBlockchainCache
  blockHashesByTimestamp : Table UInt64 (List Hash)
  closestTimestampBlockIndex : Table UInt64 Nat
  transactionCountsByPaymentIds : Table Hash Nat
  transactionHashesByPaymentIds : Table (Hash × Nat) Hash

structure MapOrder where
  visit : List (Nat × Hash) → List (Nat × Hash)
  perm : ∀ entries, (visit entries).Perm entries

def oneDaySeconds : UInt64 := 86400

/-- Timestamps beyond the largest signed 64-bit number are refused. -/
def roundToMidnight (timestamp : UInt64) : Option UInt64 :=
  if timestamp.toNat > 2 ^ 63 - 1 then none
  else some (timestamp / oneDaySeconds * oneDaySeconds)

namespace IndexedDatabase
variable (primitives : Primitives) (getPaymentIdFromTxExtra : BinaryArray → Option Hash)

/-! ### Pushing a block -/

def insertBlockTimestamp (database : IndexedDatabase) (batch : Batch UInt64 (List Hash))
    (timestamp : UInt64) (blockHash : Hash) : Batch UInt64 (List Hash) :=
  let blockHashes := (database.blockHashesByTimestamp.get timestamp).getD []
  batch.insert timestamp (blockHashes ++ [blockHash])

/-- The part of a batch that concerns payment IDs: a counter for every ID, and the hashes
under the ID and their number. -/
structure PaymentBatch where
  counts : Batch Hash Nat := {}
  hashes : Batch (Hash × Nat) Hash := {}

def insertPaymentId (database : IndexedDatabase) (batch : PaymentBatch)
    (transactionHash paymentId : Hash) : PaymentBatch :=
  let count := (database.transactionCountsByPaymentIds.get paymentId).getD 0 + 1
  { counts := batch.counts.insert paymentId count
    hashes := batch.hashes.insert (paymentId, count - 1) transactionHash }

/-- What `pushTransaction` does for the payment ID of a transaction. -/
def pushPaymentId (database : IndexedDatabase) (batch : PaymentBatch)
    (transaction : CachedTransaction) : PaymentBatch :=
  match getPaymentIdFromTxExtra transaction.transaction.extra with
  | none => batch
  | some paymentId =>
    database.insertPaymentId batch (transaction.getTransactionHash primitives) paymentId

/-- The first block of a day is recorded unless the day has a block already. -/
def insertClosest (database : IndexedDatabase) (midnight : UInt64) (blockIndex : Nat) :
    Batch UInt64 Nat :=
  match database.closestTimestampBlockIndex.get midnight with
  | some _ => {}
  | none => Batch.insert {} midnight blockIndex

def pushBlock (database : IndexedDatabase) (pushed : PushedBlock) : Option IndexedDatabase := do
  let cache ← database.cache.pushBlock primitives pushed
  let baseTransaction := ofTransaction primitives pushed.block.baseTransaction
  let payments := (baseTransaction :: pushed.transactions).foldl
    (database.pushPaymentId primitives getPaymentIdFromTxExtra) {}
  let midnight ← roundToMidnight pushed.block.timestamp
  let blockIndex := database.cache.getTopBlockIndex + 1
  let timestamps := database.insertBlockTimestamp {} pushed.block.timestamp
    (primitives.getBlockHash pushed.block)
  some {
    cache := cache
    blockHashesByTimestamp := database.blockHashesByTimestamp.write timestamps
    closestTimestampBlockIndex := database.closestTimestampBlockIndex.write
      (database.insertClosest midnight blockIndex)
    transactionCountsByPaymentIds := database.transactionCountsByPaymentIds.write payments.counts
    transactionHashesByPaymentIds :=
      database.transactionHashesByPaymentIds.write payments.hashes }

/-- The database that start-up creates. The genesis block is not recorded by its timestamp. -/
def addGenesisBlock (genesis : GenesisBlock primitives) : Option IndexedDatabase := do
  let empty : IndexedDatabase :=
    { cache := .addGenesisBlock genesis
      blockHashesByTimestamp := []
      closestTimestampBlockIndex := []
      transactionCountsByPaymentIds := []
      transactionHashesByPaymentIds := [] }
  let baseTransaction := ofTransaction primitives genesis.block.baseTransaction
  let payments := empty.pushPaymentId primitives getPaymentIdFromTxExtra {} baseTransaction
  let midnight ← roundToMidnight genesis.block.timestamp
  some { empty with
    closestTimestampBlockIndex := empty.closestTimestampBlockIndex.write
      (Batch.insert {} midnight 0)
    transactionCountsByPaymentIds := empty.transactionCountsByPaymentIds.write payments.counts
    transactionHashesByPaymentIds := empty.transactionHashesByPaymentIds.write payments.hashes }

/-! ### Splitting -/

/-- A hash that is not recorded would be erased past the end of its list. -/
def requestRemoveTimestamp (database : IndexedDatabase) (batch : Batch UInt64 (List Hash))
    (block : Hash × UInt64) : Option (Batch UInt64 (List Hash)) :=
  let (blockHash, timestamp) := block
  match database.blockHashesByTimestamp.get timestamp with
  | none => some batch
  | some blockHashes =>
    if blockHash ∉ blockHashes then none
    else if blockHashes.erase blockHash = [] then some (batch.remove timestamp)
    else some (batch.insert timestamp (blockHashes.erase blockHash))

/-- Hash and timestamp of the blocks from an index upwards. The hash is computed from the
block read back. -/
def deletingBlocks (database : IndexedDatabase) (splitBlockIndex : Nat) :
    Option (List (Hash × UInt64)) :=
  (database.cache.blocks.drop splitBlockIndex).mapM fun stored => do
    let block ← primitives.blockFromBinaryArray stored.rawBlock.block
    some (primitives.getBlockHash block, stored.info.timestamp)

def extractTransaction (rawBlock : RawBlock) (transactionIndex : Nat) : Option Transaction :=
  if transactionIndex ≠ 0 then
    (rawBlock.transactions[transactionIndex - 1]?).bind primitives.transactionFromBinaryArray
  else (primitives.blockFromBinaryArray rawBlock.block).map BlockTemplate.baseTransaction

/-- Here `none` says that no payment ID was found. -/
def requestPaymentId (database : IndexedDatabase) (transactionHash : Hash) : Option Hash := do
  let info ← database.cache.cachedTransactions transactionHash
  let stored ← database.cache.blocks[info.blockIndex]?
  let transaction ← extractTransaction primitives stored.rawBlock info.transactionIndex
  getPaymentIdFromTxExtra transaction.extra

def wrapSub (count toDelete : Nat) : Nat :=
  if toDelete ≤ count then count - toDelete else (2 ^ 32 - (toDelete - count) % 2 ^ 32) % 2 ^ 32

/-- Of the entries that the new counter excludes, the first is removed. -/
def requestDeletePaymentId (database : IndexedDatabase) (toDelete : Nat) (batch : PaymentBatch)
    (paymentId : Hash) : PaymentBatch :=
  let count := (database.transactionCountsByPaymentIds.get paymentId).getD 0
  { counts := batch.counts.insert paymentId (wrapSub count toDelete)
    hashes := batch.hashes.remove (paymentId, wrapSub count toDelete) }

def requestDeletePaymentIds (database : IndexedDatabase) (transactionHashes : List Hash) :
    PaymentBatch :=
  let paymentIds := transactionHashes.filterMap
    (database.requestPaymentId primitives getPaymentIdFromTxExtra)
  paymentIds.dedup.foldl
    (fun batch paymentId =>
      database.requestDeletePaymentId (paymentIds.count paymentId) batch paymentId)
    {}

/-- The loop over the days that have a block, from a midnight upwards. Every round finds
another entry of the table. -/
def daysFrom (table : Table UInt64 Nat) : Nat → UInt64 → List UInt64
  | 0, _ => []
  | rounds + 1, midnight =>
    match table.get midnight with
    | none => []
    | some _ => midnight :: daysFrom table rounds (midnight + oneDaySeconds)

def deleteClosestTimestampBlockIndex (database : IndexedDatabase) (splitBlockIndex : Nat) :
    Option (Batch UInt64 Nat) := do
  let stored ← database.cache.blocks[splitBlockIndex]?
  let midnight ← roundToMidnight stored.info.timestamp
  let blockIndex ← database.closestTimestampBlockIndex.get midnight
  let first := if splitBlockIndex ≠ blockIndex then midnight + oneDaySeconds else midnight
  let days := daysFrom database.closestTimestampBlockIndex
    database.closestTimestampBlockIndex.length first
  some { inserts := [], removals := days }

def split (database : IndexedDatabase) (splitBlockIndex : Nat) (self upper : SegmentPtr) :
    Option (BlockchainCache × IndexedDatabase) := do
  let (segment, lower) ← database.cache.split primitives splitBlockIndex self upper
  let blocks ← database.deletingBlocks primitives splitBlockIndex
  let timestamps ← blocks.reverse.foldlM database.requestRemoveTimestamp {}
  let transactionHashes := (database.cache.blocks.drop splitBlockIndex).flatMap
    DatabaseBlock.transactionHashes
  let payments := database.requestDeletePaymentIds primitives getPaymentIdFromTxExtra
    transactionHashes
  let closest ← database.deleteClosestTimestampBlockIndex splitBlockIndex
  some (segment, {
    cache := lower
    blockHashesByTimestamp := database.blockHashesByTimestamp.write timestamps
    closestTimestampBlockIndex := database.closestTimestampBlockIndex.write closest
    transactionCountsByPaymentIds := database.transactionCountsByPaymentIds.write payments.counts
    transactionHashesByPaymentIds :=
      database.transactionHashesByPaymentIds.write payments.hashes })

def getTransactionHashesByPaymentId (order : MapOrder) (database : IndexedDatabase)
    (paymentId : Hash) : Option (List Hash) := do
  let count ← database.transactionCountsByPaymentIds.get paymentId
  let entries := (List.range count).filterMap fun index =>
    (database.transactionHashesByPaymentIds.get (paymentId, index)).map fun hash => (index, hash)
  some ((order.visit entries).map Prod.snd)

/-- The end of the interval is computed modulo `2 ^ 64`. -/
def getBlockHashesByTimestamps (database : IndexedDatabase) (timestampBegin : UInt64)
    (secondsCount : UInt64) : List Hash :=
  let timestampEnd := timestampBegin + secondsCount
  (List.range' timestampBegin.toNat (timestampEnd.toNat - timestampBegin.toNat)).flatMap
    fun timestamp => (database.blockHashesByTimestamp.get (UInt64.ofNat timestamp)).getD []

def getBlockHeightForTimestamp (database : IndexedDatabase) (timestamp : UInt64) :
    Option (Bool × Nat) := do
  let midnight ← roundToMidnight timestamp
  match database.closestTimestampBlockIndex.get midnight with
  | none => some (false, 0)
  | some blockHeight => some (true, blockHeight)

/-- The search for a day with a block, from a day backwards. -/
def lowerBoundDay (database : IndexedDatabase) : Nat → Nat
  | 0 => 0
  | day + 1 =>
    match database.closestTimestampBlockIndex.get (UInt64.ofNat (day + 1) * oneDaySeconds) with
    | none => lowerBoundDay database day
    | some blockIndex => blockIndex

def getTimestampLowerBoundBlockIndex (database : IndexedDatabase) (timestamp : UInt64) :
    Option Nat := do
  let midnight ← roundToMidnight timestamp
  some (database.lowerBoundDay (midnight / oneDaySeconds).toNat)

inductive Call where
  | pushBlock (pushed : PushedBlock)
  | split (splitBlockIndex : Nat) (self upper : SegmentPtr)

def call (database : IndexedDatabase) : Call → Option IndexedDatabase
  | .pushBlock pushed => database.pushBlock primitives getPaymentIdFromTxExtra pushed
  | .split splitBlockIndex self upper =>
    (database.split primitives getPaymentIdFromTxExtra splitBlockIndex self upper).map Prod.snd

/-! ### What a call does -/

variable {primitives : Primitives} {getPaymentIdFromTxExtra : BinaryArray → Option Hash}
  {database : IndexedDatabase}

structure Stores (primitives : Primitives) (pushed : PushedBlock) (stored : DatabaseBlock) :
    Prop where
  hash : stored.info.blockHash = primitives.getBlockHash pushed.block
  timestamp : stored.info.timestamp = pushed.block.timestamp
  rawBlock : stored.rawBlock = pushed.rawBlock
  transactionHashes : stored.transactionHashes
    = (ofTransaction primitives
        pushed.block.baseTransaction).getTransactionHash primitives
      :: pushed.block.transactionHashes

/-- A successful push: one more block, and every table after its batch. -/
structure Pushed (primitives : Primitives) (getPaymentIdFromTxExtra : BinaryArray → Option Hash)
    (database : IndexedDatabase) (pushed : PushedBlock) (grown : IndexedDatabase) : Prop where
  cache : database.cache.pushBlock primitives pushed = some grown.cache
  nonempty : database.cache.blocks ≠ []
  stored : ∃ stored, Stores primitives pushed stored ∧
    grown.cache.blocks = database.cache.blocks ++ [stored]
  index : database.cache.getTopBlockIndex + 1 = database.cache.blocks.length
  midnight : roundToMidnight pushed.block.timestamp
    = some (pushed.block.timestamp / oneDaySeconds * oneDaySeconds)
  early : pushed.block.timestamp.toNat < 2 ^ 63
  timestamps : grown.blockHashesByTimestamp = database.blockHashesByTimestamp.write
    (database.insertBlockTimestamp {} pushed.block.timestamp (primitives.getBlockHash pushed.block))
  closest : grown.closestTimestampBlockIndex = database.closestTimestampBlockIndex.write
    (database.insertClosest (pushed.block.timestamp / oneDaySeconds * oneDaySeconds)
      database.cache.blocks.length)
  payments : ∃ batch, batch = (ofTransaction primitives
        pushed.block.baseTransaction :: pushed.transactions).foldl
      (database.pushPaymentId primitives getPaymentIdFromTxExtra) {} ∧
    grown.transactionCountsByPaymentIds
      = database.transactionCountsByPaymentIds.write batch.counts ∧
    grown.transactionHashesByPaymentIds = database.transactionHashesByPaymentIds.write batch.hashes

theorem roundToMidnight_eq_some {timestamp midnight : UInt64}
    (rounded : roundToMidnight timestamp = some midnight) :
    timestamp.toNat < 2 ^ 63 ∧ midnight = timestamp / oneDaySeconds * oneDaySeconds := by
  unfold roundToMidnight at rounded
  split at rounded
  · cases rounded
  · cases rounded
    exact ⟨by omega, rfl⟩

theorem pushBlock_pushed {pushed : PushedBlock} {grown : IndexedDatabase}
    (ran : database.pushBlock primitives getPaymentIdFromTxExtra pushed = some grown) :
    Pushed primitives getPaymentIdFromTxExtra database pushed grown := by
  obtain ⟨cache, pushRan, ran⟩ := bind_eq_some_iff.mp ran
  obtain ⟨midnight, rounded, ran⟩ := bind_eq_some_iff.mp ran
  obtain ⟨early, rfl⟩ := roundToMidnight_eq_some rounded
  cases ran
  have built := pushRan
  obtain ⟨info, isInfo, built⟩ := bind_eq_some_iff.mp built
  have inside := (List.getElem?_eq_some_iff.mp isInfo).1
  have length : database.cache.infos.length = database.cache.blocks.length := List.length_map _
  have nonempty : database.cache.blocks ≠ [] := by
    intro empty
    rw [empty] at length
    exact Nat.not_lt_zero _ (length ▸ inside)
  have index : database.cache.getTopBlockIndex + 1 = database.cache.blocks.length := by
    unfold getTopBlockIndex
    omega
  cases built
  refine ⟨pushRan, nonempty, ⟨_, ?_, congrArg (· ++ _)
    (pushTransactions_frame primitives _ _ _).1⟩, index, rounded, early,
    rfl, ?_, _, rfl, rfl, rfl⟩
  · exact ⟨rfl, rfl, rfl, rfl⟩
  · simp only [index]

/-- A successful split: the blocks below the index, and every table after its batch. -/
structure SplitAt (primitives : Primitives) (getPaymentIdFromTxExtra : BinaryArray → Option Hash)
    (database : IndexedDatabase) (splitBlockIndex : Nat) (lower : IndexedDatabase) : Prop where
  deleted : ∃ upper, database.cache.deleteUpper splitBlockIndex upper = some lower.cache
  blocks : lower.cache.blocks = database.cache.blocks.take splitBlockIndex
  timestamps : ∃ blocks batch, database.deletingBlocks primitives splitBlockIndex = some blocks ∧
    blocks.reverse.foldlM database.requestRemoveTimestamp {} = some batch ∧
    lower.blockHashesByTimestamp = database.blockHashesByTimestamp.write batch
  closest : ∃ batch, database.deleteClosestTimestampBlockIndex splitBlockIndex = some batch ∧
    lower.closestTimestampBlockIndex = database.closestTimestampBlockIndex.write batch
  payments : ∃ batch, batch = database.requestDeletePaymentIds primitives getPaymentIdFromTxExtra
      ((database.cache.blocks.drop splitBlockIndex).flatMap DatabaseBlock.transactionHashes) ∧
    lower.transactionCountsByPaymentIds
      = database.transactionCountsByPaymentIds.write batch.counts ∧
    lower.transactionHashesByPaymentIds = database.transactionHashesByPaymentIds.write batch.hashes

theorem split_splitAt {splitBlockIndex : Nat} {self upper : SegmentPtr}
    {segment : BlockchainCache} {lower : IndexedDatabase}
    (ran : database.split primitives getPaymentIdFromTxExtra splitBlockIndex self upper
      = some (segment, lower)) :
    SplitAt primitives getPaymentIdFromTxExtra database splitBlockIndex lower := by
  obtain ⟨⟨segment', lower'⟩, splitRan, ran⟩ := bind_eq_some_iff.mp ran
  obtain ⟨blocks, areBlocks, ran⟩ := bind_eq_some_iff.mp ran
  obtain ⟨timestamps, areTimestamps, ran⟩ := bind_eq_some_iff.mp ran
  obtain ⟨closest, isClosest, ran⟩ := bind_eq_some_iff.mp ran
  cases ran
  have deleted := (split_eq_some splitRan).2
  exact ⟨⟨upper, deleted⟩, (deleteUpper_eq_some deleted).1,
    ⟨blocks, timestamps, areBlocks, areTimestamps, rfl⟩, ⟨closest, isClosest, rfl⟩,
    _, rfl, rfl, rfl⟩

end IndexedDatabase
end Mevacoin
