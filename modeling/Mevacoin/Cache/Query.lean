/-
Queries of the blockchain caches. A query runs on a segment followed by its parents
up to the root; the empty list plays the part of the null parent. Each query is the
one the source implements once per kind of segment.

A result of `none` is an exception, except where stated otherwise.
-/

import Mevacoin.Cache.Segment
import Mevacoin.Difficulty.Algorithms
import Mevacoin.Lib.BinarySearch

namespace Mevacoin
open Parameters CachedBlockInfo

/-! ### Windows of recent blocks -/

namespace DatabaseBlockchainCache

def infos (cache : DatabaseBlockchainCache) : List CachedBlockInfo :=
  cache.blocks.map DatabaseBlock.info

def getTopBlockIndex (cache : DatabaseBlockchainCache) : Nat := cache.blocks.length - 1

def getLastCachedUnits (cache : DatabaseBlockchainCache) (blockIndex count : Nat)
    (useGenesis : Bool) : List CachedBlockInfo :=
  let cacheStartIndex := (cache.getTopBlockIndex + 1) - cache.unitsCache.length
  let count := min cache.unitsCache.length count
  if cacheStartIndex > blockIndex ∨ count = 0 then []
  else
    let count := min (blockIndex - cacheStartIndex + 1) count
    let offset := (blockIndex + 1 - count) - cacheStartIndex
    let skip := if !useGenesis ∧ cacheStartIndex = 0 ∧ offset = 0 then 1 else 0
    let offset := offset + skip
    let count := count - skip
    if offset ≥ cache.unitsCache.length ∨ count = 0 then []
    else (cache.unitsCache.drop offset).take count

/-- The count is narrowed to 32 bits before it is used. -/
def getLastDbUnits (cache : DatabaseBlockchainCache) (blockIndex count : Nat)
    (useGenesis : Bool) : List CachedBlockInfo :=
  let readFrom := blockIndex + 1 - min (blockIndex + 1) (count % 2 ^ 32)
  let readFrom := if readFrom = 0 ∧ !useGenesis then readFrom + 1 else readFrom
  (cache.infos.drop readFrom).take (blockIndex + 1 - readFrom)

def getLastUnits (cache : DatabaseBlockchainCache) (count blockIndex : Nat)
    (useGenesis : Bool) : List CachedBlockInfo :=
  let cachedUnits := cache.getLastCachedUnits blockIndex count useGenesis
  let availableUnits := if useGenesis then blockIndex + 1 else blockIndex
  if availableUnits - cachedUnits.length = 0 then cachedUnits
  else
    cache.getLastDbUnits (blockIndex - cachedUnits.length) (count - cachedUnits.length) useGenesis
      ++ cachedUnits

end DatabaseBlockchainCache

namespace Lineage

/-- `getLastUnits` of both kinds of segment, before the projection to one field. -/
def getLastUnits (count blockIndex : Nat) (useGenesis : Bool) :
    List Segment → List CachedBlockInfo
  | [] => []
  | .database cache :: _ => cache.getLastUnits count blockIndex useGenesis
  | .memory cache :: parents =>
    let stop := if blockIndex < cache.startIndex then 0 else blockIndex - cache.startIndex + 1
    let realCount := min count stop
    let start := stop - realCount
    let skip := if !useGenesis ∧ start = 0 ∧ realCount ≠ 0 ∧ parents.isEmpty then 1 else 0
    let realCount := realCount - skip
    let start := start + skip
    let fromParent :=
      match parents with
      | [] => []
      | parent :: _ =>
        if realCount < count then
          getLastUnits (count - realCount) (min blockIndex parent.getTopBlockIndex) useGenesis
            parents
        else []
    fromParent ++ ((cache.blocks.map BlockEntry.info).take stop).drop start

def getLastTimestamps (segments : List Segment) (count blockIndex : Nat) (useGenesis : Bool) :
    List UInt64 :=
  (getLastUnits count blockIndex useGenesis segments).map timestamp

def getLastBlocksSizes (segments : List Segment) (count blockIndex : Nat) (useGenesis : Bool) :
    List Nat :=
  (getLastUnits count blockIndex useGenesis segments).map fun info => info.blockSize.toNat

def getLastCumulativeDifficulties (segments : List Segment) (count blockIndex : Nat)
    (useGenesis : Bool) : List UInt64 :=
  (getLastUnits count blockIndex useGenesis segments).map cumulativeDifficulty

/-- Here `none` is the division by zero of the difficulty algorithm. -/
def getDifficultyForNextBlock (segments : List Segment) (blockIndex : Nat) : Option UInt64 :=
  let nextBlockMajorVersion := UpgradeManager.getBlockMajorVersion (blockIndex + 1)
  let count := Currency.difficultyBlocksCountByBlockVersion nextBlockMajorVersion blockIndex
  Currency.getNextDifficulty nextBlockMajorVersion blockIndex
    (getLastTimestamps segments count blockIndex false)
    (getLastCumulativeDifficulties segments count blockIndex false)

/-- The cached record of a block, forwarded to the parent below the first block. -/
def getCachedBlockInfo (blockIndex : Nat) : List Segment → Option CachedBlockInfo
  | [] => none
  | .database cache :: _ => cache.infos[blockIndex]?
  | .memory cache :: parents =>
    if blockIndex < cache.startIndex then getCachedBlockInfo blockIndex parents
    else (cache.blocks[blockIndex - cache.startIndex]?).map BlockEntry.info

def getAlreadyGeneratedCoins (segments : List Segment) (blockIndex : Nat) : Option UInt64 :=
  (getCachedBlockInfo blockIndex segments).map alreadyGeneratedCoins

def getAlreadyGeneratedTransactions (segments : List Segment) (blockIndex : Nat) :
    Option UInt64 :=
  (getCachedBlockInfo blockIndex segments).map alreadyGeneratedTransactions

end Lineage

namespace Segment

/-- `getCurrentCumulativeDifficulty` at a block index is not forwarded to the parent. -/
def getCurrentCumulativeDifficultyAt (segment : Segment) (blockIndex : Nat) : Option UInt64 :=
  if blockIndex < segment.getStartBlockIndex then none
  else (segment.entries[blockIndex - segment.getStartBlockIndex]?).map
    fun entry => entry.info.cumulativeDifficulty

def getCurrentCumulativeDifficulty (segment : Segment) : UInt64 :=
  match segment.entries.getLast? with
  | some entry => entry.info.cumulativeDifficulty
  | none => 0

end Segment

namespace Lineage

def checkIfSpent (keyImage : KeyImage) (blockIndex : Nat) : List Segment → Bool
  | [] => false
  | .database cache :: _ =>
    match cache.blockIndexBySpentKeyImage keyImage with
    | none => false
    | some spentIn => spentIn ≤ blockIndex
  | .memory cache :: parents =>
    if blockIndex < cache.startIndex then checkIfSpent keyImage blockIndex parents
    else
      match cache.findSpentKeyImage keyImage with
      | none => checkIfSpent keyImage blockIndex parents
      | some spent => spent.blockIndex ≤ blockIndex

/-! ### Outputs by amount and global index -/

/-- Outputs of an amount created before a block. The searches are for the first
output at or above the block, over lists ordered by block. -/
def getKeyOutputsCountForAmount (amount : UInt64) (blockIndex : Nat) : List Segment → Nat
  | [] => 0
  | .database cache :: _ =>
    ((cache.keyOutputs amount).takeWhile fun output => output.packed.blockIndex < blockIndex).length
  | .memory cache :: parents =>
    match cache.keyOutputsGlobalIndexes amount with
    | none => getKeyOutputsCountForAmount amount blockIndex parents
    | some entry =>
      entry.startIndex.toNat
        + (entry.outputs.takeWhile fun output => output.blockIndex < blockIndex).length

end Lineage

/-- The rule that decides whether an output may be spent at a block index. -/
def isTransactionSpendTimeUnlocked (now : UInt64) (unlockTime : UInt64) (blockIndex : Nat) : Bool :=
  if unlockTime.toNat < maxBlockNumber then
    unlockTime.toNat ≤ blockIndex + lockedTxAllowedDeltaBlocks
  else unlockTime ≤ now + UInt64.ofNat lockedTxAllowedDeltaSeconds

/-- The callback of `extractKeyOutputKeys`, as a step on the keys collected so far. -/
def collectKey (now : UInt64) (blockIndex : Nat) (unlockTime : UInt64) (key : PublicKey)
    (keys : List PublicKey) : Except ExtractOutputKeysResult (List PublicKey) :=
  if isTransactionSpendTimeUnlocked now unlockTime blockIndex then .ok (keys ++ [key])
  else .error .outputLocked

namespace DatabaseBlockchainCache

/-- Global indexes in ascending order without repetition, as the ordered map of the
lookup results holds them. -/
def orderedIndexes (globalIndexes : List UInt32) : List UInt32 :=
  (globalIndexes.insertionSort (· ≤ ·)).dedup

/-- The lookup does not use the block index, and skips indexes that have no output. -/
def extractKeyOutputs (cache : DatabaseBlockchainCache) (now : UInt64) (amount : UInt64)
    (blockIndex : Nat) (globalIndexes : List UInt32) (keys : List PublicKey) :
    Except ExtractOutputKeysResult (List PublicKey) :=
  (orderedIndexes globalIndexes).foldlM
    (fun keys globalIndex =>
      match (cache.keyOutputs amount)[globalIndex.toNat]? with
      | none => .ok keys
      | some output => collectKey now blockIndex output.info.unlockTime output.info.publicKey keys)
    keys

end DatabaseBlockchainCache

namespace BlockchainCache

/-- The part of the lookup that a memory segment answers from its own outputs. -/
def extractOwnKeyOutputs (cache : BlockchainCache) (now : UInt64) (blockIndex : Nat)
    (entry : OutputGlobalIndexesForAmount) (globalIndexes : List UInt32) (keys : List PublicKey) :
    Except ExtractOutputKeysResult (List PublicKey) :=
  globalIndexes.foldlM
    (fun keys globalIndex =>
      match entry.outputs[(globalIndex - entry.startIndex).toNat]? with
      | none => .error .invalidGlobalIndex
      | some packed =>
        match cache.findTransaction packed.blockIndex packed.transactionIndex with
        | none => .error .invalidGlobalIndex
        | some info =>
          match info.outputs[packed.outputIndex]? with
          | none => .error .invalidGlobalIndex
          | some output => collectKey now blockIndex info.unlockTime output.key keys)
    keys

end BlockchainCache

namespace Lineage

/-- `extractKeyOutputKeys` at a block index: the keys in the order in which the
callback appends them. The indexes for the parent are found by a binary search, which
splits a list that is not sorted somewhere. -/
def extractKeyOutputKeys (now : UInt64) (amount : UInt64) (blockIndex : Nat)
    (globalIndexes : List UInt32) (keys : List PublicKey) :
    List Segment → Except ExtractOutputKeysResult (List PublicKey)
  | [] => .error .invalidGlobalIndex
  | .database cache :: _ => cache.extractKeyOutputs now amount blockIndex globalIndexes keys
  | .memory cache :: parents =>
    match cache.keyOutputsGlobalIndexes amount with
    | none => extractKeyOutputKeys now amount blockIndex globalIndexes keys parents
    | some entry =>
      if blockIndex < cache.startIndex then
        extractKeyOutputKeys now amount blockIndex globalIndexes keys parents
      else
        let offset := BinarySearch.lowerBound (fun index => index < entry.startIndex)
          globalIndexes
        let parentIndexes := globalIndexes.take offset
        let ownIndexes := globalIndexes.drop offset
        if offset = 0 then
          cache.extractOwnKeyOutputs now blockIndex entry ownIndexes keys
        else
          match extractKeyOutputKeys now amount blockIndex parentIndexes keys parents with
          | .error result => .error result
          | .ok keys => cache.extractOwnKeyOutputs now blockIndex entry ownIndexes keys

def getBlockByIndex (blockIndex : Nat) : List Segment → Option RawBlock
  | [] => none
  | .database cache :: _ => (cache.blocks[blockIndex]?).map DatabaseBlock.rawBlock
  | .memory cache :: parents =>
    if blockIndex < cache.startIndex then getBlockByIndex blockIndex parents
    else (cache.blocks[blockIndex - cache.startIndex]?).map BlockEntry.rawBlock

end Lineage
end Mevacoin
