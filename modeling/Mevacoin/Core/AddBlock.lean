/-
The core: segments, the list of leaves with the main leaf first, the set of main
chain segments and the persistent storage of main chain blocks. `addBlock` is
modelled in two parts, the checks that decide whether the block is accepted and
the placement of an accepted block.

Transaction pool, notifications and logging are left out: none of them feeds back
into the segments or the storage.
-/

import Mevacoin.Core.Validate
import Mevacoin.Lib.SegmentTree

namespace Mevacoin
open Checked
open Parameters

/-- The address of a segment is its position in `chainsStorage`. -/
structure Core where
  chainsStorage : List Segment
  chainsLeaves : List SegmentPtr
  mainChainSet : List SegmentPtr
  mainChainStorage : List RawBlock

/-- How a call can end without returning: an exception, or a pop from the empty
block storage. -/
inductive Fault where
  | exception
  | storageUnderflow
  deriving DecidableEq, Repr

/-- How the checks of `addBlock` can end before the block is accepted. -/
inductive Refusal where
  | rejected (code : ErrorCode)
  | exception
  deriving DecidableEq, Repr

namespace Core

def getParent (core : Core) (ptr : SegmentPtr) : Option SegmentPtr :=
  (core.chainsStorage[ptr]?).bind Segment.getParent

/-- The segment and its parents, up to the root. A parent starts at a lower block
than its child, which bounds the number of steps. -/
def ancestry (core : Core) (ptr : SegmentPtr) : List SegmentPtr :=
  SegmentTree.walk core.getParent
    (((core.chainsStorage[ptr]?).map Segment.getStartBlockIndex).getD 0 + 1) ptr

def lineage (core : Core) (ptr : SegmentPtr) : List Segment :=
  (core.ancestry ptr).filterMap fun ptr => core.chainsStorage[ptr]?

def findIndexInChain (core : Core) (blockHash : Hash) (leaf : SegmentPtr) : Option SegmentPtr :=
  (core.ancestry leaf).find? fun ptr =>
    (core.chainsStorage[ptr]?).any fun segment => segment.hasBlock blockHash

/-- The main chain is searched first, then the alternative chains in order. -/
def findSegmentContainingBlock (core : Core) (blockHash : Hash) : Option SegmentPtr :=
  core.chainsLeaves.findSome? (core.findIndexInChain blockHash)

def updateMainChainSet (core : Core) : Core :=
  { core with mainChainSet := (core.chainsLeaves.head?).elim [] core.ancestry }

end Core

/-! ### The checks -/

/-- What the checks of `addBlock` leave for the placement of the block. -/
structure AcceptedBlock where
  previousBlockIndex : Nat
  pushed : PushedBlock

def extractTransactions (primitives : Primitives) (rawTransactions : List BinaryArray) :
    Option (List CachedTransaction × Nat) := do
  let transactions ← rawTransactions.mapM fun binary =>
    if binary.length > maxTxSize then none
    else (primitives.transactionFromBinaryArray binary).map fun transaction =>
      { transaction := transaction, binaryArray := binary : CachedTransaction }
  some (transactions, (rawTransactions.map List.length).sum)

/-- The comparison of the raw transactions with the hashes in the header. -/
def checkTransactionHashes (primitives : Primitives) (block : BlockTemplate)
    (transactions : List CachedTransaction) : Except BlockValidationError Unit := do
  let transactionHashes := transactions.map (CachedTransaction.getTransactionHash primitives)
  rejectIf (¬block.transactionHashes.Nodup) .transactionDuplicates
  rejectIf (¬transactionHashes.Nodup) .transactionDuplicates
  rejectIf (∃ hash ∈ transactionHashes, hash ∉ block.transactionHashes) .transactionInconsistency
  rejectIf (block.transactionHashes ≠ transactionHashes) .transactionInconsistency

/-- Older mixin rules hold for the length of the unlock window. -/
def mixinChangeWindow (blockIndex : Nat) : Nat :=
  if blockIndex > minedMoneyUnlockWindow then blockIndex - minedMoneyUnlockWindow else blockIndex

/-- A block below the last checkpoint is compared with the checkpoint at its index, any
other block must have enough work. -/
def checkWork (environment : Environment) (block : BlockTemplate) (currentDifficulty : UInt64) :
    Except BlockValidationError Unit :=
  if environment.checkpoints.isInCheckpointZone block.getBlockIndex then
    rejectIf (environment.checkpoints.checkBlock block.getBlockIndex
      (environment.primitives.getBlockHash block) = false) .checkpointBlockHashMismatch
  else
    rejectIf (environment.primitives.checkProofOfWork block currentDifficulty = false)
      .proofOfWorkTooWeak

/-- The checks of `addBlock`, on the segment that holds the parent block followed by
its ancestors. -/
def acceptBlock (environment : Environment) (now : UInt64) (segments : List Segment)
    (block : BlockTemplate) (rawBlock : RawBlock) : Except Refusal AcceptedBlock := do
  let cache ← orError .exception segments.head?
  let (transactions, cumulativeSize) ←
    orError (.rejected (.addBlock .deserializationFailed))
      (extractTransactions environment.primitives rawBlock.transactions)
  let cumulativeBlockSize :=
    (environment.primitives.transactionToBinaryArray block.baseTransaction).length + cumulativeSize
  let previousBlockIndex ← orError .exception (cache.getBlockIndex block.previousBlockHash)
  rejectIf (cumulativeBlockSize > Currency.maxBlockCumulativeSize (previousBlockIndex + 1))
    (.rejected (.block .cumulativeBlockSizeTooBig))
  let minerReward ← mapError .rejected
    (validateBlock environment now segments previousBlockIndex block)
  let currentDifficulty ← orError .exception
    (Lineage.getDifficultyForNextBlock segments previousBlockIndex)
  rejectIf (currentDifficulty = 0) (.rejected (.block .difficultyOverhead))
  checkWhen (block.getBlockIndex ≥ blockBlobShuffleCheckHeight)
    (mapError (fun error => .rejected (.block error))
      (checkTransactionHashes environment.primitives block transactions))
  rejectIf (Mixins.validate transactions block.getBlockIndex = false ∧
      Mixins.validate transactions (mixinChangeWindow block.getBlockIndex) = false)
    (.rejected (.transaction .invalidMixin))
  let (cumulativeFee, validatorState) ←
    mapError (fun error => .rejected (.transaction error))
      (validateTransactions environment now segments previousBlockIndex transactions)
  let alreadyGeneratedCoins ← orError .exception
    (Lineage.getAlreadyGeneratedCoins segments previousBlockIndex)
  let blocksSizeMedian := medianValue
    (Lineage.getLastBlocksSizes segments rewardBlocksWindow previousBlockIndex true)
  let reward ← orError (.rejected (.block .cumulativeBlockSizeTooBig))
    (Currency.getBlockReward block.majorVersion.toNat blocksSizeMedian cumulativeBlockSize
      alreadyGeneratedCoins cumulativeFee)
  rejectIf (minerReward ≠ reward.reward) (.rejected (.block .blockRewardMismatch))
  mapError (fun error => .rejected (.block error)) (checkWork environment block currentDifficulty)
  return {
    previousBlockIndex := previousBlockIndex
    pushed := {
      block := block
      transactions := transactions
      validatorState := validatorState
      blockSize := cumulativeBlockSize
      generatedCoins := reward.emissionChange
      blockDifficulty := currentDifficulty
      rawBlock := rawBlock } }

namespace Core

/-! ### Placement -/

def pushBlock (primitives : Primitives) (core : Core) (ptr : SegmentPtr) (pushed : PushedBlock) :
    Option Core := do
  let segment ← core.chainsStorage[ptr]?
  let segment ← segment.pushBlock primitives (core.lineage ptr).tail pushed
  some { core with chainsStorage := core.chainsStorage.set ptr segment }

/-- A new segment without blocks on top of the given one; it is listed as a leaf. -/
def createSegment (core : Core) (ptr : SegmentPtr) (segment : Segment) (startIndex : Nat) : Core :=
  let newlyForkedChainPtr := core.chainsStorage.length
  { core with
    chainsStorage := core.chainsStorage.set ptr (segment.addChild newlyForkedChainPtr)
      ++ [Segment.memory (BlockchainCache.create ptr startIndex)]
    chainsLeaves := core.chainsLeaves ++ [newlyForkedChainPtr] }

def forkSegment (primitives : Primitives) (core : Core) (ptr : SegmentPtr)
    (accepted : AcceptedBlock) : Option Core := do
  let segment ← core.chainsStorage[ptr]?
  let newlyForkedChainPtr := core.chainsStorage.length
  let core := core.createSegment ptr segment (accepted.previousBlockIndex + 1)
  let core ← core.pushBlock primitives newlyForkedChainPtr accepted.pushed
  some core.updateMainChainSet

/-- `split` of the segment at an address, and the replacement of a leaf by its upper
half. A segment that is not listed as a leaf is looked for in vain, and nothing is
replaced. -/
def splitSegment (primitives : Primitives) (core : Core) (ptr : SegmentPtr)
    (splitBlockIndex : Nat) : Option Core := do
  let upperPtr := core.chainsStorage.length
  match core.chainsStorage[ptr]? with
  | none => none
  | some (.memory cache) =>
    let lower := (core.chainsStorage.set ptr
      (Segment.memory (cache.splitLower splitBlockIndex upperPtr))).mapIdx fun other segment =>
        if other ∈ cache.children then segment.setParent upperPtr else segment
    some { core with
      chainsStorage := lower ++ [Segment.memory (cache.splitUpper splitBlockIndex ptr)]
      chainsLeaves :=
        if cache.children = [] then
          core.chainsLeaves.set (core.chainsLeaves.idxOf ptr) upperPtr
        else core.chainsLeaves }
  | some (.database cache) =>
    let upper ← cache.replayUpper primitives splitBlockIndex ptr
    let lower ← cache.deleteUpper splitBlockIndex upperPtr
    some { core with
      chainsStorage := core.chainsStorage.set ptr (Segment.database lower) ++ [Segment.memory upper]
      chainsLeaves := core.chainsLeaves.set (core.chainsLeaves.idxOf ptr) upperPtr }

/-- The number of blocks to pop is a 32-bit difference. -/
def switchMainChainStorage (core : Core) (splitBlockIndex : Nat) (newChain : SegmentPtr) :
    Except Fault Core := do
  let blocksToPop := (core.mainChainStorage.length + 2 ^ 32 - splitBlockIndex) % 2 ^ 32
  rejectIf (core.mainChainStorage.length < blocksToPop) .storageUnderflow
  let segments := core.lineage newChain
  let segment ← orError .exception core.chainsStorage[newChain]?
  let blocks ← orError .exception
    ((List.range' splitBlockIndex (segment.getTopBlockIndex + 1 - splitBlockIndex)).mapM
      fun index => Lineage.getBlockByIndex index segments)
  return { core with
    mainChainStorage :=
      core.mainChainStorage.take (core.mainChainStorage.length - blocksToPop) ++ blocks }

/-- The block goes on top of an alternative leaf, which becomes the main leaf if it is
now strictly heavier. -/
def extendAlternative (primitives : Primitives) (core : Core) (ptr : SegmentPtr)
    (accepted : AcceptedBlock) : Except Fault (ErrorCode × Core) := do
  let core ← orError .exception (core.pushBlock primitives ptr accepted.pushed)
  let segment ← orError .exception core.chainsStorage[ptr]?
  let mainChainPtr ← orError .exception core.chainsLeaves.head?
  let mainChainCache ← orError .exception core.chainsStorage[mainChainPtr]?
  if segment.getCurrentCumulativeDifficulty > mainChainCache.getCurrentCumulativeDifficulty then
    let endpointIndex := core.chainsLeaves.idxOf ptr
    let core :=
      { core with chainsLeaves := (core.chainsLeaves.set 0 ptr).set endpointIndex mainChainPtr }
    let core ← core.updateMainChainSet.switchMainChainStorage segment.getStartBlockIndex ptr
    return (.addBlock .addedToAlternativeAndSwitched, core)
  else
    return (.addBlock .addedToAlternative, core)

/-- Where an accepted block goes, depending on the position of its parent in the
segment found. -/
def placeBlock (primitives : Primitives) (core : Core) (ptr : SegmentPtr)
    (accepted : AcceptedBlock) : Except Fault (ErrorCode × Core) := do
  let cache ← orError .exception core.chainsStorage[ptr]?
  if cache.getTopBlockIndex = accepted.previousBlockIndex then
    if cache.getChildCount = 0 then
      if core.chainsLeaves.head? = some ptr then
        let core := { core with
          mainChainStorage := core.mainChainStorage ++ [accepted.pushed.rawBlock] }
        let core ← orError .exception (core.pushBlock primitives ptr accepted.pushed)
        return (.addBlock .addedToMain, core)
      else core.extendAlternative primitives ptr accepted
    else
      let core ← orError .exception (core.forkSegment primitives ptr accepted)
      return (.addBlock .addedToAlternative, core)
  else
    let core ← orError .exception
      (core.splitSegment primitives ptr (accepted.previousBlockIndex + 1))
    let core ← orError .exception (core.forkSegment primitives ptr accepted)
    return (.addBlock .addedToAlternative, core)

def addCachedBlock (environment : Environment) (now : UInt64) (core : Core)
    (block : BlockTemplate) (rawBlock : RawBlock) : Except Fault (ErrorCode × Core) :=
  if (core.findSegmentContainingBlock (environment.primitives.getBlockHash block)).isSome then
    .ok (.addBlock .alreadyExists, core)
  else
    match core.findSegmentContainingBlock block.previousBlockHash with
    | none => .ok (.addBlock .rejectedAsOrphaned, core)
    | some ptr =>
      match acceptBlock environment now (core.lineage ptr) block rawBlock with
      | .error (.rejected code) => .ok (code, core)
      | .error .exception => .error .exception
      | .ok accepted => core.placeBlock environment.primitives ptr accepted

def addBlock (environment : Environment) (now : UInt64) (core : Core) (rawBlock : RawBlock) :
    Except Fault (ErrorCode × Core) :=
  match environment.primitives.blockFromBinaryArray rawBlock.block with
  | none => .ok (.addBlock .deserializationFailed, core)
  | some block => core.addCachedBlock environment now block rawBlock

end Core
end Mevacoin
