/-
Pushing a block onto a segment and splitting a segment, for both kinds. The
addresses that tie the two halves to the tree are set by the core.

A result of `none` is an exception.
-/

import Mevacoin.Cache.Query

namespace Mevacoin

/-! ### Pushing onto a memory segment -/

namespace BlockchainCache

/-- Key images are unique in their container: a second insertion has no effect. -/
def addSpentKeyImage (blockIndex : Nat) (spentKeyImages : List SpentKeyImage)
    (keyImage : KeyImage) : List SpentKeyImage :=
  if spentKeyImages.any fun spent => spent.keyImage = keyImage then spentKeyImages
  else spentKeyImages ++ [{ blockIndex := blockIndex, keyImage := keyImage }]

/-- The new entry of an amount and the global index of the output added to it. -/
def insertKeyOutputToGlobalIndex (parents : List Segment) (amount : UInt64)
    (output : PackedOutIndex)
    (keyOutputsGlobalIndexes : UInt64 → Option OutputGlobalIndexesForAmount) :
    (UInt64 → Option OutputGlobalIndexesForAmount) × UInt32 :=
  let entry : OutputGlobalIndexesForAmount :=
    match keyOutputsGlobalIndexes amount with
    | some entry => { entry with outputs := entry.outputs ++ [output] }
    | none =>
      { startIndex :=
          UInt32.ofNat (Lineage.getKeyOutputsCountForAmount amount output.blockIndex parents)
        outputs := [output] }
  (Function.update keyOutputsGlobalIndexes amount (some entry),
    entry.startIndex + UInt32.ofNat entry.outputs.length - 1)

def numberOutputs (parents : List Segment) (blockIndex transactionIndex : Nat)
    (outputs : List TransactionOutput)
    (keyOutputsGlobalIndexes : UInt64 → Option OutputGlobalIndexesForAmount) :
    (UInt64 → Option OutputGlobalIndexesForAmount) × List UInt32 :=
  outputs.zipIdx.foldl
    (fun numbered output =>
      let (table, globalIndex) := insertKeyOutputToGlobalIndex parents output.1.amount
        { blockIndex := blockIndex
          transactionIndex := transactionIndex
          outputIndex := output.2 % 2 ^ 16 }
        numbered.1
      (table, numbered.2 ++ [globalIndex]))
    (keyOutputsGlobalIndexes, [])

/-- Transactions are unique by position and by hash. -/
def insertTransaction (transactions : List CachedTransactionInfo) (info : CachedTransactionInfo) :
    List CachedTransactionInfo :=
  if transactions.any fun other =>
      other.transactionHash = info.transactionHash ∨
        (other.blockIndex = info.blockIndex ∧ other.transactionIndex = info.transactionIndex)
  then transactions
  else transactions ++ [info]

def pushTransaction (primitives : Primitives) (parents : List Segment) (blockIndex : Nat)
    (cache : BlockchainCache) (transaction : CachedTransaction × Nat) : BlockchainCache :=
  let (cached, transactionIndex) := transaction
  let (table, globalIndexes) := numberOutputs parents blockIndex transactionIndex
    cached.transaction.outputs cache.keyOutputsGlobalIndexes
  { cache with
    keyOutputsGlobalIndexes := table
    transactions := insertTransaction cache.transactions
      { blockIndex := blockIndex
        transactionIndex := transactionIndex
        transactionHash := cached.getTransactionHash primitives
        unlockTime := cached.transaction.unlockTime
        outputs := cached.transaction.outputs.map TransactionOutput.target
        globalIndexes := globalIndexes } }

structure Totals where
  cumulativeDifficulty : UInt64
  alreadyGeneratedCoins : UInt64
  alreadyGeneratedTransactions : UInt64

def Totals.ofInfo (info : CachedBlockInfo) : Totals :=
  { cumulativeDifficulty := info.cumulativeDifficulty
    alreadyGeneratedCoins := info.alreadyGeneratedCoins
    alreadyGeneratedTransactions := info.alreadyGeneratedTransactions }

/-- The first block of a segment continues the totals of the parent, any other block
those of the segment's newest block. -/
def previousTotals (parents : List Segment) (cache : BlockchainCache) (blockIndex : Nat) :
    Option Totals :=
  match cache.blocks.getLast? with
  | some entry => some (Totals.ofInfo entry.info)
  | none =>
    match parents with
    | [] =>
      some { cumulativeDifficulty := 0
             alreadyGeneratedCoins := 0
             alreadyGeneratedTransactions := 0 }
    | parent :: _ => do
        let cumulativeDifficulty ← parent.getCurrentCumulativeDifficultyAt (blockIndex - 1)
        let coins ← Lineage.getAlreadyGeneratedCoins parents (blockIndex - 1)
        let transactions ← Lineage.getAlreadyGeneratedTransactions parents (blockIndex - 1)
        some { cumulativeDifficulty := cumulativeDifficulty
               alreadyGeneratedCoins := coins
               alreadyGeneratedTransactions := transactions }

end BlockchainCache

def PushedBlock.info (primitives : Primitives) (pushed : PushedBlock)
    (totals : BlockchainCache.Totals) : CachedBlockInfo :=
  { blockHash := primitives.getBlockHash pushed.block
    timestamp := pushed.block.timestamp
    cumulativeDifficulty := totals.cumulativeDifficulty + pushed.blockDifficulty
    alreadyGeneratedCoins := totals.alreadyGeneratedCoins + pushed.generatedCoins
    alreadyGeneratedTransactions :=
      totals.alreadyGeneratedTransactions + UInt64.ofNat pushed.transactions.length + 1
    blockSize := UInt32.ofNat pushed.blockSize }

def PushedBlock.entry (primitives : Primitives) (pushed : PushedBlock)
    (totals : BlockchainCache.Totals) : BlockEntry :=
  { info := pushed.info primitives totals
    rawBlock := pushed.rawBlock }

/-- The base transaction and the others, with their position in the block. Positions
are 16-bit numbers. -/
def PushedBlock.indexedTransactions (primitives : Primitives) (pushed : PushedBlock) :
    List (CachedTransaction × Nat) :=
  (CachedTransaction.ofTransaction primitives pushed.block.baseTransaction
    :: pushed.transactions).zipIdx.map fun transaction => (transaction.1, transaction.2 % 2 ^ 16)

namespace BlockchainCache

def pushBlock (primitives : Primitives) (parents : List Segment) (cache : BlockchainCache)
    (pushed : PushedBlock) : Option BlockchainCache := do
  let blockIndex := pushed.block.getBlockIndex
  let totals ← previousTotals parents cache blockIndex
  let cache :=
    { cache with
      blocks := cache.blocks ++ [pushed.entry primitives totals]
      spentKeyImages := pushed.validatorState.spentKeyImages.foldl
        (addSpentKeyImage blockIndex) cache.spentKeyImages }
  some ((pushed.indexedTransactions primitives).foldl
    (pushTransaction primitives parents blockIndex) cache)

def splitGlobalIndexesUpper (splitBlockIndex : Nat) (entry : OutputGlobalIndexesForAmount) :
    Option OutputGlobalIndexesForAmount :=
  let kept := (entry.outputs.takeWhile fun output => output.blockIndex < splitBlockIndex).length
  let moved := entry.outputs.drop kept
  if moved.isEmpty then none
  else some { startIndex := entry.startIndex + UInt32.ofNat kept, outputs := moved }

def splitGlobalIndexesLower (splitBlockIndex : Nat) (entry : OutputGlobalIndexesForAmount) :
    Option OutputGlobalIndexesForAmount :=
  let kept := entry.outputs.takeWhile fun output => output.blockIndex < splitBlockIndex
  if kept.isEmpty then none else some { entry with outputs := kept }

/-- The lower half, in place of the segment; `upper` is the address of the other half. -/
def splitLower (cache : BlockchainCache) (splitBlockIndex : Nat) (upper : SegmentPtr) :
    BlockchainCache :=
  { cache with
    blocks := cache.blocks.take (splitBlockIndex - cache.startIndex)
    transactions := cache.transactions.filter fun info => info.blockIndex < splitBlockIndex
    spentKeyImages := cache.spentKeyImages.filter fun spent => spent.blockIndex < splitBlockIndex
    keyOutputsGlobalIndexes := fun amount =>
      (cache.keyOutputsGlobalIndexes amount).bind (splitGlobalIndexesLower splitBlockIndex)
    children := [upper] }

/-- The upper half, a child of the segment at `self` that takes over its children. -/
def splitUpper (cache : BlockchainCache) (splitBlockIndex : Nat) (self : SegmentPtr) :
    BlockchainCache :=
  { parent := some self
    startIndex := splitBlockIndex
    blocks := cache.blocks.drop (splitBlockIndex - cache.startIndex)
    transactions := cache.transactions.filter fun info => splitBlockIndex ≤ info.blockIndex
    spentKeyImages := cache.spentKeyImages.filter fun spent => splitBlockIndex ≤ spent.blockIndex
    keyOutputsGlobalIndexes := fun amount =>
      (cache.keyOutputsGlobalIndexes amount).bind (splitGlobalIndexesUpper splitBlockIndex)
    children := cache.children }

end BlockchainCache

/-! ### Pushing onto the database segment -/

namespace DatabaseBlockchainCache

/-- Numbers one output of a transaction: the output table, and the numbers given out
so far for this transaction. -/
def numberOutput (blockIndex transactionIndex : Nat) (transactionHash : Hash)
    (unlockTime : UInt64)
    (numbered : (UInt64 → List StoredKeyOutput) × List (UInt64 × Nat))
    (output : TransactionOutput × Nat) :
    (UInt64 → List StoredKeyOutput) × List (UInt64 × Nat) :=
  let amount := output.1.amount
  let stored : StoredKeyOutput :=
    { packed :=
        { blockIndex := blockIndex
          transactionIndex := transactionIndex
          outputIndex := output.2 % 2 ^ 16 }
      info :=
        { publicKey := output.1.target.key
          transactionHash := transactionHash
          unlockTime := unlockTime
          outputIndex := output.2 % 2 ^ 16 } }
  (Function.update numbered.1 amount (numbered.1 amount ++ [stored]),
    numbered.2 ++ [(amount, (numbered.1 amount).length)])

def pushTransaction (primitives : Primitives) (blockIndex : Nat)
    (cache : DatabaseBlockchainCache) (transaction : CachedTransaction × Nat) :
    DatabaseBlockchainCache :=
  let (cached, transactionIndex) := transaction
  let transactionHash := cached.getTransactionHash primitives
  let (keyOutputs, amountToKeyIndexes) := cached.transaction.outputs.zipIdx.foldl
    (numberOutput blockIndex transactionIndex transactionHash cached.transaction.unlockTime)
    (cache.keyOutputs, [])
  { cache with
    keyOutputs := keyOutputs
    cachedTransactions := Function.update cache.cachedTransactions transactionHash
      (some
        { blockIndex := blockIndex
          transactionIndex := transactionIndex
          transactionHash := transactionHash
          unlockTime := cached.transaction.unlockTime
          outputs := cached.transaction.outputs.map TransactionOutput.target
          globalIndexes := amountToKeyIndexes.map fun index => UInt32.ofNat index.2
          amountToKeyIndexes := amountToKeyIndexes }) }

def pushBlock (primitives : Primitives) (cache : DatabaseBlockchainCache) (pushed : PushedBlock) :
    Option DatabaseBlockchainCache := do
  let lastBlockInfo ← cache.infos[cache.getTopBlockIndex]?
  let info := pushed.info primitives (BlockchainCache.Totals.ofInfo lastBlockInfo)
  let blockIndex := cache.getTopBlockIndex + 1
  let baseHash := (CachedTransaction.ofTransaction primitives
    pushed.block.baseTransaction).getTransactionHash primitives
  let spentKeyImages := pushed.validatorState.spentKeyImages
  let cache := (pushed.indexedTransactions primitives).foldl
    (pushTransaction primitives blockIndex) cache
  let unitsCache := cache.unitsCache ++ [info]
  some { cache with
    blocks := cache.blocks ++ [{
      info := info
      rawBlock := pushed.rawBlock
      transactionHashes := baseHash :: pushed.block.transactionHashes
      spentKeyImages := spentKeyImages }]
    blockIndexBySpentKeyImage := fun keyImage =>
      if keyImage ∈ spentKeyImages then some blockIndex
      else cache.blockIndexBySpentKeyImage keyImage
    unitsCache := if unitsCache.length > unitsCacheSize then unitsCache.drop 1 else unitsCache }

end DatabaseBlockchainCache

/-- The parents are the segments below, which only a memory segment asks. -/
def Segment.pushBlock (primitives : Primitives) (parents : List Segment) (segment : Segment)
    (pushed : PushedBlock) : Option Segment :=
  match segment with
  | database cache => (cache.pushBlock primitives pushed).map database
  | memory cache => (cache.pushBlock primitives parents pushed).map memory

/-! ### Splitting the database segment -/

namespace DatabaseBlockchainCache

/-- A stored block in the form in which it is handed to another segment. Difficulty
and coins are differences to the block below. -/
def getExtendedPushedBlockInfo (primitives : Primitives) (cache : DatabaseBlockchainCache)
    (blockIndex : Nat) : Option PushedBlock := do
  let stored ← cache.blocks[blockIndex]?
  let previous : BlockchainCache.Totals ←
    if blockIndex > 0 then
      (cache.infos[blockIndex - 1]?).map BlockchainCache.Totals.ofInfo
    else
      some { cumulativeDifficulty := 0
             alreadyGeneratedCoins := 0
             alreadyGeneratedTransactions := 0 }
  let block ← primitives.blockFromBinaryArray stored.rawBlock.block
  let transactions ← stored.rawBlock.transactions.mapM primitives.transactionFromBinaryArray
  some {
    block := block
    transactions := transactions.map (CachedTransaction.ofTransaction primitives)
    validatorState := { spentKeyImages := stored.spentKeyImages }
    blockSize := stored.info.blockSize.toNat
    generatedCoins := stored.info.alreadyGeneratedCoins - previous.alreadyGeneratedCoins
    blockDifficulty := stored.info.cumulativeDifficulty - previous.cumulativeDifficulty
    rawBlock := stored.rawBlock }

/-- The blocks from the split index upwards, pushed one by one onto a new segment
while the database still holds them. -/
def replayUpper (primitives : Primitives) (cache : DatabaseBlockchainCache)
    (splitBlockIndex : Nat) (self : SegmentPtr) : Option BlockchainCache :=
  (List.range' splitBlockIndex (cache.getTopBlockIndex + 1 - splitBlockIndex)).foldlM
    (fun upper blockIndex => do
      let pushed ← cache.getExtendedPushedBlockInfo primitives blockIndex
      upper.pushBlock primitives [.database cache] pushed)
    (BlockchainCache.create self splitBlockIndex)

/-- The smallest global index that the given transactions use for an amount. -/
def keyIndexSplitBoundary (transactions : List ExtendedTransactionInfo) (amount : UInt64) :
    Option Nat :=
  ((transactions.flatMap ExtendedTransactionInfo.amountToKeyIndexes).filterMap fun index =>
    if index.1 = amount then some index.2 else none).min?

def cutTail (unitsCache : List CachedBlockInfo) (count : Nat) : List CachedBlockInfo :=
  if count ≥ unitsCache.length then [] else unitsCache.take (unitsCache.length - count)

/-- Deletes the blocks from the split index upwards. The transactions to delete are
found by the hashes in the block templates; a missing one is an error. The upper
segment becomes one more child; the children there are keep their parent. -/
def deleteUpper (cache : DatabaseBlockchainCache) (splitBlockIndex : Nat) (upper : SegmentPtr) :
    Option DatabaseBlockchainCache := do
  let deleted := cache.blocks.drop splitBlockIndex
  let transactionHashes := deleted.flatMap DatabaseBlock.transactionHashes
  let transactions ← transactionHashes.mapM cache.cachedTransactions
  let spentKeyImages := deleted.flatMap DatabaseBlock.spentKeyImages
  some {
    blocks := cache.blocks.take splitBlockIndex
    blockIndexBySpentKeyImage := fun keyImage =>
      if keyImage ∈ spentKeyImages then none else cache.blockIndexBySpentKeyImage keyImage
    cachedTransactions := fun hash =>
      if hash ∈ transactionHashes then none else cache.cachedTransactions hash
    keyOutputs := fun amount =>
      match keyIndexSplitBoundary transactions amount with
      | some boundary => (cache.keyOutputs amount).take boundary
      | none => cache.keyOutputs amount
    unitsCache := cutTail cache.unitsCache (cache.getTopBlockIndex + 1 - splitBlockIndex)
    children := cache.children ++ [upper] }

end DatabaseBlockchainCache
end Mevacoin
