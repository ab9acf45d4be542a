/-
Block templates: the transactions taken from the pool, the coinbase made for them in
up to ten rounds, and the comparison with the size and reward checks of `addBlock`.
-/

import Mevacoin.Mining.NextDifficulty
import Mevacoin.Pool.TransactionPool
import Mevacoin.Serialization.Blocks

namespace Mevacoin
open List Option TransactionPool CachedTransaction Currency UpgradeManager Lineage TransactionOutput

namespace Parameters

def minerTxBlobReservedSize : Nat := 600
def fusionTxMaxSize : Nat := blockGrantedFullRewardZone * 30 / 100
def dustThresholdV2Height : Nat := mixinLimitsV2Height
def maxExtraSizeBlock : Nat := 128
def txExtraNonceMaxCount : Nat := 255
def triesCount : Nat := 10
def maxOuts : Nat := 11

end Parameters

open Parameters

def TransactionPool.getPoolTransactions (pool : TransactionPool) : List CachedTransaction :=
  pool.transactionCostIndex.map PendingTransactionInfo.cachedTransaction

/-- `TransactionSpentInputsChecker`: stops at the first key image that it has seen. -/
def haveSpentInputs (spent : List KeyImage) : List KeyImage → Bool × List KeyImage
  | [] => (false, spent)
  | keyImage :: rest =>
    if keyImage ∈ spent then (true, spent) else haveSpentInputs (keyImage :: spent) rest

def validateBlockTemplateTransaction (blockHeight : Nat) (cached : CachedTransaction) : Bool :=
  cached.transaction.extra.length < maxExtraSizeBlock && Mixins.validate [cached] blockHeight

structure TemplateSelection where
  transactions : List CachedTransaction := []
  transactionsSize : Nat := 0
  fee : UInt64 := 0
  alreadySpentKeyImages : List KeyImage := []

namespace TemplateSelection

/-- One round of a selection loop, with the limit for the size and the fee to be added. -/
def consider (blockHeight blockSizeLimit : Nat) (fee : UInt64) (selection : TemplateSelection)
    (cached : CachedTransaction) : TemplateSelection :=
  if blockSizeLimit < selection.transactionsSize + cached.binaryArray.length then selection
  else if ¬validateBlockTemplateTransaction blockHeight cached then selection
  else
    match haveSpentInputs selection.alreadySpentKeyImages cached.transaction.keyImages with
    | (true, spent) => { selection with alreadySpentKeyImages := spent }
    | (false, spent) =>
      { transactions := selection.transactions ++ [cached]
        transactionsSize := selection.transactionsSize + cached.binaryArray.length
        fee := selection.fee + fee
        alreadySpentKeyImages := spent }

end TemplateSelection

/-- First the transactions without a fee from the end of the pool, up to the size of a fusion
transaction, then all transactions in the order of their cost. -/
def fillBlockTemplate (poolTransactions : List CachedTransaction)
    (medianSize maxCumulativeSize height : Nat) : TemplateSelection :=
  let maxTotalSize := min (125 * medianSize / 100) maxCumulativeSize - minerTxBlobReservedSize
  let fusions := poolTransactions.reverse.takeWhile fun cached => cached.getTransactionFee = 0
  poolTransactions.foldl
    (fun selection cached =>
      selection.consider height
        (if cached.getTransactionFee = 0 then medianSize else maxTotalSize)
        cached.getTransactionFee cached)
    (fusions.foldl (fun selection cached => selection.consider height fusionTxMaxSize 0 cached) {})

/-! ### The coinbase -/

def Currency.defaultDustThreshold (height : Nat) : UInt64 :=
  if height ≥ dustThresholdV2Height then 0 else 10

/-- A number of 64 bits has at most twenty digits. -/
def decomposeDigits (dustThreshold : UInt64) : Nat → UInt64 → UInt64 → UInt64 → Bool → List UInt64
  | 0, _, _, dust, isDustHandled => if !isDustHandled && dust ≠ 0 then [dust] else []
  | digits + 1, amount, order, dust, isDustHandled =>
    if amount = 0 then if !isDustHandled && dust ≠ 0 then [dust] else []
    else
      let chunk := amount % 10 * order
      if dust + chunk ≤ dustThreshold then
        decomposeDigits dustThreshold digits (amount / 10) (order * 10) (dust + chunk) isDustHandled
      else
        (if !isDustHandled && dust ≠ 0 then [dust] else []) ++ (if chunk ≠ 0 then [chunk] else [])
          ++ decomposeDigits dustThreshold digits (amount / 10) (order * 10) dust
            (isDustHandled || dust ≠ 0)

def decomposeAmountIntoDigits (amount dustThreshold : UInt64) : List UInt64 :=
  decomposeDigits dustThreshold 20 amount 1 0 false

/-- The last two amounts are merged until there are few enough of them. -/
def limitOuts (maxOuts : Nat) (outAmounts : List UInt64) : List UInt64 :=
  if maxOuts < outAmounts.length then
    outAmounts.take (maxOuts - 1) ++ [(outAmounts.drop (maxOuts - 1)).sum]
  else outAmounts

/-- The random transaction key of one call and the output keys derived from it; a derivation
can fail. -/
structure MinerKeys where
  publicKey : PublicKey
  derivePublicKey : Nat → Option PublicKey

def addTransactionPublicKeyToExtra (extra : BinaryArray) (key : PublicKey) : BinaryArray :=
  extra ++ (0x01 :: writePublicKey key)

def addExtraNonceToTransactionExtra (extra extraNonce : BinaryArray) : Option BinaryArray :=
  if extraNonce.length > txExtraNonceMaxCount then none
  else some (extra ++ (0x02 :: UInt8.ofNat extraNonce.length :: extraNonce))

def minerTxExtra (keys : MinerKeys) (extraNonce : BinaryArray) : Option BinaryArray :=
  let extra := addTransactionPublicKeyToExtra [] keys.publicKey
  if extraNonce.isEmpty then some extra else addExtraNonceToTransactionExtra extra extraNonce

def constructMinerTx (keys : MinerKeys) (blockMajorVersion height medianSize : Nat)
    (alreadyGeneratedCoins : UInt64) (fee : UInt64) (extraNonce : BinaryArray)
    (currentBlockSize : Nat) : Option Transaction := do
  let extra ← minerTxExtra keys extraNonce
  let blockReward ← getBlockReward blockMajorVersion medianSize currentBlockSize
    alreadyGeneratedCoins fee
  let outAmounts := limitOuts maxOuts
    (decomposeAmountIntoDigits blockReward.reward (defaultDustThreshold height))
  let outputs ← outAmounts.zipIdx.mapM fun (amount, no) =>
    (keys.derivePublicKey no).map fun key =>
      { amount := amount, target := { key := key } : TransactionOutput }
  if (outputs.map amount).sum ≠ blockReward.reward then none
  else
    some
      { version := currentTransactionVersion
        unlockTime := UInt64.ofNat (height + minedMoneyUnlockWindow)
        inputs := [.base (UInt32.ofNat height)]
        outputs := outputs
        extra := extra
        signatures := [] }

/-- The rounds of `getBlockTemplate`: a coinbase that came out smaller than the size it was
made for is padded; a larger one, or one that the padding makes too large, is made again. -/
def fitCoinbase (size : Transaction → Nat) (construct : Nat → Nat → Option Transaction)
    (transactionsSize : Nat) : Nat → Nat → Option (Transaction × Nat)
  | 0, _ => none
  | tries + 1, cumulativeSize => do
      let coinbase ← construct tries cumulativeSize
      let coinbaseBlobSize := size coinbase
      if coinbaseBlobSize > cumulativeSize - transactionsSize then
        fitCoinbase size construct transactionsSize tries (transactionsSize + coinbaseBlobSize)
      else
        let delta := cumulativeSize - transactionsSize - coinbaseBlobSize
        let padded := { coinbase with extra := coinbase.extra ++ List.replicate delta 0 }
        if coinbaseBlobSize < cumulativeSize - transactionsSize ∧
            cumulativeSize ≠ transactionsSize + size padded then
          if cumulativeSize + 1 ≠ transactionsSize + size padded then none
          else
            let shortened := { padded with extra := padded.extra.dropLast }
            if cumulativeSize ≠ transactionsSize + size shortened then
              fitCoinbase size construct transactionsSize tries (cumulativeSize + delta - 1)
            else some (shortened, cumulativeSize)
        else if cumulativeSize ≠ transactionsSize + size padded then none
        else some (padded, cumulativeSize)

/-! ### The template -/

/-- What a template is made of: the main chain's running total, the median that the template
uses and the transactions. -/
structure TemplateInput where
  height : Nat
  majorVersion : Nat
  medianSize : Nat
  alreadyGeneratedCoins : UInt64
  selection : TemplateSelection

namespace Core

def calculateCumulativeBlocksizeLimit (core : Core) (main : SegmentPtr) (mainChain : Segment)
    (height : Nat) : Nat :=
  let nextBlockGrantedFullRewardZone := blockGrantedFullRewardZoneByBlockVersion
    (getBlockMajorVersion height)
  let median := medianValue (getLastBlocksSizes (core.lineage main) rewardBlocksWindow
    mainChain.getTopBlockIndex mainChain.usesGenesis)
  (if median ≤ nextBlockGrantedFullRewardZone then nextBlockGrantedFullRewardZone else median) * 2

def templateInput (core : Core) (pool : TransactionPool) : Option TemplateInput := do
  let main ← core.chainsLeaves.head?
  let mainChain ← core.chainsStorage[main]?
  let height := mainChain.getTopBlockIndex + 1
  let medianSize := core.calculateCumulativeBlocksizeLimit main mainChain height / 2
  let alreadyGeneratedCoins ← getAlreadyGeneratedCoins (core.lineage main)
    mainChain.getTopBlockIndex
  some
    { height := height
      majorVersion := getBlockMajorVersion height
      medianSize := medianSize
      alreadyGeneratedCoins := alreadyGeneratedCoins
      selection := fillBlockTemplate pool.getPoolTransactions medianSize
        (maxBlockCumulativeSize height) height }

end Core

namespace TemplateInput

def coinbase (primitives : Primitives) (keys : Nat → MinerKeys) (extraNonce : BinaryArray)
    (input : TemplateInput) : Option (Transaction × Nat) := do
  let size := fun transaction => (primitives.transactionToBinaryArray transaction).length
  let construct := fun call => constructMinerTx (keys call) input.majorVersion input.height
    input.medianSize input.alreadyGeneratedCoins input.selection.fee extraNonce
  let first ← construct triesCount input.selection.transactionsSize
  fitCoinbase size construct input.selection.transactionsSize triesCount
    (input.selection.transactionsSize + size first)

end TemplateInput

namespace Core

/-- The clock, unless the median of the last timestamps is ahead of it. -/
def templateTimestamp (core : Core) (main : SegmentPtr) (now : UInt64) (height : Nat) : UInt64 :=
  let window := if height ≥ lwma2DifficultyBlockIndex then timestampCheckWindowV3
    else timestampCheckWindow
  if height ≥ window then
    let timestamps := (List.range window).flatMap fun offset =>
      (getLastTimestamps (core.lineage main) 1 (height - window + offset) true).take 1
    let medianTimestamp := medianValue timestamps
    if now < medianTimestamp then medianTimestamp else now
  else now

/-- The parent of a template: no transactions but the coinbase, which holds an empty merge
mining tag. -/
def templateParentBlock (majorVersion : Nat) : ParentBlock :=
  if majorVersion ≥ 2 then
    { majorVersion := 0
      transactionCount := 1
      baseTransaction :=
        { version := 0
          unlockTime := 0
          inputs := []
          outputs := []
          extra := appendMergeMiningTagToExtra [] { depth := 0, merkleRoot := { value := 0 } } } }
  else { majorVersion := 0 }

/-- The template, its difficulty and its height; `none` stands for the answer `false`. -/
def getBlockTemplate (primitives : Primitives) (keys : Nat → MinerKeys) (now : UInt64)
    (core : Core) (pool : TransactionPool) (extraNonce : BinaryArray) :
    Option (BlockTemplate × UInt64 × Nat) := do
  let main ← core.chainsLeaves.head?
  let mainChain ← core.chainsStorage[main]?
  let difficulty ← core.getDifficultyForNextBlock
  if difficulty = 0 then none
  else
    let topBlock ← mainChain.entries.getLast?
    let input ← core.templateInput pool
    let (baseTransaction, _) ← input.coinbase primitives keys extraNonce
    some (
      { majorVersion := UInt8.ofNat input.majorVersion
        minorVersion := 0
        nonce := 0
        timestamp := core.templateTimestamp main now input.height
        previousBlockHash := topBlock.info.blockHash
        parentBlock := templateParentBlock input.majorVersion
        baseTransaction := baseTransaction
        transactionHashes := input.selection.transactions.map
          (getTransactionHash primitives) },
      difficulty, input.height)

end Core

/-! ### What the loops establish -/

variable {fee : UInt64} {coinbase : Transaction}

theorem constructMinerTx_eq_some {keys : MinerKeys} {blockMajorVersion height medianSize : Nat}
    {alreadyGeneratedCoins : UInt64} {extraNonce : BinaryArray} {currentBlockSize : Nat}
    (made : constructMinerTx keys blockMajorVersion height medianSize alreadyGeneratedCoins fee
      extraNonce currentBlockSize = some coinbase) :
    (∃ reward, getBlockReward blockMajorVersion medianSize currentBlockSize
        alreadyGeneratedCoins fee = some reward ∧
      (coinbase.outputs.map amount).sum = reward.reward) ∧
    coinbase.version = currentTransactionVersion ∧
    coinbase.inputs = [.base (UInt32.ofNat height)] ∧ coinbase.signatures = [] := by
  unfold constructMinerTx at made
  simp only [bind_eq_bind, bind_eq_some_iff] at made
  obtain ⟨extra, -, reward, isReward, outputs, -, isCoinbase⟩ := made
  split at isCoinbase
  · cases isCoinbase
  · rename_i sum
    cases isCoinbase
    exact ⟨⟨reward, isReward, not_not.mp sum⟩, rfl, rfl, rfl⟩

variable {total : Nat}

theorem fitCoinbase_eq_some {size : Transaction → Nat} {construct : Nat → Nat → Option Transaction}
    {transactionsSize tries cumulativeSize : Nat}
    (fitted : fitCoinbase size construct transactionsSize tries cumulativeSize
      = some (coinbase, total)) :
    total = transactionsSize + size coinbase ∧
      ∃ call made extra, construct call total = some made ∧
        coinbase = { made with extra := extra } := by
  induction tries generalizing cumulativeSize with
  | zero => cases fitted
  | succ tries ih =>
    unfold fitCoinbase at fitted
    simp only [bind_eq_bind, bind_eq_some_iff] at fitted
    obtain ⟨made, isMade, fitted⟩ := fitted
    split at fitted
    · exact ih fitted
    · split at fitted
      · split at fitted
        · cases fitted
        · split at fitted
          · exact ih fitted
          · rename_i exact_
            cases fitted
            exact ⟨not_not.mp exact_, tries, made, _, isMade, rfl⟩
      · split at fitted
        · cases fitted
        · rename_i exact_
          cases fitted
          exact ⟨not_not.mp exact_, tries, made, _, isMade, rfl⟩

variable {pool : List CachedTransaction}

namespace TemplateSelection

structure Totals (pool : List CachedTransaction) (selection : TemplateSelection) : Prop where
  members : ∀ cached ∈ selection.transactions, cached ∈ pool
  size : selection.transactionsSize
    = (selection.transactions.map fun cached => cached.binaryArray.length).sum
  fee : selection.fee = (selection.transactions.map getTransactionFee).sum

theorem Totals.consider {selection : TemplateSelection}
    (totals : selection.Totals pool) {cached : CachedTransaction} (member : cached ∈ pool)
    {blockHeight blockSizeLimit : Nat} (isFee : fee = cached.getTransactionFee) :
    (selection.consider blockHeight blockSizeLimit fee cached).Totals pool := by
  unfold TemplateSelection.consider
  split
  · exact totals
  · split
    · exact totals
    · split
      · exact ⟨totals.members, totals.size, totals.fee⟩
      · refine ⟨?_, ?_, ?_⟩
        · intro other isOther
          rcases mem_append.mp isOther with old | new
          · exact totals.members other old
          · rw [mem_singleton.mp new]
            exact member
        · simp only [map_append, map_cons, map_nil, sum_append,
            sum_cons, sum_nil, totals.size, Nat.add_zero]
        · simp only [map_append, map_cons, map_nil, sum_append,
            sum_cons, sum_nil, totals.fee, isFee, UInt64.add_zero]

theorem Totals.foldl {blockHeight : Nat} (limit : CachedTransaction → Nat)
    (fee : CachedTransaction → UInt64) (visited : List CachedTransaction)
    (fromPool : ∀ cached ∈ visited, cached ∈ pool ∧ fee cached = cached.getTransactionFee)
    {selection : TemplateSelection} (totals : selection.Totals pool) :
    (visited.foldl (fun selection cached =>
      selection.consider blockHeight (limit cached) (fee cached) cached) selection).Totals pool := by
  induction visited generalizing selection with
  | nil => exact totals
  | cons cached rest ih =>
    obtain ⟨⟨member, isFee⟩, others⟩ := forall_mem_cons.mp fromPool
    exact ih others (totals.consider member isFee)

theorem fillBlockTemplate_totals (poolTransactions : List CachedTransaction)
    (medianSize maxCumulativeSize height : Nat) :
    (fillBlockTemplate poolTransactions medianSize maxCumulativeSize height).Totals
      poolTransactions := by
  apply Totals.foldl _ getTransactionFee
  · intro cached member
    exact ⟨member, rfl⟩
  · apply Totals.foldl (fun _ => fusionTxMaxSize) (fun _ => 0)
    · intro cached member
      have free := mem_takeWhile_imp member
      have inPool := (takeWhile_sublist _).subset member
      exact ⟨mem_reverse.mp inPool, (of_decide_eq_true free).symm⟩
    · exact ⟨fun _ impossible => absurd impossible not_mem_nil, rfl, rfl⟩

end TemplateSelection

/-! ### Template and validator -/

/-- The size and reward checks of `addBlock`, for a block on top of the given one. -/
structure PassesSizeAndReward (primitives : Primitives) (segments : List Segment)
    (previousBlockIndex : Nat) (block : BlockTemplate) (transactions : List CachedTransaction) :
    Prop where
  cumulative : (primitives.transactionToBinaryArray block.baseTransaction).length
      + (transactions.map fun cached => cached.binaryArray.length).sum
    ≤ maxBlockCumulativeSize (previousBlockIndex + 1)
  twice : (primitives.transactionToBinaryArray block.baseTransaction).length
      + (transactions.map fun cached => cached.binaryArray.length).sum
    ≤ 2 * max
      (medianValue (getLastBlocksSizes segments rewardBlocksWindow previousBlockIndex true))
      (blockGrantedFullRewardZoneByBlockVersion block.majorVersion.toNat)
  rewarded : ∃ alreadyGeneratedCoins reward,
    getAlreadyGeneratedCoins segments previousBlockIndex = some alreadyGeneratedCoins ∧
    getBlockReward block.majorVersion.toNat
        (medianValue (getLastBlocksSizes segments rewardBlocksWindow previousBlockIndex true))
        ((primitives.transactionToBinaryArray block.baseTransaction).length
          + (transactions.map fun cached => cached.binaryArray.length).sum)
        alreadyGeneratedCoins (transactions.map getTransactionFee).sum
      = some reward ∧
    (block.baseTransaction.outputs.map amount).sum = reward.reward

/-- The reward that passes the size check is not larger than twice the median, which is at
least the reward zone of the version. -/
theorem getBlockReward_size {blockMajorVersion medianSize currentBlockSize : Nat}
    {alreadyGeneratedCoins : UInt64} {reward : BlockReward}
    (isReward : getBlockReward blockMajorVersion medianSize currentBlockSize
      alreadyGeneratedCoins fee = some reward) :
    currentBlockSize ≤ 2 * max medianSize
      (blockGrantedFullRewardZoneByBlockVersion blockMajorVersion) := by
  unfold getBlockReward at isReward
  simp only at isReward
  split at isReward
  · cases isReward
  · rename_i fits
    exact Nat.not_lt.mp fits

variable {input : TemplateInput}

namespace TemplateInput

/-- The block fits under the limit of its height, and the validator's median gives the reward
that the template's median gives. -/
def Fits (primitives : Primitives) (keys : Nat → MinerKeys) (extraNonce : BinaryArray)
    (validatorMedian : Nat) (input : TemplateInput) : Prop :=
  ∀ coinbase total, input.coinbase primitives keys extraNonce = some (coinbase, total) →
    total ≤ maxBlockCumulativeSize input.height ∧
      (getBlockReward input.majorVersion validatorMedian total
          input.alreadyGeneratedCoins input.selection.fee).map BlockReward.reward
        = (getBlockReward input.majorVersion input.medianSize total
          input.alreadyGeneratedCoins input.selection.fee).map BlockReward.reward

theorem coinbase_eq_some {primitives : Primitives} {keys : Nat → MinerKeys}
    {extraNonce : BinaryArray}
    (made : input.coinbase primitives keys extraNonce = some (coinbase, total)) :
    total = input.selection.transactionsSize
        + (primitives.transactionToBinaryArray coinbase).length ∧
      (∃ reward, getBlockReward input.majorVersion input.medianSize total
          input.alreadyGeneratedCoins input.selection.fee = some reward ∧
        (coinbase.outputs.map amount).sum = reward.reward) ∧
      coinbase.version = currentTransactionVersion ∧
      coinbase.inputs = [.base (UInt32.ofNat input.height)] ∧ coinbase.signatures = [] := by
  obtain ⟨first, -, fitted⟩ := bind_eq_some_iff.mp made
  obtain ⟨isTotal, call, base, extra, isMade, rfl⟩ := fitCoinbase_eq_some fitted
  obtain ⟨isReward, known, inputs, unsigned⟩ := constructMinerTx_eq_some isMade
  exact ⟨isTotal, isReward, known, inputs, unsigned⟩

end TemplateInput

private theorem eq_of_hashes_eq {primitives : Primitives}
    (distinct : (pool.map (getTransactionHash primitives)).Nodup)
    {left right : List CachedTransaction} (leftPooled : ∀ cached ∈ left, cached ∈ pool)
    (rightPooled : ∀ cached ∈ right, cached ∈ pool)
    (same : left.map (getTransactionHash primitives)
      = right.map (getTransactionHash primitives)) : left = right := by
  induction left generalizing right with
  | nil => exact (map_eq_nil_iff.mp same.symm).symm
  | cons first rest ih =>
    cases right with
    | nil => cases same
    | cons other others =>
      obtain ⟨sameHash, sameRest⟩ := List.cons.inj same
      obtain ⟨firstPooled, restPooled⟩ := forall_mem_cons.mp leftPooled
      obtain ⟨otherPooled, othersPooled⟩ := forall_mem_cons.mp rightPooled
      rw [inj_on_of_nodup_map distinct firstPooled otherPooled sameHash,
        ih restPooled othersPooled sameRest]

namespace Core
variable {primitives : Primitives} {keys : Nat → MinerKeys} {now : UInt64} {core : Core}
  {pool : TransactionPool} {extraNonce : BinaryArray} {block : BlockTemplate}
  {difficulty : UInt64} {height : Nat}

theorem getBlockTemplate_eq_some
    (returned : core.getBlockTemplate primitives keys now pool extraNonce
      = some (block, difficulty, height)) :
    ∃ main mainChain input coinbase total, core.chainsLeaves.head? = some main ∧
      core.chainsStorage[main]? = some mainChain ∧ core.templateInput pool = some input ∧
      input.coinbase primitives keys extraNonce = some (coinbase, total) ∧
      height = input.height ∧
      block.majorVersion = UInt8.ofNat input.majorVersion ∧
      block.parentBlock = templateParentBlock input.majorVersion ∧
      block.baseTransaction = coinbase ∧
      block.transactionHashes = input.selection.transactions.map
        (getTransactionHash primitives) := by
  unfold getBlockTemplate at returned
  simp only [bind_eq_bind, bind_eq_some_iff] at returned
  obtain ⟨main, isMain, mainChain, found, difficulty', -, returned⟩ := returned
  split at returned
  · cases returned
  · simp only [bind_eq_some_iff] at returned
    obtain ⟨topBlock, -, input, isInput, ⟨coinbase, total⟩, made, isBlock⟩ := returned
    cases isBlock
    exact ⟨main, mainChain, input, coinbase, total, isMain, found, isInput, made, rfl, rfl, rfl,
      rfl, rfl⟩

theorem templateInput_eq_some {main : SegmentPtr} {mainChain : Segment}
    (isMain : core.chainsLeaves.head? = some main)
    (found : core.chainsStorage[main]? = some mainChain)
    (isInput : core.templateInput pool = some input) :
    input.height = mainChain.getTopBlockIndex + 1 ∧
      input.majorVersion = getBlockMajorVersion input.height ∧
      input.medianSize = core.calculateCumulativeBlocksizeLimit main mainChain input.height / 2 ∧
      getAlreadyGeneratedCoins (core.lineage main) mainChain.getTopBlockIndex
        = some input.alreadyGeneratedCoins ∧
      input.selection.Totals pool.getPoolTransactions := by
  unfold templateInput at isInput
  simp only [isMain, found, bind_eq_bind, bind_some, bind_eq_some_iff]
    at isInput
  obtain ⟨coins, isCoins, same⟩ := isInput
  cases same
  exact ⟨rfl, rfl, rfl, isCoins, TemplateSelection.fillBlockTemplate_totals _ _ _ _⟩

theorem majorVersion_toNat (blockIndex : Nat) :
    (UInt8.ofNat (getBlockMajorVersion blockIndex)).toNat = getBlockMajorVersion blockIndex := by
  have small : getBlockMajorVersion blockIndex ≤ 5 := by
    unfold getBlockMajorVersion
    split_ifs <;> omega
  rw [UInt8.toNat_ofNat']
  omega

/-- Hashes by the first byte, and the real format for the coinbase. -/
def fusionEnvironment : Environment :=
  { primitives :=
      { tablePrimitives [coinbaseBlock 0 255 0 1, coinbaseBlock 1 0 1 37252902,
          coinbaseBlock 2 1 2 37252902] [] with
        transactionToBinaryArray := fun transaction => transaction.toBinaryArray.getD []
        getBinaryArrayHash := fun binary =>
          { value := BitVec.ofNat 256 (binary.headD 0).toNat } }
    checkpoints := { points := [] } }

def fusionGenesis : GenesisBlock fusionEnvironment.primitives :=
  { block := coinbaseBlock 0 255 0 1
    binaryArray := [0]
    parsed := rfl
    coinbase := inputs_firstBlock }

def fusion (code : UInt8) : CachedTransaction :=
  { transaction :=
      { version := 1
        unlockTime := 0
        inputs := [.key
          { amount := 10, outputIndexes := [0], keyImage := { value := code.toNat } }]
        outputs := [{ amount := 10, target := { key := { value := 0 } } }]
        extra := []
        signatures := [] }
    binaryArray := code :: List.replicate 24999 0 }

def fusionPool : TransactionPool :=
  { poolState := { spentKeyImages := [] }
    transactionHashIndex := []
    transactionCostIndex := [1, 2, 3, 4].map fun code =>
      { receiveTime := 0, cachedTransaction := fusion code, paymentId := none }
    paymentIdIndex := [] }

def fusionKeys : Nat → MinerKeys := fun _ =>
  { publicKey := { value := 0 }, derivePublicKey := fun _ => some { value := 0 } }

theorem fusion_length (code : UInt8) : (fusion code).binaryArray.length = 25000 := by
  simp only [fusion, length_cons, length_replicate]

end Core
end Mevacoin
