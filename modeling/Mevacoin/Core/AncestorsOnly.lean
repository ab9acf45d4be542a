/-
Which checks see only the ancestors of a block. The segment that holds the parent may go
on above it with a competing branch, and the same ancestors may be cut into segments in
different ways. Only outputs can be answered from elsewhere.
-/

import Mevacoin.Core.Heaviest
import Mevacoin.Core.RingMembers
import Mevacoin.Core.SparseChain

namespace Mevacoin
open List Checked DatabaseBlockchainCache Lineage Currency
open Parameters

/-! ### Answers for the ancestors -/

/-- What a path answers at a block index, in terms of the blocks up to it. -/
structure AnswersFor (primitives : Primitives) (ancestors : List BlockEntry) (blockIndex : Nat)
    (segments : List Segment) : Prop where
  units : ∀ count useGenesis, count < 2 ^ 32 →
    getLastUnits count blockIndex useGenesis segments
      = lastInfos count blockIndex useGenesis (ancestors.map BlockEntry.info)
  info : getCachedBlockInfo blockIndex segments = (ancestors[blockIndex]?).map BlockEntry.info
  spent : ∀ image, checkIfSpent image blockIndex segments = true ↔
    ∃ index, SpentAt primitives ancestors image index
  outputs : ∀ now amount indexes, indexes.Pairwise (· < ·) →
    (∀ index ∈ indexes, index.toNat < outputCount primitives amount ancestors) →
    extractKeyOutputKeys now amount blockIndex indexes [] segments
      = onSuccess (forEachIndex (visitOutput .success
          (outputAt (outputsOf primitives amount (placedFrom primitives 0 ancestors)))
          (collectKeys now blockIndex)) indexes [])

/-- The indexes of the input do not wrap around and name outputs of the chain. -/
def KeyInput.NamesOutputsOf (primitives : Primitives) (chain : List BlockEntry)
    (input : KeyInput) : Prop :=
  totalOffset input.outputIndexes < 2 ^ 32 ∧
    totalOffset input.outputIndexes < outputCount primitives input.amount chain

section Congruence
variable {environment : Environment} {now : UInt64} {ancestors : List BlockEntry}
  {blockIndex : Nat} {first second : List Segment}

section
variable (firstAnswers : AnswersFor environment.primitives ancestors blockIndex first)
  (secondAnswers : AnswersFor environment.primitives ancestors blockIndex second)
include firstAnswers secondAnswers

theorem AnswersFor.checkIfSpent_eq (image : KeyImage) :
    checkIfSpent image blockIndex first = checkIfSpent image blockIndex second := by
  rw [Bool.eq_iff_iff, firstAnswers.spent, secondAnswers.spent]

theorem AnswersFor.checkKeyInput_eq
    (transaction : Transaction) {input : KeyInput} (packed : WellPacked input)
    (names : input.NamesOutputsOf environment.primitives ancestors) (inputIndex : Nat) :
    checkKeyInput environment.primitives now first blockIndex transaction input inputIndex
      = checkKeyInput environment.primitives now second blockIndex transaction input
        inputIndex := by
  have increasing := packed.increasing_iff.mpr names.1
  have inside := (packed.below_iff names.1).mpr names.2
  unfold checkKeyInput
  rw [firstAnswers.checkIfSpent_eq secondAnswers, firstAnswers.outputs _ _ _ increasing inside,
    secondAnswers.outputs _ _ _ increasing inside]

end

private theorem foldlM_congr {ε α β : Type} {step other : β → α → Except ε β} {items : List α}
    (same : ∀ item ∈ items, ∀ state, step state item = other state item) (state : β) :
    items.foldlM step state = items.foldlM other state := by
  induction items generalizing state with
  | nil => rfl
  | cons item items ih =>
    rw [foldlM_cons, foldlM_cons, same item mem_cons_self]
    congr 1
    funext next
    exact ih (fun later member => same later (mem_cons_of_mem _ member)) next

section
variable (firstAnswers : AnswersFor environment.primitives ancestors blockIndex first)
  (secondAnswers : AnswersFor environment.primitives ancestors blockIndex second)
include firstAnswers secondAnswers

theorem AnswersFor.validateTransaction_eq {cached : CachedTransaction}
    (names : environment.checkpoints.isInCheckpointZone (blockIndex + 1) = false →
      ∀ input ∈ cached.transaction.keyInputs,
        input.NamesOutputsOf environment.primitives ancestors) (state : TransactionValidatorState) :
    validateTransaction environment now first blockIndex state cached
      = validateTransaction environment now second blockIndex state cached := by
  unfold validateTransaction
  cases semantic : validateSemantic environment.primitives cached.transaction with
  | error error => rfl
  | ok fee =>
    have inputs : cached.transaction.inputs.zipIdx.foldlM
        (validateInput environment now first blockIndex cached.transaction) state
        = cached.transaction.inputs.zipIdx.foldlM
          (validateInput environment now second blockIndex cached.transaction) state := by
      apply foldlM_congr
      intro ⟨input, inputIndex⟩ member reached
      have isInput := fst_mem_of_mem_zipIdx member
      obtain ⟨keyInput, isKey, packed⟩ := (validateSemantic_eq_ok semantic).inputs input isInput
      subst isKey
      unfold validateInput
      simp only
      by_cases outside : environment.checkpoints.isInCheckpointZone (blockIndex + 1) = false
      · rw [firstAnswers.checkKeyInput_eq secondAnswers cached.transaction packed
          (names outside keyInput (mem_filterMap.mpr ⟨_, isInput, rfl⟩))]
      · unfold checkWhen
        rw [if_neg outside, if_neg outside]
    rw [inputs]

theorem AnswersFor.validateTransactions_eq {transactions : List CachedTransaction}
    (names : environment.checkpoints.isInCheckpointZone (blockIndex + 1) = false →
      ∀ cached ∈ transactions, ∀ input ∈ cached.transaction.keyInputs,
        input.NamesOutputsOf environment.primitives ancestors) :
    validateTransactions environment now first blockIndex transactions
      = validateTransactions environment now second blockIndex transactions := by
  apply foldlM_congr
  intro cached member progress
  rw [firstAnswers.validateTransaction_eq secondAnswers
    (fun outside => names outside cached member)]

theorem AnswersFor.validateBlock_eq (block : BlockTemplate) :
    validateBlock environment now first blockIndex block
      = validateBlock environment now second blockIndex block := by
  unfold validateBlock getLastTimestamps
  simp only [firstAnswers.units _ _ (timestampCheckWindow_narrow _),
    secondAnswers.units _ _ (timestampCheckWindow_narrow _)]

/-- Paths that answer for the same ancestors give the same verdict on a block, provided that
the rings of its transactions are made of outputs of the ancestors. -/
theorem AnswersFor.acceptBlock_eq
    {block : BlockTemplate} {rawBlock : RawBlock} {firstCache secondCache : Segment}
    (firstHead : first.head? = some firstCache) (secondHead : second.head? = some secondCache)
    (firstPosition : firstCache.getBlockIndex block.previousBlockHash = some blockIndex)
    (secondPosition : secondCache.getBlockIndex block.previousBlockHash = some blockIndex)
    (names : environment.checkpoints.isInCheckpointZone (blockIndex + 1) = false →
      ∀ transactions size,
        extractTransactions environment.primitives rawBlock.transactions
          = some (transactions, size) →
        ∀ cached ∈ transactions, ∀ input ∈ cached.transaction.keyInputs,
          input.NamesOutputsOf environment.primitives ancestors) :
    acceptBlock environment now first block rawBlock
      = acceptBlock environment now second block rawBlock := by
  unfold acceptBlock
  rw [firstHead, secondHead]
  cases extracted : extractTransactions environment.primitives rawBlock.transactions with
  | none => simp only [orError_some_bind, orError_none_bind]
  | some result =>
    obtain ⟨transactions, size⟩ := result
    have validated : validateTransactions environment now first blockIndex transactions
        = validateTransactions environment now second blockIndex transactions :=
      firstAnswers.validateTransactions_eq secondAnswers
        (fun outside => names outside transactions size extracted)
    simp only [orError_some_bind]
    rw [firstPosition, secondPosition]
    simp only [orError_some_bind, getDifficultyForNextBlock,
      getLastTimestamps, getLastCumulativeDifficulties,
      getLastBlocksSizes, getAlreadyGeneratedCoins,
      firstAnswers.units _ _ (difficultyBlocksCount_narrow _ _),
      secondAnswers.units _ _ (difficultyBlocksCount_narrow _ _),
      firstAnswers.units _ _ rewardBlocksWindow_narrow,
      secondAnswers.units _ _ rewardBlocksWindow_narrow,
      firstAnswers.info, secondAnswers.info, validated,
      firstAnswers.validateBlock_eq secondAnswers]

end
end Congruence

/-! ### Exact cores -/

/-- No transaction of the block has more outputs than a 16-bit index tells apart. -/
def RawBlock.FewOutputs (primitives : Primitives) (rawBlock : RawBlock) : Prop :=
  ∀ transaction ∈ rawBlock.unrecorded.transactions primitives, transaction.outputs.length ≤ 2 ^ 16

namespace Core

/-- A sound segment tree whose tables are exact, on chains that spend no image twice and whose
transactions are told apart. -/
structure Exact (primitives : Primitives) (core : Core) : Prop where
  sound : core.Sound primitives
  spends : core.SpendsOnce primitives
  numbered : core.Numbered primitives
  few : ∀ chain ∈ core.chains, ∀ entry ∈ chain, ∀ transaction ∈ entry.transactions primitives,
    transaction.outputs.length ≤ 2 ^ 16

section Exact
variable {environment : Environment} {now : UInt64} {core result : Core} {ptr : SegmentPtr}
  {segment : Segment} {rawBlock : RawBlock} {blockIndex : Nat} {code : ErrorCode}

theorem Exact.told (exact : core.Exact environment.primitives) {chain longer : List BlockEntry}
    (isPrefix : chain <+: longer) (isChain : longer ∈ core.chains) :
    ToldApart environment.primitives chain := by
  have numberable := exact.numbered.numberable longer isChain
  have told : ToldApart environment.primitives longer :=
    ⟨numberable.distinct, fun entry member => (numberable.blocks entry member).positions,
      exact.few longer isChain⟩
  exact told.of_shorter isPrefix

theorem Exact.answersFor (exact : core.Exact environment.primitives)
    (found : core.chainsStorage[ptr]? = some segment) {blockHash : Hash}
    (position : segment.getBlockIndex blockHash = some blockIndex) :
    AnswersFor environment.primitives ((core.chain ptr).take (blockIndex + 1)) blockIndex
      (core.lineage ptr) := by
  have sound := exact.sound.toTreeSound
  obtain ⟨leaf, isLeaf, isPrefix⟩ := chain_prefix_of_found sound found
  have isChain : core.chain leaf ∈ core.chains := mem_map_of_mem isLeaf
  obtain ⟨offset, entry, isIndex, isEntry, -⟩ := Segment.getBlockIndex_eq_some position
  have inside := index_lt isEntry
  have length := chain_length sound found
  obtain ⟨above, items, line, -, stacked, -⟩ := sound.stacked found
  rw [← chain_eq sound line] at stacked
  constructor
  · intro count useGenesis narrow
    rw [stacked.getLastUnits (exact.sound.unitsCached ptr) _ _ _ narrow (by omega)]
    unfold lastInfos
    rw [map_take, slice_take (Nat.le_refl _)]
  · rw [stacked.getCachedBlockInfo, getElem?_take_of_lt (Nat.lt_succ_self _)]
  · intro image
    have once := (exact.spends.once _ isChain).of_shorter isPrefix
    rw [checkIfSpent_iff (exact.spends.tabled.stack sound found) (once.apart _)]
    constructor
    · intro ⟨index, below, spent⟩
      exact ⟨index, spentAt_take.mpr ⟨Nat.lt_succ_of_le below, spent⟩⟩
    · intro ⟨index, spent⟩
      obtain ⟨below, spentThere⟩ := spentAt_take.mp spent
      exact ⟨index, Nat.le_of_lt_succ below, spentThere⟩
  · intro clock amount indexes increasing named
    have stack := exact.numbered.tabled.stack sound found
    have numberable := (exact.numbered.numberable _ isChain).of_shorter isPrefix
    have reached : ∀ other ∈ core.lineage ptr, other.getStartBlockIndex ≤ blockIndex := by
      intro other member
      have below := stack.start_le_head (lineage_head found) other member
      omega
    rw [extractKeyOutputKeys_eq, stack.extractKeyOutputs (exact.told isPrefix isChain)
      (numberable.fits amount) reached increasing]
    congr 1
    apply forEachIndex_congr
    intro index member
    rw [placedFrom_take_drop 0 (blockIndex + 1) (core.chain ptr), outputsOf_append]
    exact (visitOutput_of_found (named index member) _ _ _).symm

theorem Exact.addBlock (noCheckpoints : environment.checkpoints.points = [])
    (exact : core.Exact environment.primitives)
    (permitted : core.ExtendsCleanly environment.primitives rawBlock ∧
      rawBlock.FewOutputs environment.primitives)
    (ran : core.addBlock environment now rawBlock = .ok (code, result)) :
    result.Exact environment.primitives := by
  have sound := exact.sound
  obtain ⟨⟨clean, numberably⟩, few⟩ := permitted
  obtain ⟨resultSound, numbered⟩ := exact.numbered.addBlock sound clean numberably ran
  rcases addBlock_eq_ok sound ran with unchanged | placed
  · rw [unchanged.2]
    exact exact
  · obtain ⟨ptr, segment, accepted, data, below, extension, placement⟩ := placed
    have cleanSplit := extension.splitsCleanly_iff.mp clean
    refine ⟨resultSound, exact.spends.placed noCheckpoints sound extension cleanSplit placement,
      numbered, ?_⟩
    intro chain member
    rcases (placement.chainStep sound extension cleanSplit).mem_chains member with
      old | ⟨isNew, longer, isLonger, isPrefix⟩
    · exact exact.few chain old
    · intro entry inChain
      rw [isNew] at inChain
      rcases mem_append.mp inChain with below | isLast
      · exact exact.few longer isLonger entry (isPrefix.subset below)
      · rw [mem_singleton.mp isLast]
        have sameRaw : accepted.pushed.rawBlock = rawBlock := extension.acceptance.sameRawBlock
        rw [← sameRaw] at few
        exact few

theorem initRootSegment_exact {primitives : Primitives} (genesis : GenesisBlock primitives)
    (numberable : Numberable primitives (addGenesisBlock genesis).entries)
    (few : genesis.rawBlock.FewOutputs primitives) :
    (initRootSegment genesis).Exact primitives := by
  refine ⟨initRootSegment_sound genesis, initRootSegment_spendsOnce genesis,
    initRootSegment_numbered genesis numberable, ?_⟩
  intro chain member entry inChain
  have isChain : chain = (addGenesisBlock genesis).entries :=
    mem_singleton.mp (chains_ofRoot _ [genesis.rawBlock] ▸ member)
  rw [isChain, addGenesisBlock_entries] at inChain
  rw [mem_singleton.mp inChain]
  exact few

end Exact

/-! ### Validity from the ancestors -/

theorem exists_output_below {primitives : Primitives} {amount : UInt64} {chain : List BlockEntry}
    {count index : Nat} (bound : index < outputCount primitives amount (chain.take count)) :
    ∃ output, (outputsOf primitives amount (placedFrom primitives 0 chain))[index]? = some output ∧
      output.packed.blockIndex < count := by
  obtain ⟨output, found⟩ : ∃ output, (outputsOf primitives amount
      (placedFrom primitives 0 (chain.take count)))[index]? = some output :=
    ⟨_, getElem?_eq_getElem bound⟩
  obtain ⟨placed, inLower, isBlock⟩ := outputsOf_blockIndex (mem_of_getElem? found)
  have inside := (placedFrom_bounds inLower).2
  rw [length_take] at inside
  refine ⟨output, ?_, ?_⟩
  · rw [placedFrom_take_drop 0 count chain, outputsOf_append, getElem?_append_left bound]
    exact found
  · omega

section Verdict
variable {environment : Environment} {now : UInt64} {first second : Core}
  {firstPtr secondPtr : SegmentPtr} {firstSegment secondSegment : Segment}
  {block : BlockTemplate} {rawBlock : RawBlock} {blockIndex : Nat}

end Verdict

/-! ### An output of the other branch -/

def branchSpend : Transaction :=
  { version := 1
    unlockTime := 0
    inputs := [.key { amount := 4, outputIndexes := [0], keyImage := { value := 11 } }]
    outputs := [{ amount := 3, target := { key := { value := 0 } } }]
    extra := [1, 0]
    signatures := [[{ value := 0 }]] }

/-- Two competing blocks above the genesis block; the second can spend an output of the first.
Signatures are good when there are as many of them as keys. -/
def branchEnvironment : Environment :=
  { primitives :=
      { tablePrimitives [ringGenesisBlock,
          { coinbaseBlock 1 0 1 37252903 with transactionHashes := [{ value := 257 }] },
          coinbaseBlock 2 0 1 37252903] [{ ringSpend 0 [0, 1] with extra := [0, 0] }, branchSpend] with
        checkRingSignature := fun _ _ keys signatures => keys.length = signatures.length }
    checkpoints := { points := [] } }

def branchGenesis : GenesisBlock branchEnvironment.primitives :=
  { block := ringGenesisBlock
    binaryArray := [0]
    parsed := rfl
    coinbase := inputs_ringGenesisBlock }

def branchCore : Core :=
  (initRootSegment branchGenesis).after branchEnvironment 0
    { block := [1], transactions := [[0, 0]] }

end Core
end Mevacoin
