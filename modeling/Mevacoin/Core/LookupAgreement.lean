/-
The two kinds of segment compared on one sequence of blocks: a database and a memory
segment without parent. They hold the same outputs, but answer a lookup alike only for
increasing indexes of outputs that exist.
-/

import Mevacoin.Core.GlobalIndexes
import Mevacoin.Core.OutputLookup

namespace Mevacoin
open List Option DatabaseBlockchainCache BlockEntry

variable {blocks : List PushedBlock}

/-! ### The same blocks in both kinds -/

/-- The genesis block as the constructor of a memory segment without parent pushes it. -/
def GenesisBlock.pushed {primitives : Primitives} (genesis : GenesisBlock primitives) :
    PushedBlock :=
  { block := genesis.block
    transactions := []
    validatorState := { spentKeyImages := [] }
    blockSize := (primitives.transactionToBinaryArray genesis.block.baseTransaction).length
    generatedCoins := (genesis.block.baseTransaction.outputs.map TransactionOutput.amount).sum
    blockDifficulty := 1
    rawBlock := genesis.rawBlock }

namespace BlockchainCache

/-- A segment without parent, before its constructor pushes the genesis block. -/
def root : BlockchainCache :=
  { parent := none
    startIndex := 0
    blocks := []
    transactions := []
    spentKeyImages := []
    keyOutputsGlobalIndexes := fun _ => none
    children := [] }

def ofBlocks {primitives : Primitives} (genesis : GenesisBlock primitives)
    (blocks : List PushedBlock) : Option BlockchainCache :=
  (genesis.pushed :: blocks).foldlM (pushBlock primitives []) root

end BlockchainCache

def DatabaseBlockchainCache.ofBlocks {primitives : Primitives} (genesis : GenesisBlock primitives)
    (blocks : List PushedBlock) : Option DatabaseBlockchainCache :=
  blocks.foldlM (pushBlock primitives) (addGenesisBlock genesis)

def chainOf (blocks : List PushedBlock) : List BlockEntry :=
  blocks.map fun pushed => pushed.rawBlock.unrecorded

/-- Consecutive blocks from index zero on, each pushed as it is read from its raw form. -/
def BlockSequence (primitives : Primitives) (blocks : List PushedBlock) : Prop :=
  ∀ position pushed, blocks[position]? = some pushed → pushed.block.getBlockIndex = position ∧
    ∃ transactions, ReadBack primitives pushed transactions

section Sequences
variable {primitives : Primitives}

theorem chainOf_concat (blocks : List PushedBlock) (pushed : PushedBlock) :
    chainOf (blocks ++ [pushed]) = chainOf blocks ++ [pushed.rawBlock.unrecorded] :=
  map_append

theorem BlockSequence.of_concat {pushed : PushedBlock}
    (sequence : BlockSequence primitives (blocks ++ [pushed])) :
    BlockSequence primitives blocks := by
  intro position earlier found
  have inside := index_lt found
  apply sequence position earlier
  rw [getElem?_append_left inside, found]

theorem BlockSequence.last {pushed : PushedBlock}
    (sequence : BlockSequence primitives (blocks ++ [pushed])) :
    pushed.block.getBlockIndex = blocks.length ∧
      ∃ transactions, ReadBack primitives pushed transactions := by
  apply sequence blocks.length pushed
  rw [getElem?_append_right (Nat.le_refl _), Nat.sub_self]
  rfl

theorem ReadBack.placedUnrecorded {pushed : PushedBlock} {transactions : List Transaction}
    (readBack : ReadBack primitives pushed transactions) (blockIndex : Nat) :
    placedFrom primitives blockIndex [pushed.rawBlock.unrecorded]
      = placeTransactions blockIndex (pushed.block.baseTransaction :: transactions) := by
  rw [← readBack.placed blockIndex
    { cumulativeDifficulty := 0, alreadyGeneratedCoins := 0, alreadyGeneratedTransactions := 0 }]
  exact placedFrom_congr rfl blockIndex

theorem memory_numbers_of_blocks {cache : BlockchainCache}
    (sequence : BlockSequence primitives blocks) (told : ToldApart primitives (chainOf blocks))
    (ran : blocks.foldlM (BlockchainCache.pushBlock primitives []) BlockchainCache.root
      = some cache) :
    cache.startIndex = 0 ∧ cache.Numbers primitives [] (placedFrom primitives 0 (chainOf blocks)) := by
  induction blocks using List.reverseRecOn generalizing cache with
  | nil =>
    cases ran
    exact ⟨rfl, rfl, rfl⟩
  | append_singleton blocks pushed ih =>
    rw [Checked.foldlM_concat] at ran
    obtain ⟨before, ranBefore, pushRan⟩ := bind_eq_some_iff.mp ran
    obtain ⟨index, transactions, readBack⟩ := sequence.last
    have apart := told.apart
    rw [chainOf_concat] at told
    obtain ⟨start, numbers⟩ := ih sequence.of_concat
      (told.of_shorter (prefix_append _ _)) ranBefore
    have length : 0 + (chainOf blocks).length = pushed.block.getBlockIndex := by
      rw [index, Nat.zero_add, chainOf, length_map]
    obtain ⟨totals, -, -, -, isStart, -⟩ := BlockchainCache.pushBlock_eq_some pushRan
    rw [chainOf_concat, placedFrom_append, readBack.placedUnrecorded, length] at apart ⊢
    exact ⟨isStart.trans start, numbers.pushBlock readBack.written apart
      (fun amount _ => rfl) pushRan⟩

theorem database_numbers_of_blocks {genesis : GenesisBlock primitives}
    {cache : DatabaseBlockchainCache} (sequence : BlockSequence primitives (genesis.pushed :: blocks))
    (told : ToldApart primitives (chainOf (genesis.pushed :: blocks)))
    (ran : ofBlocks genesis blocks = some cache) :
    cache.blocks.length = (genesis.pushed :: blocks).length ∧
      cache.Numbers primitives (placedFrom primitives 0 (chainOf (genesis.pushed :: blocks))) := by
  unfold ofBlocks at ran
  induction blocks using List.reverseRecOn generalizing cache with
  | nil =>
    cases ran
    exact ⟨rfl, (Core.addGenesisBlock_outputsNumbered genesis).toNumbers⟩
  | append_singleton blocks pushed ih =>
    rw [Checked.foldlM_concat] at ran
    obtain ⟨before, ranBefore, pushRan⟩ := bind_eq_some_iff.mp ran
    rw [← cons_append] at sequence told ⊢
    obtain ⟨-, transactions, readBack⟩ := sequence.last
    have distinct := told.distinct
    rw [chainOf_concat] at told
    obtain ⟨count, numbers⟩ := ih sequence.of_concat
      (told.of_shorter (prefix_append _ _)) ranBefore
    have length : 0 + (chainOf (genesis.pushed :: blocks)).length = before.blocks.length := by
      rw [count, Nat.zero_add, chainOf, length_map]
    obtain ⟨block, isGrown, -⟩ := pushBlock_hashes pushRan
    rw [← placedFrom_hashes 0] at distinct
    rw [chainOf_concat, placedFrom_append, readBack.placedUnrecorded, length] at distinct ⊢
    refine ⟨?_, numbers.pushBlock readBack.written distinct pushRan⟩
    rw [isGrown, length_append, length_append, count]
    rfl

end Sequences

/-! ### The answers -/

section Answers
variable {σ : Type} {primitives : Primitives} {callback : OutputCallback σ} {amount : UInt64}
  {blockIndex : Nat} {globalIndexes : List UInt32} {state : σ}

theorem extractKeyOutputs_of_memory {cache : BlockchainCache} {placed : List PlacedTransaction}
    (start : cache.startIndex = 0) (numbers : cache.Numbers primitives [] placed)
    (apart : placed.Pairwise (BlockchainCache.Apart primitives))
    (few : ∀ transaction ∈ placed, transaction.transaction.outputs.length ≤ 2 ^ 16) :
    Lineage.extractKeyOutputs callback amount blockIndex globalIndexes state [.memory cache]
      = if outputsOf primitives amount placed = [] then (.invalidGlobalIndex, state)
        else forEachIndex (visitOutput .invalidGlobalIndex
          (outputAt (outputsOf primitives amount placed)) callback) globalIndexes state := by
  have entry := congrFun numbers.outputs amount
  rw [Lineage.extractKeyOutputs]
  by_cases empty : outputsOf primitives amount placed = []
  · rw [if_pos empty]
    rw [empty, map_nil, ownOutputs, if_pos rfl] at entry
    rw [entry]
    rfl
  · rw [if_neg empty]
    rw [ownOutputs, if_neg (by simpa using empty)] at entry
    rw [entry]
    simp only
    rw [if_neg (by omega)]
    have first : BinarySearch.lowerBound (fun index => decide (index < UInt32.ofNat
        (outputsOf primitives amount ([] : List PlacedTransaction)).length)) globalIndexes = 0 :=
      BinarySearch.lowerBound_eq_zero
        fun _ _ => decide_eq_false (UInt32.not_lt.mpr UInt32.zero_le)
    rw [if_pos first, first, drop_zero]
    apply forEachIndex_congr
    intro index _
    unfold visitOutput
    rw [numbers.findOutput apart few (Nat.two_pow_pos 32) entry UInt32.zero_le, nil_append]

theorem forEachIndex_missing {outputs : List StoredKeyOutput} {visited : List UInt32}
    (outside : ∃ index ∈ globalIndexes, outputs.length ≤ index.toNat) :
    (forEachIndex (visitOutput .invalidGlobalIndex (outputAt outputs) noteIndexes)
      globalIndexes visited).1 = .invalidGlobalIndex := by
  induction globalIndexes generalizing visited with
  | nil =>
    obtain ⟨index, member, -⟩ := outside
    cases member
  | cons index rest ih =>
    rw [forEachIndex]
    by_cases inside : index.toNat < outputs.length
    · have visit : visitOutput .invalidGlobalIndex (outputAt outputs) noteIndexes index visited
          = (.success, visited ++ [index]) := by
        unfold visitOutput outputAt
        rw [getElem?_eq_getElem inside]
        rfl
      rw [visit]
      apply ih
      obtain ⟨later, member, beyond⟩ := outside
      rcases mem_cons.mp member with same | inRest
      · subst same
        omega
      · exact ⟨later, inRest, beyond⟩
    · unfold visitOutput outputAt
      rw [getElem?_eq_none (Nat.le_of_not_lt inside)]
      rfl

theorem forEachIndex_skipping {outputs : List StoredKeyOutput} {visited : List UInt32} :
    (forEachIndex (visitOutput .success (outputAt outputs) noteIndexes)
      globalIndexes visited).1 = .success := by
  induction globalIndexes generalizing visited with
  | nil => rfl
  | cons index rest ih =>
    rw [forEachIndex]
    unfold visitOutput
    cases outputAt outputs index with
    | none => exact ih
    | some found => exact ih

end Answers

/-- The callback is called for each index in the order of the request, and an index without
output is reported. The outcome is that of a lookup that notes the indexes. -/
def AnswersRequest (count : Nat) (globalIndexes : List UInt32)
    (outcome : ExtractOutputKeysResult × List UInt32) : Prop :=
  ((∀ index ∈ globalIndexes, index.toNat < count) → outcome = (.success, globalIndexes)) ∧
    ((∃ index ∈ globalIndexes, count ≤ index.toNat) → outcome.1 = .invalidGlobalIndex)

section Requests
variable {outputs : List StoredKeyOutput} {globalIndexes : List UInt32}

theorem database_answersRequest_iff :
    AnswersRequest outputs.length globalIndexes
        (forEachIndex (visitOutput .success (outputAt outputs) noteIndexes)
          (orderedIndexes globalIndexes) []) ↔
      globalIndexes.Pairwise (· < ·) ∧ ∀ index ∈ globalIndexes, index.toNat < outputs.length := by
  constructor
  · intro answers
    have inside : ∀ index ∈ globalIndexes, index.toNat < outputs.length := by
      intro index member
      apply Nat.lt_of_not_le
      intro beyond
      have reported := answers.2 ⟨index, member, beyond⟩
      rw [forEachIndex_skipping] at reported
      cases reported
    have visited := answers.1 inside
    rw [forEachIndex_noteIndexes .success, nil_append, Prod.mk.injEq] at visited
    · exact ⟨orderedIndexes_eq_self_iff.mp visited.2, inside⟩
    · intro index member
      exact inside index (mem_orderedIndexes.mp member)
  · intro ⟨increasing, inside⟩
    rw [orderedIndexes_eq_self_iff.mpr increasing,
      forEachIndex_noteIndexes .success inside, nil_append]
    refine ⟨fun _ => rfl, ?_⟩
    intro ⟨index, member, beyond⟩
    have bound := inside index member
    omega

theorem memory_answersRequest :
    AnswersRequest outputs.length globalIndexes
      (forEachIndex (visitOutput .invalidGlobalIndex (outputAt outputs) noteIndexes)
        globalIndexes []) := by
  constructor
  · intro inside
    rw [forEachIndex_noteIndexes _ inside, nil_append]
  · exact forEachIndex_missing

end Requests

/-- The two kinds of segment answer alike and as requested exactly if there are outputs of
the amount and the indexes are increasing indexes of them. -/
theorem extractKeyOutputs_agree_iff {primitives : Primitives} {genesis : GenesisBlock primitives}
    {blocks : List PushedBlock} {database : DatabaseBlockchainCache} {memory : BlockchainCache}
    (sequence : BlockSequence primitives (genesis.pushed :: blocks))
    (told : ToldApart primitives (chainOf (genesis.pushed :: blocks)))
    (isDatabase : ofBlocks genesis blocks = some database)
    (isMemory : BlockchainCache.ofBlocks genesis blocks = some memory)
    (now amount : UInt64) (blockIndex : Nat) (globalIndexes : List UInt32) :
    (Lineage.extractKeyOutputs (collectKeys now blockIndex) amount blockIndex globalIndexes []
          [.database database]
        = Lineage.extractKeyOutputs (collectKeys now blockIndex) amount blockIndex globalIndexes []
          [.memory memory] ∧
      AnswersRequest (outputCount primitives amount (chainOf (genesis.pushed :: blocks)))
        globalIndexes (Lineage.extractKeyOutputs noteIndexes amount blockIndex globalIndexes []
          [.database database]) ∧
      AnswersRequest (outputCount primitives amount (chainOf (genesis.pushed :: blocks)))
        globalIndexes (Lineage.extractKeyOutputs noteIndexes amount blockIndex globalIndexes []
          [.memory memory])) ↔
      0 < outputCount primitives amount (chainOf (genesis.pushed :: blocks)) ∧
        globalIndexes.Pairwise (· < ·) ∧
        ∀ index ∈ globalIndexes,
          index.toNat < outputCount primitives amount (chainOf (genesis.pushed :: blocks)) := by
  obtain ⟨-, databaseNumbers⟩ := database_numbers_of_blocks sequence told isDatabase
  obtain ⟨start, memoryNumbers⟩ := memory_numbers_of_blocks sequence told isMemory
  simp only [Lineage.extractKeyOutputs_of_database, databaseNumbers.outputs,
    extractKeyOutputs_of_memory start memoryNumbers told.apart told.fewOutputs, outputCount]
  generalize outputsOf primitives amount
    (placedFrom primitives 0 (chainOf (genesis.pushed :: blocks))) = outputs
  rw [database_answersRequest_iff, length_pos_iff]
  by_cases empty : outputs = []
  · rw [if_pos empty, if_pos empty]
    constructor
    · intro ⟨_, fromDatabase, fromMemory⟩
      have answer := fromMemory.1 fromDatabase.2
      cases congrArg Prod.fst answer
    · intro ⟨nonempty, _⟩
      exact absurd empty nonempty
  · rw [if_neg empty, if_neg empty]
    constructor
    · intro ⟨_, fromDatabase, _⟩
      exact ⟨empty, fromDatabase⟩
    · intro ⟨_, increasing, inside⟩
      refine ⟨?_, ⟨increasing, inside⟩, memory_answersRequest⟩
      rw [orderedIndexes_eq_self_iff.mpr increasing]
      apply forEachIndex_congr
      intro index member
      unfold visitOutput outputAt
      rw [getElem?_eq_getElem (inside index member)]
      rfl

/-! ### Two coinbases of one amount -/

section Coinbases
open Core (forkEnvironment forkGenesis)

/-- The block with a code of the fork environment, on top of the one with the code before. -/
def forkPushed (code : Nat) : PushedBlock :=
  { block := coinbaseBlock code (code - 1) code 37252902
    transactions := []
    validatorState := { spentKeyImages := [] }
    blockSize := 1
    generatedCoins := 37252902
    blockDifficulty := 1
    rawBlock := codedBlock (UInt8.ofNat code) }

theorem forkPushed_sequence : BlockSequence forkEnvironment.primitives
    (forkGenesis.pushed :: [forkPushed 1, forkPushed 2]) := by
  have coinbaseOnly : ∀ pushed : PushedBlock, pushed.transactions = [] →
      pushed.rawBlock.transactions = [] →
      forkEnvironment.primitives.blockFromBinaryArray pushed.rawBlock.block = some pushed.block →
      ReadBack forkEnvironment.primitives pushed [] := by
    intro pushed noTransactions noBinaries parsed
    refine ⟨noTransactions, fun totals => transactions_eq parsed ?_⟩
    change pushed.rawBlock.transactions.mapM _ = _
    rw [noBinaries]
    rfl
  intro position pushed found
  rcases position with _ | _ | _ | position
  · cases found
    exact ⟨rfl, [], coinbaseOnly _ rfl rfl rfl⟩
  · cases found
    exact ⟨rfl, [], coinbaseOnly _ rfl rfl rfl⟩
  · cases found
    exact ⟨rfl, [], coinbaseOnly _ rfl rfl rfl⟩
  · cases found

theorem extractKeyOutputs_agree_iff_coinbases :
    ∃ database memory, ofBlocks forkGenesis [forkPushed 1, forkPushed 2] = some database ∧
      BlockchainCache.ofBlocks forkGenesis [forkPushed 1, forkPushed 2] = some memory ∧
      Lineage.extractKeyOutputs (collectKeys 0 9) 37252902 9 [0, 1] [] [.database database]
        = Lineage.extractKeyOutputs (collectKeys 0 9) 37252902 9 [0, 1] [] [.memory memory] := by
  obtain ⟨database, isDatabase⟩ := isSome_iff_exists.mp
    (show (ofBlocks forkGenesis [forkPushed 1, forkPushed 2]).isSome from rfl)
  obtain ⟨memory, isMemory⟩ := isSome_iff_exists.mp
    (show (BlockchainCache.ofBlocks forkGenesis [forkPushed 1, forkPushed 2]).isSome from rfl)
  have told : ToldApart forkEnvironment.primitives
      (chainOf (forkGenesis.pushed :: [forkPushed 1, forkPushed 2])) :=
    ⟨by decide +kernel, by decide +kernel, by decide +kernel⟩
  have agree := extractKeyOutputs_agree_iff forkPushed_sequence told
    isDatabase isMemory 0 37252902 9 [0, 1]
  refine ⟨database, memory, isDatabase, isMemory, (agree.mpr ?_).1⟩
  simp only [forall_mem_cons, not_mem_nil, false_implies, implies_true, and_true]
  decide +kernel

/-- The amount has two outputs. Asked for an eighth one the database answers with success
and no key; asked for both in descending order, or twice for the first, it does not call the
callback as requested. -/
theorem extractKeyOutputs_differ :
    outputCount forkEnvironment.primitives 37252902
        (chainOf (forkGenesis.pushed :: [forkPushed 1, forkPushed 2])) = 2 ∧
      (ofBlocks forkGenesis [forkPushed 1, forkPushed 2]).map
          (fun database => [[7], [1, 0], [0, 0]].map fun globalIndexes =>
            Lineage.extractKeyOutputs noteIndexes 37252902 2 globalIndexes []
              [.database database])
        = some [(.success, []), (.success, [0, 1]), (.success, [0])] ∧
      (BlockchainCache.ofBlocks forkGenesis [forkPushed 1, forkPushed 2]).map
          (fun memory => [[7], [1, 0], [0, 0]].map fun globalIndexes =>
            Lineage.extractKeyOutputs noteIndexes 37252902 2 globalIndexes []
              [.memory memory])
        = some [(.invalidGlobalIndex, []), (.success, [1, 0]), (.success, [0, 0])] := by
  decide +kernel

end Coinbases
end Mevacoin
