/-
What pushing and splitting do to the blocks of a segment. A block's record follows
that of the block below it when both agree with the raw block, and a replay
reproduces such records.
-/

import Mathlib.Data.List.Chain
import Mevacoin.Cache.Update

namespace Mevacoin
open List Nat Option Lineage Segment BlockchainCache BlockchainCache.Totals

variable {below above : BlockEntry} {pushed : PushedBlock} {splitBlockIndex : Nat}
  {self : SegmentPtr} {upper : BlockchainCache}

theorem index_lt {α : Type} {items : List α} {index : Nat} {item : α}
    (found : items[index]? = some item) : index < items.length :=
  (List.getElem?_eq_some_iff.mp found).1

theorem isChain_neighbours {α : Type} {link : α → α → Prop} {items : List α}
    (chain : items.IsChain link) {index : Nat} {below above : α}
    (isBelow : items[index]? = some below) (isAbove : items[index + 1]? = some above) :
    link below above := by
  obtain ⟨inside, rfl⟩ := List.getElem?_eq_some_iff.mp isAbove
  obtain ⟨_, rfl⟩ := List.getElem?_eq_some_iff.mp isBelow
  exact isChain_iff_getElem.mp chain index inside

/-! ### Records that follow each other -/

/-- The block index that the coinbase of the stored block names. -/
def BlockEntry.blockIndex (primitives : Primitives) (entry : BlockEntry) : Nat :=
  ((primitives.blockFromBinaryArray entry.rawBlock.block).map BlockTemplate.getBlockIndex).getD 0

/-- The transactions of the stored block, the coinbase first; a block that cannot be read
has none. -/
def BlockEntry.transactions (primitives : Primitives) (entry : BlockEntry) : List Transaction :=
  match primitives.blockFromBinaryArray entry.rawBlock.block,
      entry.rawBlock.transactions.mapM primitives.transactionFromBinaryArray with
  | some block, some transactions => block.baseTransaction :: transactions
  | _, _ => []

variable {primitives : Primitives}

theorem BlockEntry.transactions_eq {entry : BlockEntry}
    {block : BlockTemplate} {transactions : List Transaction}
    (blockParsed : primitives.blockFromBinaryArray entry.rawBlock.block = some block)
    (transactionsParsed :
      entry.rawBlock.transactions.mapM primitives.transactionFromBinaryArray = some transactions) :
    entry.transactions primitives = block.baseTransaction :: transactions := by
  simp [BlockEntry.transactions, blockParsed, transactionsParsed]

/-- The previous hash in the raw block above is the hash recorded below. -/
def HashLinked (primitives : Primitives) (below above : BlockEntry) : Prop :=
  ∃ block, primitives.blockFromBinaryArray above.rawBlock.block = some block ∧
    block.previousBlockHash = below.info.blockHash

/-- The record above was made from its raw block on top of the record below. -/
structure Follows (primitives : Primitives) (below above : BlockEntry) (block : BlockTemplate)
    (transactions : List Transaction) : Prop where
  block_parsed : primitives.blockFromBinaryArray above.rawBlock.block = some block
  transactions_parsed :
    above.rawBlock.transactions.mapM primitives.transactionFromBinaryArray = some transactions
  previous : block.previousBlockHash = below.info.blockHash
  index : block.getBlockIndex = below.blockIndex primitives + 1
  hash : above.info.blockHash = primitives.getBlockHash block
  timestamp : above.info.timestamp = block.timestamp
  count : above.info.alreadyGeneratedTransactions
    = below.info.alreadyGeneratedTransactions + UInt64.ofNat transactions.length + 1

def Recorded (primitives : Primitives) (below above : BlockEntry) : Prop :=
  ∃ block transactions, Follows primitives below above block transactions

theorem Recorded.hashLinked
    (recorded : Recorded primitives below above) : HashLinked primitives below above := by
  obtain ⟨block, transactions, follows⟩ := recorded
  exact ⟨block, follows.block_parsed, follows.previous⟩

theorem Recorded.blockIndex (recorded : Recorded primitives below above) :
    above.blockIndex primitives = below.blockIndex primitives + 1 := by
  obtain ⟨block, transactions, follows⟩ := recorded
  simp [BlockEntry.blockIndex, follows.block_parsed, follows.index]

theorem blockIndex_eq_position {entries : List BlockEntry}
    (chain : entries.IsChain (Recorded primitives))
    (genesis : ∀ first ∈ entries.head?, first.blockIndex primitives = 0) {index : Nat}
    {entry : BlockEntry} (found : entries[index]? = some entry) :
    entry.blockIndex primitives = index := by
  induction index generalizing entry with
  | zero => exact genesis entry (by rwa [head?_eq_getElem?])
  | succ index ih =>
    have inside := index_lt found
    have previous := getElem?_eq_getElem (lt_of_succ_lt inside)
    rw [(isChain_neighbours chain previous found).blockIndex, ih previous]

/-- The form in which a stored block is handed to another segment. -/
structure Restored (primitives : Primitives) (pushed : PushedBlock) (below above : BlockEntry) :
    Prop where
  block : primitives.blockFromBinaryArray above.rawBlock.block = some pushed.block
  transactions : ∃ transactions,
    above.rawBlock.transactions.mapM primitives.transactionFromBinaryArray = some transactions ∧
    pushed.transactions = transactions.map (CachedTransaction.ofTransaction primitives)
  size : pushed.blockSize = above.info.blockSize.toNat
  coins : pushed.generatedCoins
    = above.info.alreadyGeneratedCoins - below.info.alreadyGeneratedCoins
  difficulty : pushed.blockDifficulty
    = above.info.cumulativeDifficulty - below.info.cumulativeDifficulty
  rawBlock : pushed.rawBlock = above.rawBlock

private theorem add_difference (below above : UInt64) : below + (above - below) = above := by
  rw [UInt64.add_comm, UInt64.sub_add_cancel]

theorem Restored.entry_eq (restored : Restored primitives pushed below above)
    (link : Recorded primitives below above) :
    pushed.entry primitives (ofInfo below.info) = above := by
  obtain ⟨block, transactions, follows⟩ := link
  obtain ⟨transactions', areTransactions, pushedTransactions⟩ := restored.transactions
  have sameBlock : block = pushed.block :=
    Option.some.inj (follows.block_parsed.symm.trans restored.block)
  have sameTransactions : transactions' = transactions :=
    Option.some.inj (areTransactions.symm.trans follows.transactions_parsed)
  have hash := follows.hash
  have timestamp := follows.timestamp
  have count := follows.count
  cases above with
  | mk info rawBlock =>
    cases info
    simp_all [PushedBlock.entry, PushedBlock.info, ofInfo,
      add_difference, restored.size, restored.coins, restored.difficulty, restored.rawBlock]

theorem Restored.index_eq (restored : Restored primitives pushed below above)
    (link : Recorded primitives below above) :
    pushed.block.getBlockIndex = below.blockIndex primitives + 1 := by
  obtain ⟨block, transactions, follows⟩ := link
  have sameBlock : block = pushed.block :=
    Option.some.inj (follows.block_parsed.symm.trans restored.block)
  rw [← sameBlock, follows.index]

/-! ### Pushing onto a memory segment -/

variable {cache : BlockchainCache}

namespace BlockchainCache
variable {primitives : Primitives} {parents : List Segment}

/-- The tables of transactions and outputs are all that pushing transactions changes. -/
theorem pushTransactions_frame (blockIndex : Nat) (transactions : List (CachedTransaction × Nat))
    (cache : BlockchainCache) :
    let result := transactions.foldl (pushTransaction primitives parents blockIndex) cache
    result.blocks = cache.blocks ∧ result.parent = cache.parent ∧
      result.startIndex = cache.startIndex ∧ result.children = cache.children ∧
      result.spentKeyImages = cache.spentKeyImages := by
  induction transactions generalizing cache with
  | nil => exact ⟨rfl, rfl, rfl, rfl, rfl⟩
  | cons head tail ih => exact ih (pushTransaction primitives parents blockIndex cache head)

theorem pushBlock_eq_some {result : BlockchainCache}
    (ran : cache.pushBlock primitives parents pushed = some result) :
    ∃ totals, previousTotals parents cache pushed.block.getBlockIndex = some totals ∧
      result.blocks = cache.blocks ++ [pushed.entry primitives totals] ∧
      result.parent = cache.parent ∧ result.startIndex = cache.startIndex ∧
      result.children = cache.children ∧
      result.spentKeyImages = pushed.validatorState.spentKeyImages.foldl
        (addSpentKeyImage pushed.block.getBlockIndex) cache.spentKeyImages := by
  obtain ⟨totals, hasTotals, rest⟩ := bind_eq_some_iff.mp ran
  cases rest
  exact ⟨totals, hasTotals, pushTransactions_frame _ _ _⟩

theorem previousTotals_of_last (parents : List Segment)
    {last : BlockEntry} (isLast : cache.blocks.getLast? = some last) (blockIndex : Nat) :
    previousTotals parents cache blockIndex = some (Totals.ofInfo last.info) := by
  simp [previousTotals, isLast]

end BlockchainCache

theorem DatabaseBlockchainCache.infos_eq (cache : DatabaseBlockchainCache) :
    cache.infos = cache.entries.map BlockEntry.info := by
  simp [infos, entries, Function.comp_def]

variable {blockIndex : Nat}

theorem BlockchainCache.previousTotals_of_parent {parent : Segment} {rest : List Segment}
    (empty : cache.blocks = []) (above : parent.getStartBlockIndex ≤ blockIndex - 1)
    (isBelow : parent.entries[blockIndex - 1 - parent.getStartBlockIndex]? = some below) :
    previousTotals (parent :: rest) cache blockIndex = some (Totals.ofInfo below.info) := by
  cases parent with
  | database root =>
    simp only [getStartBlockIndex, entries, Nat.sub_zero] at isBelow
    simp [previousTotals, empty, getCurrentCumulativeDifficultyAt,
      getStartBlockIndex, entries, isBelow, Lineage.getAlreadyGeneratedCoins,
      getAlreadyGeneratedTransactions, getCachedBlockInfo,
      DatabaseBlockchainCache.infos_eq, Totals.ofInfo]
  | memory parent =>
    simp only [getStartBlockIndex, entries] at above isBelow
    simp [previousTotals, empty, getCurrentCumulativeDifficultyAt,
      getStartBlockIndex, entries, isBelow, Lineage.getAlreadyGeneratedCoins,
      getAlreadyGeneratedTransactions, getCachedBlockInfo,
      not_lt.mpr above, Totals.ofInfo]

/-! ### Pushing onto the database segment -/

def DatabaseBlock.entry (block : DatabaseBlock) : BlockEntry :=
  { info := block.info, rawBlock := block.rawBlock }

namespace DatabaseBlockchainCache
variable {primitives : Primitives}

theorem entries_eq (cache : DatabaseBlockchainCache) :
    cache.entries = cache.blocks.map DatabaseBlock.entry := rfl

@[simp]
theorem entries_length (cache : DatabaseBlockchainCache) :
    cache.entries.length = cache.blocks.length := by
  simp [entries]

theorem pushTransactions_frame (primitives : Primitives) (blockIndex : Nat)
    (transactions : List (CachedTransaction × Nat)) (cache : DatabaseBlockchainCache) :
    let result := transactions.foldl (pushTransaction primitives blockIndex) cache
    result.blocks = cache.blocks ∧ result.children = cache.children ∧
      result.unitsCache = cache.unitsCache ∧
      result.blockIndexBySpentKeyImage = cache.blockIndexBySpentKeyImage := by
  induction transactions generalizing cache with
  | nil => exact ⟨rfl, rfl, rfl, rfl⟩
  | cons head tail ih => exact ih (pushTransaction primitives blockIndex cache head)

def pushUnit (unitsCache : List CachedBlockInfo) (info : CachedBlockInfo) :
    List CachedBlockInfo :=
  if (unitsCache ++ [info]).length > unitsCacheSize then (unitsCache ++ [info]).drop 1
  else unitsCache ++ [info]

theorem pushBlock_eq_some {cache result : DatabaseBlockchainCache}
    (ran : cache.pushBlock primitives pushed = some result) :
    ∃ last, cache.entries.getLast? = some last ∧
      result.entries = cache.entries ++ [pushed.entry primitives (ofInfo last.info)] ∧
      result.children = cache.children ∧
      result.unitsCache = pushUnit cache.unitsCache
        (pushed.info primitives (ofInfo last.info)) ∧
      result.blockIndexBySpentKeyImage = (fun keyImage =>
        if keyImage ∈ pushed.validatorState.spentKeyImages then some cache.blocks.length
        else cache.blockIndexBySpentKeyImage keyImage) ∧
      ∃ block, result.blocks = cache.blocks ++ [block] ∧
        block.entry = pushed.entry primitives (ofInfo last.info) ∧
        block.spentKeyImages = pushed.validatorState.spentKeyImages := by
  obtain ⟨info, isInfo, rest⟩ := bind_eq_some_iff.mp ran
  cases rest
  rw [infos_eq, getElem?_map, map_eq_some_iff] at isInfo
  obtain ⟨last, isLast, rfl⟩ := isInfo
  have inside := index_lt isLast
  rw [getTopBlockIndex, entries_length] at inside
  obtain ⟨blocks, children, units, spent⟩ := pushTransactions_frame primitives
    (cache.getTopBlockIndex + 1) (pushed.indexedTransactions primitives) cache
  refine ⟨last, ?_, ?_, children, ?_, ?_, ?_⟩
  · rw [getLast?_eq_getElem?, entries_length]
    exact isLast
  · simp [entries, blocks, PushedBlock.entry]
  · simp only [units]
    rfl
  · have top : cache.getTopBlockIndex + 1 = cache.blocks.length := by
      unfold getTopBlockIndex
      omega
    simp only [spent]
    rw [top]
  · exact ⟨_, congrArg (· ++ _) blocks, rfl, rfl⟩

end DatabaseBlockchainCache

namespace Segment
variable {primitives : Primitives} {parents : List Segment}

theorem pushBlock_eq_some {segment result : Segment} {last : BlockEntry}
    (isLast : segment.entries.getLast? = some last)
    (ran : segment.pushBlock primitives parents pushed = some result) :
    result.entries = segment.entries
        ++ [pushed.entry primitives (ofInfo last.info)] ∧
      result.getParent = segment.getParent ∧
      result.getStartBlockIndex = segment.getStartBlockIndex ∧
      result.children = segment.children := by
  cases segment with
  | database cache =>
    obtain ⟨result, pushRan, rfl⟩ := map_eq_some_iff.mp ran
    obtain ⟨last', isLast', entries, children, -⟩ :=
      DatabaseBlockchainCache.pushBlock_eq_some pushRan
    have same : last' = last := Option.some.inj (isLast'.symm.trans isLast)
    subst same
    exact ⟨entries, rfl, rfl, children⟩
  | memory cache =>
    obtain ⟨result, pushRan, rfl⟩ := map_eq_some_iff.mp ran
    obtain ⟨totals, hasTotals, blocks, parent, start, children, -⟩ :=
      BlockchainCache.pushBlock_eq_some pushRan
    rw [previousTotals_of_last _ isLast] at hasTotals
    cases hasTotals
    exact ⟨blocks, parent, start, children⟩

end Segment

/-! ### Replaying the upper blocks of the database segment -/

namespace DatabaseBlockchainCache
variable {primitives : Primitives} {cache : DatabaseBlockchainCache}

/-- What holds of the empty segment and is kept by the push of each stored block holds
of the segment that a replay builds. -/
theorem replayUpper_induction (motive : Nat → BlockchainCache → Prop)
    (ran : cache.replayUpper primitives splitBlockIndex self = some upper)
    (initially : motive splitBlockIndex (BlockchainCache.create self splitBlockIndex))
    (step : ∀ blockIndex pushed built grown, splitBlockIndex ≤ blockIndex →
      cache.getExtendedPushedBlockInfo primitives blockIndex = some pushed →
      built.pushBlock primitives [.database cache] pushed = some grown →
      motive blockIndex built → motive (blockIndex + 1) grown) :
    motive (splitBlockIndex + (cache.getTopBlockIndex + 1 - splitBlockIndex)) upper := by
  unfold replayUpper at ran
  generalize cache.getTopBlockIndex + 1 - splitBlockIndex = count at ran ⊢
  induction count generalizing upper with
  | zero =>
    cases ran
    exact initially
  | succ count ih =>
    simp only [range'_1_concat, foldlM_append, foldlM_cons, foldlM_nil, bind_pure] at ran
    obtain ⟨lower, lowerRan, stepRan⟩ := bind_eq_some_iff.mp ran
    obtain ⟨pushed, isPushed, pushRan⟩ := bind_eq_some_iff.mp stepRan
    exact step _ pushed lower upper (le_add_right _ _) isPushed pushRan (ih lowerRan)

theorem getExtendedPushedBlockInfo_eq_some (positive : 0 < blockIndex)
    (ran : cache.getExtendedPushedBlockInfo primitives blockIndex = some pushed) :
    ∃ stored below transactions, cache.blocks[blockIndex]? = some stored ∧
      cache.entries[blockIndex - 1]? = some below ∧
      primitives.blockFromBinaryArray stored.rawBlock.block = some pushed.block ∧
      stored.rawBlock.transactions.mapM primitives.transactionFromBinaryArray = some transactions ∧
      pushed.transactions = transactions.map (CachedTransaction.ofTransaction primitives) ∧
      pushed.validatorState.spentKeyImages = stored.spentKeyImages ∧
      pushed.blockSize = stored.info.blockSize.toNat ∧
      pushed.generatedCoins = stored.info.alreadyGeneratedCoins - below.info.alreadyGeneratedCoins ∧
      pushed.blockDifficulty = stored.info.cumulativeDifficulty - below.info.cumulativeDifficulty ∧
      pushed.rawBlock = stored.rawBlock := by
  obtain ⟨stored, isStored, ran⟩ := bind_eq_some_iff.mp ran
  rw [if_pos positive, infos_eq, getElem?_map, Option.map_map] at ran
  obtain ⟨previous, isPrevious, ran⟩ := bind_eq_some_iff.mp ran
  obtain ⟨below, isBelow, rfl⟩ := map_eq_some_iff.mp isPrevious
  obtain ⟨block, isBlock, ran⟩ := bind_eq_some_iff.mp ran
  obtain ⟨transactions, areTransactions, ran⟩ := bind_eq_some_iff.mp ran
  cases ran
  exact ⟨stored, below, transactions, isStored, isBelow, isBlock, areTransactions,
    rfl, rfl, rfl, rfl, rfl, rfl⟩

structure Replayed (cache : DatabaseBlockchainCache) (splitBlockIndex : Nat) (lower : SegmentPtr)
    (blockIndex : Nat) (built : BlockchainCache) : Prop where
  blocks : built.blocks = (cache.entries.take blockIndex).drop splitBlockIndex
  parent : built.parent = some lower
  start : built.startIndex = splitBlockIndex
  children : built.children = []

structure ReplayStep (primitives : Primitives) (cache : DatabaseBlockchainCache)
    (blockIndex : Nat) (pushed : PushedBlock) (entry : BlockEntry)
    (built grown : BlockchainCache) : Prop where
  stored : cache.getExtendedPushedBlockInfo primitives blockIndex = some pushed
  ran : built.pushBlock primitives [.database cache] pushed = some grown
  index : pushed.block.getBlockIndex = blockIndex
  found : cache.entries[blockIndex]? = some entry
  blocks : grown.blocks = built.blocks ++ [entry]

theorem Replayed.under {built : BlockchainCache} (above : splitBlockIndex ≤ blockIndex)
    (replayed : Replayed cache splitBlockIndex self blockIndex built) :
    cache.entries.take blockIndex = cache.entries.take splitBlockIndex ++ built.blocks := by
  have halves := take_append_drop splitBlockIndex (cache.entries.take blockIndex)
  rw [take_take, Nat.min_eq_left above, ← replayed.blocks] at halves
  exact halves.symm

section
variable (chain : cache.entries.IsChain (Recorded primitives))
  (genesis : ∀ first ∈ cache.entries.head?, first.blockIndex primitives = 0)
include chain genesis

theorem replayed_entry (positive : 0 < blockIndex)
    (ran : cache.getExtendedPushedBlockInfo primitives blockIndex = some pushed) :
    ∃ below, cache.entries[blockIndex - 1]? = some below ∧
      cache.entries[blockIndex]? = some (pushed.entry primitives (ofInfo below.info)) ∧
      pushed.block.getBlockIndex = blockIndex := by
  obtain ⟨stored, below, transactions, isStored, isBelow, isBlock, areTransactions, pushedTxs,
    -, size, coins, difficulty, raw⟩ := getExtendedPushedBlockInfo_eq_some positive ran
  have isEntry : cache.entries[blockIndex]?
      = some { info := stored.info, rawBlock := stored.rawBlock } := by
    simp [entries, isStored]
  cases blockIndex with
  | zero => cases positive
  | succ index =>
    rw [Nat.add_sub_cancel] at isBelow
    have restored : Restored primitives pushed below
        { info := stored.info, rawBlock := stored.rawBlock } :=
      ⟨isBlock, ⟨transactions, areTransactions, pushedTxs⟩, size, coins, difficulty, raw⟩
    have link := isChain_neighbours chain isBelow isEntry
    refine ⟨below, isBelow, ?_, ?_⟩
    · rw [isEntry, restored.entry_eq link]
    · rw [restored.index_eq link, blockIndex_eq_position chain genesis isBelow]

theorem Replayed.step {built grown : BlockchainCache}
    (positive : 0 < splitBlockIndex) (above : splitBlockIndex ≤ blockIndex)
    (isPushed : cache.getExtendedPushedBlockInfo primitives blockIndex = some pushed)
    (ran : built.pushBlock primitives [.database cache] pushed = some grown)
    (replayed : Replayed cache splitBlockIndex self blockIndex built) :
    ∃ entry, ReplayStep primitives cache blockIndex pushed entry built grown ∧
      Replayed cache splitBlockIndex self (blockIndex + 1) grown := by
  obtain ⟨below, isBelow, isEntry, index⟩ := replayed_entry chain genesis (by omega) isPushed
  obtain ⟨totals, hasTotals, grownBlocks, grownParent, grownStart, grownChildren, -⟩ :=
    BlockchainCache.pushBlock_eq_some ran
  have continued : totals = ofInfo below.info := by
    rcases Nat.eq_or_lt_of_le above with first | later
    · have empty : built.blocks = [] := by simp [replayed.blocks, first]
      rw [index, previousTotals_of_parent empty (zero_le _) isBelow]
        at hasTotals
      exact (Option.some.inj hasTotals).symm
    · have last : built.blocks.getLast? = some below := by
        have := index_lt isBelow
        rw [replayed.blocks, getLast?_drop, length_take, if_neg (by omega), getLast?_take, isBelow]
        simp [ne_of_gt (lt_of_le_of_lt (zero_le _) later)]
      rw [previousTotals_of_last _ last] at hasTotals
      exact (Option.some.inj hasTotals).symm
  rw [continued] at grownBlocks
  refine ⟨_, ⟨isPushed, ran, index, isEntry, grownBlocks⟩, ?_, grownParent.trans replayed.parent,
    grownStart.trans replayed.start, grownChildren.trans replayed.children⟩
  have length : (cache.entries.take blockIndex).length = blockIndex := by
    have := index_lt isEntry
    rw [length_take]
    omega
  rw [grownBlocks, replayed.blocks, take_add_one, isEntry, drop_append, length,
    Nat.sub_eq_zero_of_le above]
  rfl

/-- A replay reproduces the upper blocks in a segment of their own; what each of its rounds
keeps holds of that segment. -/
theorem replayUpper_replayed (motive : BlockchainCache → Prop)
    (positive : 0 < splitBlockIndex) (inside : splitBlockIndex < cache.blocks.length)
    (ran : cache.replayUpper primitives splitBlockIndex self = some upper)
    (initially : motive (BlockchainCache.create self splitBlockIndex))
    (step : ∀ blockIndex pushed entry built grown, splitBlockIndex ≤ blockIndex →
      Replayed cache splitBlockIndex self blockIndex built →
      ReplayStep primitives cache blockIndex pushed entry built grown →
      motive built → motive grown) :
    Replayed cache splitBlockIndex self cache.entries.length upper ∧ motive upper := by
  have built := replayUpper_induction
    (fun blockIndex built => Replayed cache splitBlockIndex self blockIndex built ∧ motive built)
    ran ⟨⟨by simp [create], rfl, rfl, rfl⟩, initially⟩ (by
      intro blockIndex pushed built grown above isPushed pushRan holds
      obtain ⟨entry, replayStep, replayed⟩ :=
        Replayed.step chain genesis positive above isPushed pushRan holds.1
      exact ⟨replayed, step blockIndex pushed entry built grown above holds.1 replayStep holds.2⟩)
  have all : splitBlockIndex + (cache.getTopBlockIndex + 1 - splitBlockIndex)
      = cache.entries.length := by
    rw [entries_length, getTopBlockIndex]
    omega
  rwa [all] at built

theorem replayUpper_eq_some
    (positive : 0 < splitBlockIndex) (inside : splitBlockIndex < cache.blocks.length)
    (ran : cache.replayUpper primitives splitBlockIndex self = some upper) :
    upper.blocks = cache.entries.drop splitBlockIndex ∧ upper.parent = some self ∧
      upper.startIndex = splitBlockIndex ∧ upper.children = [] := by
  obtain ⟨replayed, -⟩ := replayUpper_replayed chain genesis (fun _ => True) positive inside ran
    trivial (fun _ _ _ _ _ _ _ _ _ => trivial)
  have blocks := replayed.blocks
  rw [take_length] at blocks
  exact ⟨blocks, replayed.parent, replayed.start, replayed.children⟩

end

theorem deleteUpper_eq_some {lower : DatabaseBlockchainCache}
    {upper : SegmentPtr} (ran : cache.deleteUpper splitBlockIndex upper = some lower) :
    lower.blocks = cache.blocks.take splitBlockIndex ∧ lower.children = cache.children ++ [upper] ∧
      lower.unitsCache = cutTail cache.unitsCache (cache.getTopBlockIndex + 1 - splitBlockIndex) ∧
      lower.blockIndexBySpentKeyImage = (fun keyImage =>
        if keyImage ∈ (cache.blocks.drop splitBlockIndex).flatMap DatabaseBlock.spentKeyImages
        then none else cache.blockIndexBySpentKeyImage keyImage) := by
  obtain ⟨transactions, -, rest⟩ := bind_eq_some_iff.mp ran
  cases rest
  exact ⟨rfl, rfl, rfl, rfl⟩

theorem entries_of_take {lower : DatabaseBlockchainCache}
    (blocks : lower.blocks = cache.blocks.take splitBlockIndex) :
    lower.entries = cache.entries.take splitBlockIndex := by
  simp [entries, blocks, map_take]

end DatabaseBlockchainCache
end Mevacoin
