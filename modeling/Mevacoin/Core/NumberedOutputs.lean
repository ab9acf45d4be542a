/-
Exact output numbers on every path of the segment tree. Splits of memory segments
keep them, and pushes and splits of the root keep them on chains whose transactions
can be told apart.
-/

import Mevacoin.Cache.OutputTables
import Mevacoin.Core.Merge

namespace Mevacoin
open List Nat DatabaseBlockchainCache Lineage CachedTransaction

variable {amount : UInt64} {blockIndex : Nat}

/-! ### The specification -/

variable {primitives : Primitives}

theorem placeTransactions_hashes (blockIndex : Nat) (transactions : List Transaction) :
    (placeTransactions blockIndex transactions).map (PlacedTransaction.hash primitives)
      = transactions.map fun transaction =>
        (ofTransaction primitives transaction).getTransactionHash primitives := by
  unfold placeTransactions
  rw [map_map]
  change transactions.zipIdx.map
    ((fun transaction => (ofTransaction primitives
      transaction).getTransactionHash primitives) ∘ Prod.fst (α := Transaction) (β := Nat)) = _
  rw [← map_map, zipIdx_map_fst]

def BlockEntry.hashes (primitives : Primitives) (entry : BlockEntry) : List Hash :=
  (entry.transactions primitives).map fun transaction =>
    (ofTransaction primitives transaction).getTransactionHash primitives

/-- Exact tables, and with every block the hashes of its transactions. -/
structure DatabaseBlockchainCache.OutputsNumbered (primitives : Primitives)
    (cache : DatabaseBlockchainCache) : Prop
    extends cache.Numbers primitives (placedFrom primitives 0 cache.entries) where
  hashes : ∀ block ∈ cache.blocks, block.transactionHashes = block.entry.hashes primitives

def numberedTables (primitives : Primitives) : TableSpec
  | below, .memory cache => cache.Numbers primitives (placedFrom primitives 0 below)
      (placedFrom primitives below.length cache.blocks)
  | _, .database cache => cache.OutputsNumbered primitives

theorem placedFrom_hashes (blockIndex : Nat) (entries : List BlockEntry) :
    (placedFrom primitives blockIndex entries).map (PlacedTransaction.hash primitives)
      = entries.flatMap (BlockEntry.hashes primitives) := by
  induction entries generalizing blockIndex with
  | nil => rfl
  | cons entry entries ih =>
    rw [placedFrom, map_append, placeTransactions_hashes, ih]
    rfl

theorem placedFrom_take_drop (start count : Nat) (entries : List BlockEntry) :
    placedFrom primitives start entries
      = placedFrom primitives start (entries.take count)
        ++ placedFrom primitives (start + (entries.take count).length) (entries.drop count) := by
  rw [← placedFrom_append, take_append_drop]

theorem placedFrom_divided (primitives : Primitives) (start splitBlockIndex : Nat)
    (entries : List BlockEntry) :
    DividedAt splitBlockIndex
      (placedFrom primitives start (entries.take (splitBlockIndex - start)))
      (placedFrom primitives (start + (entries.take (splitBlockIndex - start)).length)
        (entries.drop (splitBlockIndex - start))) := by
  constructor
  · intro placed member
    have bounds := placedFrom_bounds member
    rw [length_take] at bounds
    omega
  · intro placed member
    have bounds := placedFrom_bounds member
    rw [length_take, length_drop] at bounds
    omega

theorem numberedTables_closed (primitives : Primitives) :
    (numberedTables primitives).Closed where
  addChild := by
    intro below segment child holds
    cases segment with
    | database cache => exact ⟨⟨holds.transactions, holds.outputs⟩, holds.hashes⟩
    | memory cache => exact ⟨holds.transactions, holds.outputs⟩
  setParent := by
    intro below segment parent holds
    cases segment with
    | database cache => exact holds
    | memory cache => exact ⟨holds.transactions, holds.outputs⟩
  create := fun below parent => ⟨rfl, rfl⟩
  lower := by
    intro below cache splitBlockIndex upper start above holds
    change cache.Numbers primitives _ _ at holds
    rw [placedFrom_take_drop below.length (splitBlockIndex - below.length)] at holds
    have lower := holds.splitLower (placedFrom_divided _ _ _ _) upper
    change BlockchainCache.Numbers primitives _
      (placedFrom primitives _ (cache.blocks.take (splitBlockIndex - cache.startIndex))) _
    rw [start]
    exact lower
  upper := by
    intro below cache splitBlockIndex self start above inside holds
    change cache.Numbers primitives _ _ at holds
    rw [placedFrom_take_drop below.length (splitBlockIndex - below.length)] at holds
    have upper := holds.splitUpper (placedFrom_divided _ _ _ _) self
    have under : placedFrom primitives 0 ((below ++ cache.blocks).take splitBlockIndex)
        = placedFrom primitives 0 below ++ placedFrom primitives below.length
          (cache.blocks.take (splitBlockIndex - below.length)) := by
      rw [take_append, take_of_length_le above, placedFrom_append, zero_add]
    have length : ((below ++ cache.blocks).take splitBlockIndex).length
        = below.length + (cache.blocks.take (splitBlockIndex - below.length)).length := by
      rw [length_take, length_take, length_append]
      omega
    change BlockchainCache.Numbers primitives _
      (placedFrom primitives _ (cache.blocks.drop (splitBlockIndex - cache.startIndex))) _
    rw [under, length, start]
    exact upper

/-! ### Counting outputs -/

/-- The start of the first segment on the way to the root that has outputs of the amount; the
database counts as starting at zero. -/
def Lineage.holderStart (amount : UInt64) : List Segment → Nat
  | [] => 0
  | .database _ :: _ => 0
  | .memory cache :: parents =>
    match cache.keyOutputsGlobalIndexes amount with
    | none => holderStart amount parents
    | some _ => cache.startIndex

def outputCount (primitives : Primitives) (amount : UInt64) (chain : List BlockEntry) : Nat :=
  (outputsOf primitives amount (placedFrom primitives 0 chain)).length

theorem outputCount_append (lower upper : List BlockEntry) :
    outputCount primitives amount (lower ++ upper)
      = outputCount primitives amount lower
        + (outputsOf primitives amount (placedFrom primitives lower.length upper)).length := by
  unfold outputCount
  rw [placedFrom_append, outputsOf_append, length_append, zero_add]

variable {chain : List BlockEntry}

/-- A query answers for the blocks below the index asked for, but never for less than all
blocks below the segment that has the entry of the amount. -/
theorem TabledStack.keyOutputsCount {segments : List Segment}
    (stack : TabledStack (numberedTables primitives) segments chain)
    (fits : outputCount primitives amount chain < 2 ^ 32) (blockIndex : Nat) :
    holderStart amount segments ≤ chain.length ∧
      getKeyOutputsCountForAmount amount blockIndex segments
        = outputCount primitives amount
          (chain.take (max blockIndex (holderStart amount segments))) := by
  induction stack with
  | @database cache holds =>
    have divided := placedFrom_divided primitives 0 blockIndex cache.entries
    refine ⟨zero_le _, ?_⟩
    change (List.takeWhile _ (cache.keyOutputs amount)).length = _
    rw [holds.outputs, placedFrom_take_drop 0 (blockIndex - 0), divided.outputs,
      holderStart, max_zero]
    rfl
  | @memory parents below cache stack start holds ih =>
    have entry := congrFun holds.outputs amount
    rw [outputCount_append] at fits
    by_cases empty : outputsOf primitives amount
        (placedFrom primitives below.length cache.blocks) = []
    · -- the segment has no output of the amount, and the parent is asked
      rw [empty] at entry
      obtain ⟨inside, count⟩ := ih (by omega)
      have parentStart : holderStart amount (.memory cache :: parents)
          = holderStart amount parents := by
        simp only [holderStart, entry, ownOutputs, map_nil, if_true]
      have parentCount : getKeyOutputsCountForAmount amount blockIndex
          (.memory cache :: parents)
          = getKeyOutputsCountForAmount amount blockIndex parents := by
        simp only [getKeyOutputsCountForAmount, entry, ownOutputs, map_nil, if_true]
      rw [parentStart, parentCount, count]
      refine ⟨by rw [length_append]; omega, ?_⟩
      generalize max blockIndex (holderStart amount parents) = bound
      rw [take_append, outputCount_append]
      suffices noneAbove : outputsOf primitives amount (placedFrom primitives
          (below.take bound).length (cache.blocks.take (bound - below.length))) = [] by
        rw [noneAbove]
        rfl
      by_cases within : bound ≤ below.length
      · rw [Nat.sub_eq_zero_of_le within]
        rfl
      · rw [placedFrom_take_drop below.length (bound - below.length), outputsOf_append,
          append_eq_nil_iff] at empty
        rw [take_of_length_le (Nat.le_of_not_le within)]
        exact empty.1
    · -- the entry starts at the number of outputs below the segment
      have present : (outputsOf primitives amount
          (placedFrom primitives below.length cache.blocks)).map StoredKeyOutput.packed ≠ [] := by
        simpa using empty
      rw [ownOutputs, if_neg present] at entry
      have holder : holderStart amount (.memory cache :: parents) = below.length := by
        simp only [holderStart, entry, start]
      have divided := placedFrom_divided primitives below.length blockIndex cache.blocks
      have first : (UInt32.ofNat (outputsOf primitives amount
          (placedFrom primitives 0 below)).length).toNat
          = outputCount primitives amount below := by
        exact mod_eq_of_lt (by unfold outputCount at fits; omega)
      have answer : getKeyOutputsCountForAmount amount blockIndex
          (.memory cache :: parents)
          = outputCount primitives amount below + (outputsOf primitives amount
            (placedFrom primitives below.length
              (cache.blocks.take (blockIndex - below.length)))).length := by
        simp only [getKeyOutputsCountForAmount, entry]
        rw [first, placedFrom_take_drop below.length (blockIndex - below.length),
          divided.packed, length_map]
      rw [holder, answer]
      refine ⟨by rw [length_append]; omega, ?_⟩
      have offset : max blockIndex below.length - below.length = blockIndex - below.length := by
        omega
      rw [take_append, take_of_length_le (le_max_right _ _), outputCount_append, offset]

/-! ### Chains whose outputs can be numbered -/

/-- The header names the transactions of the block, these are written the way they were
read, and their positions are 16-bit numbers. -/
structure BlockEntry.Faithful (primitives : Primitives) (entry : BlockEntry) : Prop where
  header : ∀ block, primitives.blockFromBinaryArray entry.rawBlock.block = some block →
    block.transactionHashes = (entry.hashes primitives).tail
  canonical : ∀ binary ∈ entry.rawBlock.transactions, ∀ transaction,
    primitives.transactionFromBinaryArray binary = some transaction →
    primitives.transactionToBinaryArray transaction = binary
  positions : (entry.transactions primitives).length ≤ 2 ^ 16

/-- The transactions of the chain have different hashes, and the outputs of an amount are
not more than a 32-bit number counts. -/
structure Numberable (primitives : Primitives) (chain : List BlockEntry) : Prop where
  blocks : ∀ entry ∈ chain, entry.Faithful primitives
  distinct : (chain.flatMap (BlockEntry.hashes primitives)).Nodup
  fits : ∀ amount, outputCount primitives amount chain < 2 ^ 32

section Numberable
variable {primitives : Primitives} {chain : List BlockEntry}

theorem Numberable.of_shorter {shorter : List BlockEntry} (numberable : Numberable primitives chain)
    (isPrefix : shorter <+: chain) : Numberable primitives shorter := by
  obtain ⟨rest, rfl⟩ := isPrefix
  constructor
  · intro entry member
    exact numberable.blocks entry (mem_append_left _ member)
  · have distinct := numberable.distinct
    rw [flatMap_append] at distinct
    exact distinct.of_append_left
  · intro amount
    have fits := numberable.fits amount
    rw [outputCount_append] at fits
    omega

private theorem placeTransactions_places {transactions : List Transaction}
    (few : transactions.length ≤ 2 ^ 16) :
    (placeTransactions blockIndex transactions).Pairwise fun first second =>
      ¬(first.blockIndex = second.blockIndex ∧
        first.transactionIndex = second.transactionIndex) := by
  apply pairwise_iff_getElem.mpr
  intro left right leftBound rightBound before same
  unfold placeTransactions at leftBound rightBound same
  simp only [length_map, length_zipIdx] at leftBound rightBound
  simp only [getElem_map, getElem_zipIdx, zero_add, true_and] at same
  omega

private theorem placedFrom_places
    (few : ∀ entry ∈ chain, (entry.transactions primitives).length ≤ 2 ^ 16) :
    (placedFrom primitives blockIndex chain).Pairwise fun first second =>
      ¬(first.blockIndex = second.blockIndex ∧
        first.transactionIndex = second.transactionIndex) := by
  induction chain generalizing blockIndex with
  | nil => exact List.Pairwise.nil
  | cons entry entries ih =>
    apply pairwise_append.mpr
    refine ⟨placeTransactions_places (few entry mem_cons_self),
      ih (fun other member => few other (mem_cons_of_mem _ member)), ?_⟩
    intro first isFirst second isSecond same
    have here := placeTransactions_blockIndex isFirst
    have later := placedFrom_bounds isSecond
    omega

theorem placedFrom_apart (distinct : (chain.flatMap (BlockEntry.hashes primitives)).Nodup)
    (few : ∀ entry ∈ chain, (entry.transactions primitives).length ≤ 2 ^ 16) :
    (placedFrom primitives 0 chain).Pairwise (BlockchainCache.Apart primitives) := by
  rw [← placedFrom_hashes 0] at distinct
  exact List.Pairwise.and (pairwise_map.mp distinct) (placedFrom_places few)

theorem Numberable.apart (numberable : Numberable primitives chain) :
    (placedFrom primitives 0 chain).Pairwise (BlockchainCache.Apart primitives) :=
  placedFrom_apart numberable.distinct fun entry member =>
    (numberable.blocks entry member).positions

end Numberable

/-! ### A push -/

structure ReadBack (primitives : Primitives) (pushed : PushedBlock)
    (transactions : List Transaction) : Prop where
  written : pushed.transactions = transactions.map (ofTransaction primitives)
  entry : ∀ totals, (pushed.entry primitives totals).transactions primitives
    = pushed.block.baseTransaction :: transactions

section Push
variable {primitives : Primitives} {pushed : PushedBlock} {transactions : List Transaction}

theorem ReadBack.placed (readBack : ReadBack primitives pushed transactions)
    (blockIndex : Nat) (totals : BlockchainCache.Totals) :
    placedFrom primitives blockIndex [pushed.entry primitives totals]
      = placeTransactions blockIndex (pushed.block.baseTransaction :: transactions) := by
  rw [placedFrom_singleton, readBack.entry]

theorem DatabaseBlockchainCache.OutputsNumbered.push {cache grown : DatabaseBlockchainCache}
    (numbers : cache.OutputsNumbered primitives)
    (readBack : ReadBack primitives pushed transactions)
    (numberable : ∀ totals,
      Numberable primitives (cache.entries ++ [pushed.entry primitives totals]))
    (parsed : primitives.blockFromBinaryArray pushed.rawBlock.block = some pushed.block)
    (ran : cache.pushBlock primitives pushed = some grown) :
    grown.OutputsNumbered primitives := by
  obtain ⟨last, -, entries, -, -, -, block, blocks, isEntry, -⟩ :=
    pushBlock_eq_some ran
  obtain ⟨block', blocks', hashes⟩ := pushBlock_hashes ran
  have sameBlock : block = block' := by
    rw [blocks] at blocks'
    exact singleton_inj.mp (append_cancel_left blocks')
  subst sameBlock
  have chain := numberable (BlockchainCache.Totals.ofInfo last.info)
  rw [← entries] at chain
  have placed : placedFrom primitives 0 grown.entries
      = placedFrom primitives 0 cache.entries ++ placeTransactions cache.blocks.length
        (pushed.block.baseTransaction :: transactions) := by
    rw [entries, placedFrom_append, readBack.placed, zero_add, entries_length]
  have distinct := chain.distinct
  rw [← placedFrom_hashes 0, placed] at distinct
  constructor
  · rw [placed]
    exact numbers.toNumbers.pushBlock readBack.written distinct ran
  · intro other member
    rw [blocks] at member
    rcases mem_append.mp member with old | isNew
    · exact numbers.hashes other old
    · rw [mem_singleton.mp isNew, hashes, isEntry]
      have faithful := chain.blocks _ (by
        rw [entries]
        exact mem_append_right _ (mem_singleton_self _))
      have header := faithful.header pushed.block parsed
      rw [header]
      unfold BlockEntry.hashes
      rw [readBack.entry]
      rfl

theorem TabledStack.countBelow {segments : List Segment}
    (stack : TabledStack (numberedTables primitives) segments chain)
    (fits : outputCount primitives amount chain < 2 ^ 32) (above : chain.length ≤ blockIndex) :
    getKeyOutputsCountForAmount amount blockIndex segments
      = (outputsOf primitives amount (placedFrom primitives 0 chain)).length := by
  rw [(stack.keyOutputsCount fits blockIndex).2, take_of_length_le (by omega)]
  rfl

theorem numberedTables_push (index : pushed.block.getBlockIndex = chain.length)
    (readBack : ReadBack primitives pushed transactions)
    (numberable : ∀ totals, Numberable primitives (chain ++ [pushed.entry primitives totals]))
    (parsed : primitives.blockFromBinaryArray pushed.rawBlock.block = some pushed.block) :
    Core.PushKeeps (numberedTables primitives) primitives chain pushed := by
  intro segment parents grown stack ran
  cases stack with
  | database holds =>
    obtain ⟨result, pushRan, rfl⟩ := Option.map_eq_some_iff.mp ran
    exact DatabaseBlockchainCache.OutputsNumbered.push holds readBack numberable parsed pushRan
  | @memory parents below cache stack start holds =>
    obtain ⟨result, pushRan, rfl⟩ := Option.map_eq_some_iff.mp ran
    obtain ⟨totals, -, blocks, -⟩ := BlockchainCache.pushBlock_eq_some pushRan
    change numberedTables primitives (List.take cache.startIndex _) _
    rw [start, take_left]
    change BlockchainCache.Numbers primitives _ (placedFrom primitives _ result.blocks) _
    have length : below.length + cache.blocks.length = pushed.block.getBlockIndex := by
      rw [index, length_append]
    rw [blocks, placedFrom_append, readBack.placed, length]
    have chain := numberable totals
    apply BlockchainCache.Numbers.pushBlock holds readBack.written _ _ pushRan
    · have apart := chain.apart
      rw [append_assoc, placedFrom_append, zero_add, placedFrom_append,
        readBack.placed, length] at apart
      exact (pairwise_append.mp apart).2.1
    · intro amount _
      have fits := (chain.of_shorter
        ((prefix_append below _).trans (prefix_append _ _))).fits amount
      exact stack.countBelow fits (by omega)

end Push

/-! ### A split of the root -/

namespace DatabaseBlockchainCache.OutputsNumbered
variable {primitives : Primitives} {cache : DatabaseBlockchainCache} {splitBlockIndex : Nat}

section
variable (numbers : cache.OutputsNumbered primitives)
include numbers

theorem deletedHashes :
    (cache.blocks.drop splitBlockIndex).flatMap DatabaseBlock.transactionHashes
      = (cache.entries.drop splitBlockIndex).flatMap (BlockEntry.hashes primitives) := by
  rw [entries_eq, ← map_drop, flatMap_map]
  apply flatMap_congr
  intro block member
  exact numbers.hashes block (mem_of_mem_drop member)

theorem lower {lower : DatabaseBlockchainCache} {upper : SegmentPtr}
    (distinct : (cache.entries.flatMap (BlockEntry.hashes primitives)).Nodup)
    (ran : cache.deleteUpper splitBlockIndex upper = some lower) :
    lower.OutputsNumbered primitives := by
  obtain ⟨blocks, -⟩ := deleteUpper_eq_some ran
  have exact := numbers.toNumbers
  rw [← placedFrom_hashes 0] at distinct
  rw [placedFrom_take_drop 0 splitBlockIndex] at exact distinct
  constructor
  · rw [entries_of_take blocks]
    apply exact.deleteUpper distinct _ ran
    rw [numbers.deletedHashes, placedFrom_hashes]
  · intro block member
    rw [blocks] at member
    exact numbers.hashes block (mem_of_mem_take member)

/-- Replaying a stored block onto the new segment keeps its tables exact, since the database
counts the outputs below the replayed block. -/
theorem replayStep {self : SegmentPtr} {pushed : PushedBlock}
    {entry : BlockEntry} {built grown : BlockchainCache} (numberable : Numberable primitives cache.entries)
    (positive : 0 < splitBlockIndex) (above : splitBlockIndex ≤ blockIndex)
    (replayed : Replayed cache splitBlockIndex self blockIndex built)
    (step : ReplayStep primitives cache blockIndex pushed entry built grown)
    (holds : built.Numbers primitives (placedFrom primitives 0 (cache.entries.take splitBlockIndex))
      (placedFrom primitives splitBlockIndex built.blocks)) :
    grown.Numbers primitives (placedFrom primitives 0 (cache.entries.take splitBlockIndex))
      (placedFrom primitives splitBlockIndex grown.blocks) := by
  obtain ⟨stored, below, transactions, isStored, -, isBlock, areTransactions, written, -⟩ :=
    getExtendedPushedBlockInfo_eq_some (by omega) step.stored
  have inside := index_lt step.found
  have isEntry : entry = stored.entry := by
    have found := step.found
    rw [entries_eq, getElem?_map, isStored] at found
    exact (Option.some.inj found).symm
  have readTransactions : entry.transactions primitives
      = pushed.block.baseTransaction :: transactions := by
    rw [isEntry]
    exact BlockEntry.transactions_eq isBlock areTransactions
  have under := replayed.under above
  have start : (cache.entries.take splitBlockIndex).length = splitBlockIndex := by
    rw [length_take]
    omega
  have length : splitBlockIndex + built.blocks.length = pushed.block.getBlockIndex := by
    rw [step.index, replayed.blocks, length_drop, length_take]
    omega
  rw [step.blocks, placedFrom_append, placedFrom_singleton, readTransactions, length]
  apply holds.pushBlock written _ _ step.ran
  · have apart := (numberable.of_shorter (List.take_prefix (blockIndex + 1) _)).apart
    rw [take_add_one, step.found, under, append_assoc, placedFrom_append,
      placedFrom_append, zero_add, start, length] at apart
    change (_ ++ (_ ++ placedFrom primitives _ [entry])).Pairwise _ at apart
    rw [placedFrom_singleton, readTransactions] at apart
    exact (pairwise_append.mp apart).2.1
  · intro amount empty
    have stack : TabledStack (numberedTables primitives) [.database cache] cache.entries :=
      .database numbers
    have count := (stack.keyOutputsCount (numberable.fits amount) blockIndex).2
    rw [holderStart, max_zero, under, outputCount_append, start, empty] at count
    rw [step.index]
    exact count

end
end DatabaseBlockchainCache.OutputsNumbered

theorem numberedTables_rootSplit {cache : DatabaseBlockchainCache} {splitBlockIndex : Nat}
    (numbers : cache.OutputsNumbered primitives) (numberable : Numberable primitives cache.entries)
    (chain : cache.entries.IsChain (Recorded primitives))
    (genesis : ∀ first ∈ cache.entries.head?, first.blockIndex primitives = 0)
    (positive : 0 < splitBlockIndex) :
    Core.RootSplitKeeps (numberedTables primitives) primitives (.database cache)
      splitBlockIndex := by
  intro root lower upper self fresh isRoot inside replayed deleted
  cases isRoot
  have start : (cache.entries.take splitBlockIndex).length = splitBlockIndex := by
    rw [length_take, entries_length]
    omega
  refine ⟨numbers.lower numberable.distinct deleted, ?_⟩
  change upper.Numbers primitives _ (placedFrom primitives _ _)
  rw [start]
  exact (replayUpper_replayed chain genesis
    (fun built => built.Numbers primitives
      (placedFrom primitives 0 (cache.entries.take splitBlockIndex))
      (placedFrom primitives splitBlockIndex built.blocks)) positive inside replayed ⟨rfl, rfl⟩
    fun _ _ _ _ _ above replayed step holds =>
      numbers.replayStep numberable positive above replayed step holds).2

end Mevacoin
