/-
Merging the segments of the main chain into the database segment. The blocks above
the root are pushed onto it one by one, each restored from the segment that holds
it, and every other segment is dropped.

A result of `none` is an exception.
-/

import Mevacoin.Core.Tables
import Mevacoin.Cache.Windows

namespace Mevacoin
open List Nat Option DatabaseBlockchainCache Lineage BlockchainCache

/-! ### The merge -/

namespace BlockchainCache

def fillOutputsSpentByBlock (cache : BlockchainCache) (blockIndex : Nat) :
    TransactionValidatorState :=
  { spentKeyImages := (cache.spentKeyImages.filter fun spent => spent.blockIndex = blockIndex).map
      SpentKeyImage.keyImage }

/-- Cumulative difficulty and generated coins of the block below, which for the first block
of the segment are asked of the parent. -/
def totalsBelow (parents : List Segment) (cache : BlockchainCache) (blockIndex : Nat) :
    Option (UInt64 × UInt64) :=
  if blockIndex > cache.startIndex then
    (cache.blocks[blockIndex - cache.startIndex - 1]?).map fun entry =>
      (entry.info.cumulativeDifficulty, entry.info.alreadyGeneratedCoins)
  else
    match parents with
    | [] => some (0, 0)
    | parent :: rest => do
        let cumulativeDifficulty ← (Lineage.getLastCumulativeDifficulties (parent :: rest) 1
          (cache.startIndex - 1) true)[0]?
        let coins ← Lineage.getAlreadyGeneratedCoins (parent :: rest) (cache.startIndex - 1)
        some (cumulativeDifficulty, coins)

def getPushedBlockInfo (primitives : Primitives) (parents : List Segment)
    (cache : BlockchainCache) (blockIndex : Nat) : Option PushedBlock := do
  let entry ← cache.blocks[blockIndex - cache.startIndex]?
  let (cumulativeDifficulty, coins) ← cache.totalsBelow parents blockIndex
  let block ← primitives.blockFromBinaryArray entry.rawBlock.block
  let transactions ← entry.rawBlock.transactions.mapM primitives.transactionFromBinaryArray
  some {
    block := block
    transactions := transactions.map (CachedTransaction.ofTransaction primitives)
    validatorState := cache.fillOutputsSpentByBlock blockIndex
    blockSize := entry.info.blockSize.toNat
    generatedCoins := entry.info.alreadyGeneratedCoins - coins
    blockDifficulty := entry.info.cumulativeDifficulty - cumulativeDifficulty
    rawBlock := entry.rawBlock }

end BlockchainCache

def Segment.getPushedBlockInfo (primitives : Primitives) (parents : List Segment)
    (segment : Segment) (blockIndex : Nat) : Option PushedBlock :=
  match segment with
  | database cache => cache.getExtendedPushedBlockInfo primitives blockIndex
  | memory cache => cache.getPushedBlockInfo primitives parents blockIndex

/-- The parents are the segments between the merged segment and the accepting one. -/
def mergeSegments (primitives : Primitives) (parents : List Segment)
    (acceptingSegment : DatabaseBlockchainCache) (segment : Segment) :
    Option DatabaseBlockchainCache :=
  (List.range' segment.getStartBlockIndex segment.getBlockCount).foldlM
    (fun accepting blockIndex => do
      let pushed ← segment.getPushedBlockInfo primitives (parents ++ [.database accepting])
        blockIndex
      accepting.pushBlock primitives pushed)
    acceptingSegment

/-- The loop over the segments above the root, from the lowest one upwards. -/
def mergeAll (primitives : Primitives) (parents : List Segment)
    (rootSegment : DatabaseBlockchainCache) : List Segment → Option DatabaseBlockchainCache
  | [] => some rootSegment
  | segment :: rest => do
      let rootSegment ← mergeSegments primitives parents rootSegment segment
      mergeAll primitives (segment :: parents) rootSegment rest

/-- Neither the children of the root nor the set of main chain segments are brought up to
date. -/
def Core.mergeMainChainSegments (primitives : Primitives) (core : Core) : Option Core := do
  let main ← core.chainsLeaves.head?
  match (core.lineage main).reverse with
  | .database rootSegment :: segments =>
    let rootSegment ← mergeAll primitives [] rootSegment segments
    some { core with
      chainsStorage := [.database rootSegment]
      chainsLeaves := [0] }
  | _ => none

/-! ### The totals below a block -/

namespace BlockchainCache
variable {primitives : Primitives} {parents : List Segment} {cache : BlockchainCache}

theorem getPushedBlockInfo_eq_some {blockIndex : Nat} {pushed : PushedBlock}
    (ran : cache.getPushedBlockInfo primitives parents blockIndex = some pushed) :
    ∃ entry cumulativeDifficulty coins, cache.blocks[blockIndex - cache.startIndex]? = some entry ∧
      cache.totalsBelow parents blockIndex = some (cumulativeDifficulty, coins) ∧
      primitives.blockFromBinaryArray entry.rawBlock.block = some pushed.block ∧
      (∃ transactions,
        entry.rawBlock.transactions.mapM primitives.transactionFromBinaryArray = some transactions ∧
        pushed.transactions = transactions.map (CachedTransaction.ofTransaction primitives)) ∧
      pushed.validatorState = cache.fillOutputsSpentByBlock blockIndex ∧
      pushed.blockSize = entry.info.blockSize.toNat ∧
      pushed.generatedCoins = entry.info.alreadyGeneratedCoins - coins ∧
      pushed.blockDifficulty = entry.info.cumulativeDifficulty - cumulativeDifficulty ∧
      pushed.rawBlock = entry.rawBlock := by
  obtain ⟨entry, isEntry, ran⟩ := bind_eq_some_iff.mp ran
  obtain ⟨⟨cumulativeDifficulty, coins⟩, totals, ran⟩ := bind_eq_some_iff.mp ran
  obtain ⟨block, isBlock, ran⟩ := bind_eq_some_iff.mp ran
  obtain ⟨transactions, areTransactions, ran⟩ := bind_eq_some_iff.mp ran
  cases ran
  exact ⟨entry, cumulativeDifficulty, coins, isEntry, totals, isBlock,
    ⟨transactions, areTransactions, rfl⟩, rfl, rfl, rfl, rfl, rfl⟩

theorem totalsBelow_of_own {blockIndex : Nat} {below : BlockEntry}
    (above : cache.startIndex < blockIndex)
    (isBelow : cache.blocks[blockIndex - cache.startIndex - 1]? = some below) :
    cache.totalsBelow parents blockIndex
      = some (below.info.cumulativeDifficulty, below.info.alreadyGeneratedCoins) := by
  simp [totalsBelow, above, isBelow]

/-- The first block of the segment takes the totals of the newest block of the parent. -/
theorem totalsBelow_of_parent {parent : Segment} {rest : List Segment} {below : BlockEntry}
    (isBelow : parent.entries.getLast? = some below)
    (start : cache.startIndex = parent.getStartBlockIndex + parent.entries.length)
    (units : ∀ root, parent = .database root → root.unitsCache <:+ root.infos) :
    cache.totalsBelow (parent :: rest) cache.startIndex
      = some (below.info.cumulativeDifficulty, below.info.alreadyGeneratedCoins) := by
  have positive : 0 < parent.entries.length := by
    cases entries : parent.entries with
    | nil => simp [entries] at isBelow
    | cons first others => exact succ_pos _
  rw [getLast?_eq_getElem?] at isBelow
  unfold totalsBelow
  cases parent with
  | database root =>
    have infos := root.infos_eq
    simp only [Segment.getStartBlockIndex, Segment.entries, Nat.zero_add] at start isBelow positive
    have window : root.getLastUnits 1 (cache.startIndex - 1) true = [below.info] := by
      rw [getLastUnits_eq (by decide) (units root rfl) (by rw [infos, length_map]; omega)]
      have first : cache.startIndex - 1 + 1 - 1 = cache.startIndex - 1 := by omega
      unfold lastInfos slice
      rw [if_pos rfl, zero_max, first, infos, ← map_drop, ← map_take,
        Nat.add_sub_cancel_left, take_one, head?_drop, start, isBelow]
      rfl
    have coins : getAlreadyGeneratedCoins (.database root :: rest) (cache.startIndex - 1)
        = some below.info.alreadyGeneratedCoins := by
      unfold getAlreadyGeneratedCoins getCachedBlockInfo
      rw [infos, getElem?_map, start, isBelow]
      rfl
    simp [Lineage.getLastCumulativeDifficulties, Lineage.getLastUnits, window, coins]
  | memory parent =>
    simp only [Segment.getStartBlockIndex, Segment.entries] at start isBelow positive
    have position : cache.startIndex - 1 - parent.startIndex = parent.blocks.length - 1 := by
      omega
    have notBelow : ¬cache.startIndex - 1 < parent.startIndex := by omega
    have window : getLastUnits 1 (cache.startIndex - 1) true (.memory parent :: rest)
        = [below.info] := by
      have stop : parent.blocks.length - 1 + 1 = parent.blocks.length := by omega
      have one : min 1 parent.blocks.length = 1 := by omega
      have newest : ((parent.blocks.map BlockEntry.info).take parent.blocks.length).drop
          (parent.blocks.length - 1) = [below.info] := by
        have last : parent.blocks.drop (parent.blocks.length - 1) = [below] := by
          rw [drop_eq_getElem?_toList_append, isBelow, stop, drop_length]
          rfl
        rw [take_of_length_le (by simp), ← map_drop, last]
        rfl
      unfold Lineage.getLastUnits
      simp only [if_neg notBelow, position, stop, one, Bool.not_true, Bool.false_eq_true,
        false_and, if_false, add_zero, lt_irrefl]
      cases rest <;> exact newest
    have coins : getAlreadyGeneratedCoins (.memory parent :: rest) (cache.startIndex - 1)
        = some below.info.alreadyGeneratedCoins := by
      simp [getAlreadyGeneratedCoins, getCachedBlockInfo, notBelow, position, isBelow]
    simp [getLastCumulativeDifficulties, window, coins]

end BlockchainCache

/-! ### One segment -/

/-- One round of a merge: a block of the segment is restored and pushed onto the root, which
then holds one more block of the chain. -/
structure MergeStep (primitives : Primitives) (chain : List BlockEntry) (cache : BlockchainCache)
    (accepting grown : DatabaseBlockchainCache) (pushed : PushedBlock) (entry : BlockEntry)
    (blockIndex : Nat) : Prop where
  above : cache.startIndex ≤ blockIndex
  found : chain[blockIndex]? = some entry
  index : pushed.block.getBlockIndex = blockIndex
  block : primitives.blockFromBinaryArray entry.rawBlock.block = some pushed.block
  transactions : ∃ transactions,
    entry.rawBlock.transactions.mapM primitives.transactionFromBinaryArray = some transactions ∧
    pushed.transactions = transactions.map (CachedTransaction.ofTransaction primitives)
  images : pushed.validatorState = cache.fillOutputsSpentByBlock blockIndex
  ran : accepting.pushBlock primitives pushed = some grown
  before : accepting.entries = chain.take blockIndex
  after : grown.entries = accepting.entries ++ [entry]

section Merge
variable {primitives : Primitives} {parents : List Segment} {below : List BlockEntry}
  {cache : BlockchainCache}

/-- The totals that the first block of a merged segment continues. -/
def ContinuesBelow (primitives : Primitives) (parents : List Segment) (below : List BlockEntry)
    (cache : BlockchainCache) : Prop :=
  ∀ accepting last, accepting.entries = below → accepting.Rooted primitives →
    below.getLast? = some last →
    cache.totalsBelow (parents ++ [.database accepting]) cache.startIndex
      = some (last.info.cumulativeDifficulty, last.info.alreadyGeneratedCoins)

section
variable (start : cache.startIndex = below.length) (positive : below ≠ [])
  (recorded : (below ++ cache.blocks).IsChain (Recorded primitives))
  (continues : ContinuesBelow primitives parents below cache)
include start positive recorded continues

theorem mergeStep {accepting grown : DatabaseBlockchainCache} {pushed : PushedBlock}
    {position : Nat} (entries : accepting.entries = below ++ cache.blocks.take position)
    (rooted : accepting.Rooted primitives)
    (isPushed : cache.getPushedBlockInfo primitives (parents ++ [.database accepting])
      (cache.startIndex + position) = some pushed)
    (ran : accepting.pushBlock primitives pushed = some grown) :
    ∃ entry, cache.blocks[position]? = some entry ∧
      MergeStep primitives (below ++ cache.blocks) cache accepting grown pushed entry
        (cache.startIndex + position) := by
  obtain ⟨entry, cumulativeDifficulty, coins, isEntry, totals, isBlock, transactions, images,
    size, generated, difficulty, raw⟩ := getPushedBlockInfo_eq_some isPushed
  rw [Nat.add_sub_cancel_left] at isEntry
  have inside := index_lt isEntry
  have found : (below ++ cache.blocks)[cache.startIndex + position]? = some entry := by
    rw [start, getElem?_append_right (Nat.le_add_right _ _), Nat.add_sub_cancel_left, isEntry]
  have whole : accepting.entries = (below ++ cache.blocks).take (cache.startIndex + position) := by
    rw [entries, start, take_length_add_append]
  have length : accepting.entries.length = cache.startIndex + position := by
    rw [entries, length_append, length_take, start]
    omega
  obtain ⟨last, isLast, grownEntries, -⟩ := pushBlock_eq_some ran
  have startPositive : 0 < cache.startIndex := by
    rw [start]
    exact length_pos_iff.mpr positive
  have isBelow : (below ++ cache.blocks)[cache.startIndex + position - 1]? = some last := by
    rw [getLast?_eq_getElem?, length, whole, getElem?_take_of_lt (by omega)] at isLast
    exact isLast
  -- the totals handed over are those of the newest block of the root
  have sameTotals : cumulativeDifficulty = last.info.cumulativeDifficulty ∧
      coins = last.info.alreadyGeneratedCoins := by
    cases position with
    | zero =>
      rw [take_zero, append_nil] at entries
      rw [add_zero, continues accepting last entries rooted (entries ▸ isLast)] at totals
      cases totals
      exact ⟨rfl, rfl⟩
    | succ position =>
      have own : cache.blocks[cache.startIndex + (position + 1) - cache.startIndex - 1]?
          = some last := by
        rw [start, getElem?_append_right (by omega)] at isBelow
        rw [← isBelow]
        congr 1
        omega
      rw [totalsBelow_of_own (by omega) own] at totals
      cases totals
      exact ⟨rfl, rfl⟩
  rw [sameTotals.1] at difficulty
  rw [sameTotals.2] at generated
  have restored : Restored primitives pushed last entry :=
    ⟨isBlock, transactions, size, generated, difficulty, raw⟩
  have link : Recorded primitives last entry := by
    refine isChain_neighbours recorded isBelow ?_
    rw [Nat.sub_add_cancel (by omega)]
    exact found
  have genesis : ∀ first ∈ (below ++ cache.blocks).head?, first.blockIndex primitives = 0 := by
    intro first isFirst
    apply rooted.genesis first
    rw [entries]
    rwa [head?_append_of_ne_nil _ positive] at isFirst ⊢
  refine ⟨entry, isEntry, le_add_right _ _, found, ?_, isBlock, transactions, images, ran,
    whole, ?_⟩
  · rw [restored.index_eq link, blockIndex_eq_position recorded genesis isBelow]
    omega
  · rw [grownEntries, restored.entry_eq link]

theorem mergeSegments_eq_some (motive : DatabaseBlockchainCache → Prop)
    {accepting result : DatabaseBlockchainCache} (entries : accepting.entries = below) (rooted : accepting.Rooted primitives)
    (initially : motive accepting)
    (step : ∀ accepting grown pushed entry blockIndex,
      MergeStep primitives (below ++ cache.blocks) cache accepting grown pushed entry blockIndex →
      motive accepting → motive grown)
    (ran : mergeSegments primitives parents accepting (.memory cache) = some result) :
    result.entries = below ++ cache.blocks ∧ result.Rooted primitives ∧ motive result := by
  suffices built : ∀ count result,
      (List.range' cache.startIndex count).foldlM
        (fun accepting blockIndex => do
          let pushed ← cache.getPushedBlockInfo primitives (parents ++ [.database accepting])
            blockIndex
          accepting.pushBlock primitives pushed) accepting = some result →
      result.entries = below ++ cache.blocks.take count ∧ result.Rooted primitives ∧
        motive result by
    have all := built cache.blocks.length result ran
    rwa [take_length] at all
  intro count
  induction count with
  | zero =>
    intro result finished
    cases finished
    exact ⟨by simp [entries], rooted, initially⟩
  | succ count ih =>
    intro result ran
    rw [range'_1_concat, Checked.foldlM_concat] at ran
    obtain ⟨middle, middleRan, ran⟩ := bind_eq_some_iff.mp ran
    obtain ⟨middleEntries, middleRooted, holds⟩ := ih middle middleRan
    obtain ⟨pushed, isPushed, pushRan⟩ := bind_eq_some_iff.mp ran
    obtain ⟨entry, isEntry, isStep⟩ := mergeStep start positive recorded continues middleEntries
      middleRooted isPushed pushRan
    refine ⟨?_, middleRooted.push pushRan, step _ _ _ _ _ isStep holds⟩
    rw [isStep.after, middleEntries, take_add_one, isEntry, append_assoc]
    rfl

end
end Merge

/-! ### The whole main chain -/

theorem mergeAll_append {primitives : Primitives} {parents segments : List Segment}
    {root : DatabaseBlockchainCache} {segment : Segment} :
    mergeAll primitives parents root (segments ++ [segment])
      = (mergeAll primitives parents root segments).bind fun merged =>
        mergeSegments primitives (segments.reverse ++ parents) merged segment := by
  induction segments generalizing parents root with
  | nil => simp [mergeAll]
  | cons first rest ih =>
    rw [cons_append]
    unfold mergeAll
    cases mergeSegments primitives parents root first with
    | none => rfl
    | some merged =>
      simp only [bind_eq_bind, bind_some]
      rw [ih, reverse_cons, append_assoc]
      rfl

theorem TabledStack.merged {spec : TableSpec} {primitives : Primitives} {lineage : List Segment}
    {chain : List BlockEntry} (motive : DatabaseBlockchainCache → Prop)
    (stack : TabledStack spec lineage chain) (recorded : chain.IsChain (Recorded primitives))
    (nonempty : ∀ segment ∈ lineage, segment.entries ≠ []) {root result : DatabaseBlockchainCache}
    {segments : List Segment} (isLineage : lineage.reverse = .database root :: segments)
    (rooted : root.Rooted primitives) (initially : motive root)
    (step : ∀ below cache accepting grown pushed entry blockIndex,
      below ++ cache.blocks <+: chain → cache.startIndex = below.length →
      spec below (.memory cache) →
      MergeStep primitives (below ++ cache.blocks) cache accepting grown pushed entry blockIndex →
      motive accepting → motive grown) (ran : mergeAll primitives [] root segments = some result) :
    result.entries = chain ∧ result.Rooted primitives ∧ motive result := by
  induction stack generalizing segments result with
  | database holds =>
    cases isLineage
    cases ran
    exact ⟨rfl, rooted, initially⟩
  | @memory parents below cache stack start holds ih =>
    have isStacked := stack.stacked
    cases reversed : parents.reverse with
    | nil =>
      rw [reverse_eq_nil_iff] at reversed
      subst reversed
      cases isStacked
    | cons first others =>
      rw [reverse_cons, reversed, cons_append] at isLineage
      cases isLineage
      rw [mergeAll_append, append_nil] at ran
      obtain ⟨merged, mergedRan, ran⟩ := bind_eq_some_iff.mp ran
      obtain ⟨entries, mergedRooted, mergedHolds⟩ := ih
        (List.IsChain.left_of_append recorded)
        (fun segment member => nonempty segment (mem_cons_of_mem _ member)) reversed
        (fun below' cache' accepting grown pushed entry blockIndex isPrefix =>
          step below' cache' accepting grown pushed entry blockIndex
            (isPrefix.trans (prefix_append _ _)))
        mergedRan
      have isParents : parents = others.reverse ++ [.database root] := by
        rw [← reverse_reverse parents, reversed, reverse_cons]
      obtain ⟨parent, rest, isCons, length⟩ := isStacked.length_eq
      have parentNonempty : parent.entries ≠ [] :=
        nonempty parent (by simp [isCons])
      have positive : below ≠ [] := by
        intro empty
        rw [empty, length_nil] at length
        exact parentNonempty (length_eq_zero_iff.mp (by omega))
      -- the parent asked for the first totals is the root itself or the segment below
      have continues : ContinuesBelow primitives others.reverse below cache := by
        intro accepting last isEntries acceptingRooted isLast
        cases segments : others.reverse with
        | nil =>
          rw [← isEntries] at isLast
          refine totalsBelow_of_parent isLast ?_ ?_
          · rw [start, ← isEntries]
            exact (zero_add _).symm
          · intro root same
            cases same
            exact acceptingRooted.units
        | cons top lower =>
          rw [segments, cons_append] at isParents
          rw [isParents] at isStacked isCons
          cases isCons
          have present : lower ++ [.database root] ≠ [] := by simp
          generalize lower ++ [.database root] = tail at isStacked present
          cases isStacked with
          | database _ => exact absurd rfl present
          | memory stacked start' =>
            refine totalsBelow_of_parent ?_ ?_ ?_
            · rw [← isLast, getLast?_append_of_ne_nil]
              · rfl
              · exact parentNonempty
            · rw [start, length_append, ← start']
              rfl
            · intro root same
              cases same
      exact mergeSegments_eq_some start positive recorded continues motive entries mergedRooted
        mergedHolds (fun accepting grown pushed entry blockIndex =>
          step below cache accepting grown pushed entry blockIndex (prefix_refl _) start
            holds) ran

namespace Core
variable {primitives : Primitives} {core merged : Core} {spec : TableSpec}

theorem Sound.chain_recorded (sound : core.Sound primitives) {ptr : SegmentPtr}
    {segment : Segment} (found : core.chainsStorage[ptr]? = some segment) :
    (core.chain ptr).IsChain (Recorded primitives) := by
  obtain ⟨above, line⟩ := exists_line sound.toTreeSound found
  exact line.isChain sound.tree

theorem lineage_nonempty {link : BlockEntry → BlockEntry → Prop} (sound : core.TreeSound link)
    {ptr : SegmentPtr} {segment : Segment} (member : segment ∈ core.lineage ptr) :
    segment.entries ≠ [] := by
  obtain ⟨other, -, found⟩ := mem_filterMap.mp member
  exact sound.tree.nonempty (tree_found found)

theorem mergeMainChainSegments_eq_some (motive : DatabaseBlockchainCache → Prop)
    (sound : core.Sound primitives) (tabled : core.Tabled spec)
    (initially : ∀ root, core.chainsStorage[0]? = some (.database root) → motive root)
    (step : ∀ main below cache accepting grown pushed entry blockIndex,
      core.chainsLeaves.head? = some main → below ++ cache.blocks <+: core.chain main →
      cache.startIndex = below.length → spec below (.memory cache) →
      MergeStep primitives (below ++ cache.blocks) cache accepting grown pushed entry blockIndex →
      motive accepting → motive grown)
    (ran : core.mergeMainChainSegments primitives = some merged) :
    ∃ main result, core.chainsLeaves.head? = some main ∧
      merged = { core with chainsStorage := [.database result], chainsLeaves := [0] } ∧
      result.entries = core.chain main ∧ result.Rooted primitives ∧ motive result := by
  unfold mergeMainChainSegments at ran
  obtain ⟨main, isMain, ran⟩ := bind_eq_some_iff.mp ran
  obtain ⟨segment, found, -⟩ := leaf_found sound.toTreeSound (mem_of_mem_head? isMain)
  split at ran
  · rename_i root segments isLineage
    obtain ⟨result, mergeRan, finished⟩ := bind_eq_some_iff.mp ran
    cases finished
    have inLineage : Segment.database root ∈ core.lineage main := by
      rw [← mem_reverse, isLineage]
      exact mem_cons_self
    obtain ⟨ptr, -, rootFound⟩ := mem_filterMap.mp inLineage
    obtain ⟨rfl, -⟩ := sound.tree.root_of_no_parent (tree_found rootFound) rfl
    obtain ⟨entries, rooted, holds⟩ := (tabled.stack sound.toTreeSound found).merged motive
      (sound.chain_recorded found) (fun _ => lineage_nonempty sound.toTreeSound) isLineage
      (sound.rooted root rootFound) (initially root rootFound)
      (fun below cache accepting grown pushed entry blockIndex =>
        step main below cache accepting grown pushed entry blockIndex isMain) mergeRan
    exact ⟨main, result, isMain, rfl, entries, rooted, holds⟩
  · cases ran

theorem chains_of_root {result : DatabaseBlockchainCache}
    (isMerged : merged = { core with chainsStorage := [.database result], chainsLeaves := [0] }) :
    merged.chains = [result.entries] := by
  subst isMerged
  change [result.entries ++ []] = _
  rw [append_nil]

end Core
end Mevacoin
