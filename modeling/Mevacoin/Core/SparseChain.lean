/-
Locating the fork of two main chains. The requester lists hashes at doubling distances
below its top; the responder answers with the position of the first one it knows.

A result of `none` is an exception, except for the loop of the distances, where it means
that the loop has not ended.
-/

import Mathlib.Data.Nat.Log
import Mevacoin.Core.Storage

namespace Mevacoin
open List Nat Option Lineage Segment
open Checked (exists_mapM mapM_eq_some_iff)

variable {top fork index : Nat}

def Lineage.getBlockHash (segments : List Segment) (blockIndex : Nat) : Option Hash :=
  (Lineage.getCachedBlockInfo blockIndex segments).map CachedBlockInfo.blockHash

/-- The loop `for (uint32_t i = 1; i < blockIndex; i *= 2)`, started at any value. -/
def sparseDistances (blockIndex : Nat) : Nat → UInt32 → Option (List Nat)
  | 0, _ => none
  | fuel + 1, i =>
    if i.toNat < blockIndex then
      (sparseDistances blockIndex fuel (i * 2)).map fun distances => i.toNat :: distances
    else some []

namespace Core

def doBuildSparseChain (fuel : Nat) (core : Core) (blockHash : Hash) : Option (List Hash) := do
  let ptr ← core.findSegmentContainingBlock blockHash
  let chain ← core.chainsStorage[ptr]?
  let blockIndex ← chain.getBlockIndex blockHash
  let distances ← sparseDistances blockIndex fuel 1
  let hashes ← distances.mapM fun i =>
    Lineage.getBlockHash (core.lineage ptr) (blockIndex - i)
  let genesisBlockHash ← Lineage.getBlockHash (core.lineage ptr) 0
  some (blockHash :: (hashes ++ if blockHash ≠ genesisBlockHash then [genesisBlockHash] else []))

def buildSparseChain (fuel : Nat) (core : Core) : Option (List Hash) := do
  let main ← core.chainsLeaves.head?
  let segment ← core.chainsStorage[main]?
  let topBlock ← segment.entries.getLast?
  core.doBuildSparseChain fuel topBlock.info.blockHash

def findMainChainSegmentContainingBlock (core : Core) (blockHash : Hash) : Option SegmentPtr :=
  core.chainsLeaves.head?.bind (core.findIndexInChain blockHash)

/-- The position of the first known hash; an empty list stands for an empty chain. -/
def findBlockchainSupplement (core : Core) (remoteBlockIds : List Hash) : Option Nat :=
  if remoteBlockIds = [] then some 0
  else do
    let hash ← remoteBlockIds.find? fun hash =>
      (core.findMainChainSegmentContainingBlock hash).isSome
    let ptr ← core.findMainChainSegmentContainingBlock hash
    let segment ← core.chainsStorage[ptr]?
    segment.getBlockIndex hash

end Core

/-! ### Doubling distances -/

theorem sparseDistances_eq {blockIndex fuel : Nat} (small : blockIndex < 2 ^ 31) {exponent : Nat}
    {i : UInt32} (isPower : i.toNat = 2 ^ exponent) (low : exponent ≤ Nat.clog 2 blockIndex)
    (enough : 32 ≤ fuel + exponent) :
    sparseDistances blockIndex fuel i
      = some ((List.range' exponent (Nat.clog 2 blockIndex - exponent)).map (2 ^ ·)) := by
  have bound : Nat.clog 2 blockIndex ≤ 31 := clog_le_of_le_pow (le_of_lt small)
  induction fuel generalizing exponent i with
  | zero => omega
  | succ fuel ih =>
    unfold sparseDistances
    rcases lt_or_eq_of_le low with more | last
    · have inside : 2 ^ exponent < blockIndex := pow_lt_of_lt_clog more
      have doubled : (i * 2).toNat = 2 ^ (exponent + 1) := by
        have low : 2 ^ (exponent + 1) < 2 ^ 32 := Nat.pow_lt_pow_right (by omega) (by omega)
        rw [UInt32.toNat_mul, isPower]
        change 2 ^ exponent * 2 % 2 ^ 32 = _
        rw [← pow_succ, mod_eq_of_lt low]
      have count : Nat.clog 2 blockIndex - exponent
          = (Nat.clog 2 blockIndex - (exponent + 1)) + 1 := by omega
      rw [if_pos (isPower ▸ inside), ih doubled more (by omega), count, range'_succ,
        map_some, map_cons, isPower]
    · have outside : ¬2 ^ exponent < blockIndex := by
        rw [last]
        exact not_lt.mpr (le_pow_clog (by omega) _)
      rw [if_neg (isPower ▸ outside), last, Nat.sub_self]
      rfl

def sparseIndexes (top : Nat) : List Nat :=
  top :: ((List.range' 0 (Nat.clog 2 top)).map (fun exponent => top - 2 ^ exponent)
    ++ if top = 0 then [] else [0])

theorem length_sparseIndexes (top : Nat) :
    (sparseIndexes top).length ≤ Nat.clog 2 (top + 1) + 2 := by
  have mono : Nat.clog 2 top ≤ Nat.clog 2 (top + 1) := clog_mono_right 2 (le_succ top)
  have tail : (if top = 0 then ([] : List Nat) else [0]).length ≤ 1 := by
    split
    · exact zero_le _
    · exact le_refl _
  unfold sparseIndexes
  rw [length_cons, length_append, length_map, length_range']
  omega

/-- The first listed position at or below the fork, once the smaller distances are known not
to reach it. -/
private theorem find_sparse (below : fork < top) (exponent count : Nat)
    (isCount : exponent + count = Nat.clog 2 top)
    (tooShort : 0 < exponent → fork < top - 2 ^ (exponent - 1)) :
    ∃ position, ((List.range' exponent count).map (fun exponent => top - 2 ^ exponent)
        ++ [0]).find? (fun index => decide (index ≤ fork)) = some position ∧
      position ≤ fork ∧ top - position ≤ 2 * (top - fork) - 1 := by
  induction count generalizing exponent with
  | zero =>
    refine ⟨0, by simp, zero_le _, ?_⟩
    have bound := le_pow_clog (b := 2) (by omega) top
    rw [← isCount, add_zero] at bound
    cases exponent with
    | zero =>
      omega
    | succ exponent =>
      have far := tooShort (succ_pos _)
      rw [Nat.add_sub_cancel] at far
      omega
  | succ count ih =>
    rw [range'_succ, map_cons, cons_append, find?_cons]
    by_cases reached : top - 2 ^ exponent ≤ fork
    · refine ⟨top - 2 ^ exponent, by simp [reached], reached, ?_⟩
      cases exponent with
      | zero =>
        omega
      | succ exponent =>
        have far := tooShort (succ_pos _)
        rw [Nat.add_sub_cancel] at far
        omega
    · simp only [reached, decide_false]
      refine ih (exponent + 1) (by omega) ?_
      rw [Nat.add_sub_cancel]
      omega

theorem find_sparseIndexes (inside : fork ≤ top) :
    ∃ position, (sparseIndexes top).find? (fun index => decide (index ≤ fork)) = some position ∧
      position ≤ fork ∧ (top = fork → position = top) ∧
      (top ≠ fork → top - position ≤ 2 * (top - fork) - 1) := by
  unfold sparseIndexes
  rcases lt_or_eq_of_le inside with below | same
  · obtain ⟨position, isFound, low, near⟩ := find_sparse below 0 (Nat.clog 2 top) (by omega)
      (fun impossible => absurd impossible (lt_irrefl 0))
    refine ⟨position, ?_, low, fun same => ?_, fun _ => near⟩
    · rw [if_neg (by omega)]
      simpa [not_le.mpr below] using isFound
    · omega
  · subst same
    exact ⟨fork, by simp, le_refl _, fun _ => rfl, fun different => absurd rfl different⟩

/-! ### Hashes along a chain -/

/-- Blocks that can be read and have the same hash have the same height and the same
parent. -/
def CollisionFree (primitives : Primitives) : Prop :=
  ∀ binary other first second, primitives.blockFromBinaryArray binary = some first →
    primitives.blockFromBinaryArray other = some second →
    primitives.getBlockHash first = primitives.getBlockHash second →
    first.getBlockIndex = second.getBlockIndex ∧ first.previousBlockHash = second.previousBlockHash

def HashRecorded (primitives : Primitives) (entry : BlockEntry) : Prop :=
  ∃ block, primitives.blockFromBinaryArray entry.rawBlock.block = some block ∧
    entry.info.blockHash = primitives.getBlockHash block

structure RecordedChain (primitives : Primitives) (chain : List BlockEntry) : Prop where
  recorded : chain.IsChain (Recorded primitives)
  index : ∀ first ∈ chain.head?, first.blockIndex primitives = 0
  hash : ∀ first ∈ chain.head?, HashRecorded primitives first

namespace RecordedChain
variable {primitives : Primitives} {chain other : List BlockEntry}

theorem hashRecorded (recorded : RecordedChain primitives chain)
    {entry : BlockEntry} (found : chain[index]? = some entry) :
    HashRecorded primitives entry := by
  cases index with
  | zero => exact recorded.hash entry (by rwa [head?_eq_getElem?])
  | succ index =>
    have inside := index_lt found
    have previous := getElem?_eq_getElem (lt_of_succ_lt inside)
    obtain ⟨block, transactions, follows⟩ :=
      isChain_neighbours recorded.recorded previous found
    exact ⟨block, follows.block_parsed, follows.hash⟩

variable (collisionFree : CollisionFree primitives)

include collisionFree in
theorem same_position (recorded : RecordedChain primitives chain)
    (otherRecorded : RecordedChain primitives other) {position : Nat} {entry found : BlockEntry}
    (isEntry : chain[index]? = some entry) (isFound : other[position]? = some found)
    (sameHash : entry.info.blockHash = found.info.blockHash) : index = position := by
  obtain ⟨block, parsed, hash⟩ := recorded.hashRecorded isEntry
  obtain ⟨block', parsed', hash'⟩ := otherRecorded.hashRecorded isFound
  have sameIndex := (collisionFree _ _ block block' parsed parsed'
    (by rw [← hash, ← hash', sameHash])).1
  have height := blockIndex_eq_position recorded.recorded recorded.index isEntry
  have height' := blockIndex_eq_position otherRecorded.recorded otherRecorded.index isFound
  simp only [BlockEntry.blockIndex, parsed, parsed', map_some, getD_some]
    at height height'
  omega

def hashAt (chain : List BlockEntry) (index : Nat) : Option Hash :=
  (chain[index]?).map fun entry => entry.info.blockHash

include collisionFree in
theorem agree_below (recorded : RecordedChain primitives chain)
    (otherRecorded : RecordedChain primitives other)
    (inside : fork < chain.length) (agree : hashAt chain fork = hashAt other fork)
    (lower : index ≤ fork) : hashAt chain index = hashAt other index := by
  induction fork with
  | zero => rwa [le_zero.mp lower]
  | succ fork ih =>
    rcases lt_or_eq_of_le lower with below | same
    · refine ih (by omega) ?_ (le_of_lt_succ below)
      obtain ⟨entry, isEntry⟩ : ∃ entry, chain[fork + 1]? = some entry :=
        ⟨_, getElem?_eq_getElem inside⟩
      unfold hashAt at agree
      rw [isEntry, map_some, eq_comm] at agree
      obtain ⟨entry', isEntry', sameHash⟩ := map_eq_some_iff.mp agree
      have previous := getElem?_eq_getElem (lt_of_succ_lt inside)
      have inside' := (List.getElem?_eq_some_iff.mp isEntry').1
      have previous' := getElem?_eq_getElem (lt_of_succ_lt inside')
      obtain ⟨block, _, follows⟩ := isChain_neighbours recorded.recorded previous isEntry
      obtain ⟨block', _, follows'⟩ :=
        isChain_neighbours otherRecorded.recorded previous' isEntry'
      have sameParent := (collisionFree _ _ block block' follows.block_parsed
        follows'.block_parsed (by rw [← follows.hash, ← follows'.hash, sameHash])).2
      unfold hashAt
      rw [previous, previous', map_some, map_some, ← follows.previous,
        ← follows'.previous, sameParent]
    · rwa [same]

end RecordedChain

/-! ### Lookups on the main chain -/

theorem Stacked.getCachedBlockInfo {segments : List Segment} {items : List BlockEntry}
    (stacked : Stacked segments items) (blockIndex : Nat) :
    Lineage.getCachedBlockInfo blockIndex segments = (items[blockIndex]?).map BlockEntry.info := by
  induction stacked with
  | database cache =>
    unfold Lineage.getCachedBlockInfo
    rw [DatabaseBlockchainCache.infos_eq, getElem?_map]
  | memory _ start ih =>
    unfold Lineage.getCachedBlockInfo
    split
    · rw [ih, getElem?_append_left (by omega)]
    · rw [getElem?_append_right (by omega), start]

namespace Core
open RecordedChain (hashAt)

variable {primitives : Primitives} {core : Core} {main : SegmentPtr} {segment : Segment}
  {link : BlockEntry → BlockEntry → Prop}

theorem getBlockHash_eq (sound : core.TreeSound link)
    (found : core.chainsStorage[main]? = some segment) (blockIndex : Nat) :
    Lineage.getBlockHash (core.lineage main) blockIndex = hashAt (core.chain main) blockIndex := by
  obtain ⟨above, items, line, -, stacked, -⟩ := sound.stacked found
  unfold getBlockHash hashAt
  rw [chain_eq sound line, stacked.getCachedBlockInfo, Option.map_map]
  rfl

theorem hashAt_of_found (sound : core.TreeSound link) (isMain : core.chainsLeaves.head? = some main)
    {blockHash : Hash} {ptr : SegmentPtr}
    (located : core.findMainChainSegmentContainingBlock blockHash = some ptr) :
    ∃ holder index, core.chainsStorage[ptr]? = some holder ∧
      holder.getBlockIndex blockHash = some index ∧
      hashAt (core.chain main) index = some blockHash := by
  obtain ⟨mainSegment, mainFound, -⟩ := leaf_found sound (mem_of_mem_head? isMain)
  unfold findMainChainSegmentContainingBlock at located
  rw [isMain, bind_some] at located
  obtain ⟨holder, isHolder, hasBlock⟩ := found_of_findIndexInChain located
  have onPath := mem_of_find?_eq_some located
  obtain ⟨above, line⟩ := exists_line sound mainFound
  rw [ancestry_eq, line.path_eq sound.tree] at onPath
  obtain ⟨above', items, line', ⟨rest, whole⟩, -⟩ := line.exists_shorter sound.tree onPath
  obtain ⟨index, isIndex⟩ := getBlockIndex_isSome hasBlock
  refine ⟨holder, index, isHolder, isIndex, ?_⟩
  obtain ⟨offset, block, same, isBlock, hash⟩ := getBlockIndex_eq_some isIndex
  have inItems := (chain_getElem? line' sound isHolder offset).trans isBlock
  have inside := index_lt inItems
  unfold hashAt
  rw [← whole, same, getElem?_append_left inside, inItems, map_some, hash]

theorem found_of_hashAt (isMain : core.chainsLeaves.head? = some main) {blockHash : Hash}
    (isHash : hashAt (core.chain main) index = some blockHash) :
    (core.findMainChainSegmentContainingBlock blockHash).isSome = true := by
  obtain ⟨entry, isEntry, same⟩ := map_eq_some_iff.mp isHash
  obtain ⟨holder, inLineage, inHolder⟩ := mem_flatMap.mp (mem_of_getElem? isEntry)
  obtain ⟨ptr, onPath, isHolder⟩ := mem_filterMap.mp (mem_reverse.mp inLineage)
  unfold findMainChainSegmentContainingBlock
  rw [isMain, bind_some]
  unfold findIndexInChain
  rw [find?_isSome]
  refine ⟨ptr, onPath, ?_⟩
  rw [isHolder]
  exact any_eq_true.mpr ⟨entry, inHolder, decide_eq_true same⟩

theorem Sound.recordedChain (sound : core.Sound primitives)
    (found : core.chainsStorage[main]? = some segment)
    (genesis : ∀ first ∈ (core.chain main).head?, HashRecorded primitives first) :
    RecordedChain primitives (core.chain main) := by
  obtain ⟨above, line⟩ := exists_line sound.toTreeSound found
  refine ⟨line.isChain sound.tree, ?_, genesis⟩
  intro first isFirst
  rw [head?_eq_getElem?] at isFirst
  exact sound.blockIndex_eq line isFirst

/-! ### The requester -/

theorem buildSparseChain_eq (collisionFree : CollisionFree primitives)
    (sound : core.Sound primitives) (isMain : core.chainsLeaves.head? = some main)
    (recorded : RecordedChain primitives (core.chain main))
    (length : (core.chain main).length = top + 1) (small : top < 2 ^ 31) :
    ∃ ids, (∀ fuel, 32 ≤ fuel → core.buildSparseChain fuel = some ids) ∧
      List.Forall₂ (fun index hash => hashAt (core.chain main) index = some hash)
        (sparseIndexes top) ids := by
  have treeSound := sound.toTreeSound
  obtain ⟨segment, found, -⟩ := leaf_found treeSound (mem_of_mem_head? isMain)
  obtain ⟨above, line⟩ := exists_line treeSound found
  have lastEntry : segment.entries.getLast? = (core.chain main).getLast? :=
    (line.getLast?_eq sound.tree (tree_found found)).symm
  obtain ⟨topBlock, isTop⟩ : ∃ topBlock, (core.chain main)[top]? = some topBlock :=
    ⟨_, getElem?_eq_getElem (by omega)⟩
  have isLast : segment.entries.getLast? = some topBlock := by
    rw [lastEntry, getLast?_eq_getElem?, length, Nat.add_sub_cancel, isTop]
  -- the top block is found in the main leaf, at the top
  have hasTop : segment.hasBlock topBlock.info.blockHash = true :=
    any_eq_true.mpr ⟨topBlock, mem_of_getLast? isLast, decide_eq_true rfl⟩
  have located : core.findSegmentContainingBlock topBlock.info.blockHash = some main := by
    obtain ⟨others, leaves⟩ := head?_eq_some_iff.mp isMain
    unfold findSegmentContainingBlock
    rw [leaves, findSome?_cons]
    have inMain : core.findIndexInChain topBlock.info.blockHash main = some main := by
      unfold findIndexInChain ancestry SegmentTree.walk
      simp [found, hasTop]
    rw [inMain]
  obtain ⟨index, isIndex⟩ := getBlockIndex_isSome hasTop
  have atTop : index = top := by
    obtain ⟨offset, block, same, isBlock, hash⟩ := getBlockIndex_eq_some isIndex
    have inChain := (chain_getElem? line treeSound found offset).trans isBlock
    rw [same]
    exact recorded.same_position collisionFree recorded inChain isTop hash
  subst atTop
  have hashes : ∀ position ≤ index, ∃ hash,
      getBlockHash (core.lineage main) position = some hash := by
    intro position inside
    rw [getBlockHash_eq treeSound found]
    unfold hashAt
    rw [getElem?_eq_getElem (by omega)]
    exact ⟨_, rfl⟩
  obtain ⟨genesisHash, isGenesis⟩ := hashes 0 (zero_le _)
  obtain ⟨middle, isMiddle⟩ : ∃ middle,
      ((List.range' 0 (Nat.clog 2 index)).map (2 ^ ·)).mapM (fun i =>
        getBlockHash (core.lineage main) (index - i)) = some middle :=
    exists_mapM fun i _ => hashes (index - i) (sub_le _ _)
  have isGenesisTop : index = 0 ↔ topBlock.info.blockHash = genesisHash := by
    rw [getBlockHash_eq treeSound found] at isGenesis
    obtain ⟨genesis, genesisFound, rfl⟩ := map_eq_some_iff.mp isGenesis
    constructor
    · intro atGenesis
      rw [atGenesis, genesisFound] at isTop
      cases isTop
      rfl
    · exact recorded.same_position collisionFree recorded isTop genesisFound
  refine ⟨topBlock.info.blockHash :: (middle ++
    if topBlock.info.blockHash ≠ genesisHash then [genesisHash] else []), ?_, ?_⟩
  · intro fuel enough
    have distances : sparseDistances index fuel 1
        = some ((List.range' 0 (Nat.clog 2 index)).map (2 ^ ·)) :=
      sparseDistances_eq small rfl (zero_le _) enough
    unfold buildSparseChain doBuildSparseChain
    simp only [isMain, found, isLast, located, isIndex, distances, isMiddle, isGenesis,
      bind_eq_bind, bind_some]
  · refine .cons (by simp [hashAt, isTop]) (rel_append ?_ ?_)
    · have related := mapM_eq_some_iff.mp isMiddle
      rw [List.forall₂_map_left_iff] at related ⊢
      refine related.imp fun exponent hash isHash => ?_
      rwa [getBlockHash_eq treeSound found] at isHash
    · rw [getBlockHash_eq treeSound found] at isGenesis
      by_cases atGenesis : index = 0
      · rw [if_pos atGenesis, if_neg (not_not.mpr (isGenesisTop.mp atGenesis))]
        exact .nil
      · rw [if_neg atGenesis, if_pos (fun same => atGenesis (isGenesisTop.mpr same))]
        exact .cons isGenesis .nil

/-! ### The responder -/

/-- The first listed hash that the responder knows is the first one listed at or below the
fork. -/
theorem findBlockchainSupplement_eq (sound : core.Sound primitives)
    (isMain : core.chainsLeaves.head? = some main) (collisionFree : CollisionFree primitives)
    (recorded : RecordedChain primitives (core.chain main)) {remote : List BlockEntry}
    (remoteRecorded : RecordedChain primitives remote)
    (common : ∀ index ≤ fork, hashAt remote index = hashAt (core.chain main) index)
    (apart : ∀ index, fork < index → ∀ hash, hashAt remote index = some hash →
      hashAt (core.chain main) index ≠ some hash) {indexes : List Nat} {ids : List Hash}
    (listed : List.Forall₂ (fun index hash => hashAt remote index = some hash) indexes ids)
    {position : Nat}
    (isFirst : indexes.find? (fun index => decide (index ≤ fork)) = some position) :
    core.findBlockchainSupplement ids = some position := by
  -- a listed hash is known exactly at or below the fork, and then stands at its own position
  have unknown : ∀ index hash, hashAt remote index = some hash → ¬index ≤ fork →
      core.findMainChainSegmentContainingBlock hash = none := by
    intro index hash isHash above
    cases located : core.findMainChainSegmentContainingBlock hash with
    | none => rfl
    | some ptr =>
      obtain ⟨holder, other, -, -, atOther⟩ := hashAt_of_found sound.toTreeSound isMain located
      obtain ⟨entry, isEntry, rfl⟩ := map_eq_some_iff.mp isHash
      obtain ⟨entry', isEntry', sameHash⟩ := map_eq_some_iff.mp atOther
      have same := remoteRecorded.same_position collisionFree recorded isEntry isEntry'
        sameHash.symm
      subst same
      exact absurd atOther (apart index (Nat.lt_of_not_le above) _ isHash)
  have known : ∀ index hash, hashAt remote index = some hash → index ≤ fork →
      ∃ ptr holder, core.findMainChainSegmentContainingBlock hash = some ptr ∧
        core.chainsStorage[ptr]? = some holder ∧ holder.getBlockIndex hash = some index := by
    intro index hash isHash below
    have here : hashAt (core.chain main) index = some hash := by rw [← common index below, isHash]
    obtain ⟨ptr, located⟩ := isSome_iff_exists.mp (found_of_hashAt isMain here)
    obtain ⟨holder, other, isHolder, isOther, atOther⟩ :=
      hashAt_of_found sound.toTreeSound isMain located
    obtain ⟨entry, isEntry, rfl⟩ := map_eq_some_iff.mp here
    obtain ⟨entry', isEntry', sameHash⟩ := map_eq_some_iff.mp atOther
    have same := recorded.same_position collisionFree recorded isEntry' isEntry sameHash
    subst same
    exact ⟨ptr, holder, located, isHolder, isOther⟩
  have firstKnown : ∃ hash, hashAt remote position = some hash ∧
      ids.find? (fun hash => (core.findMainChainSegmentContainingBlock hash).isSome)
        = some hash := by
    induction listed with
    | nil => cases isFirst
    | @cons index hash indexes ids isHash listed ih =>
      rw [find?_cons] at isFirst
      by_cases below : index ≤ fork
      · simp only [below, decide_true, Option.some.injEq] at isFirst
        subst isFirst
        obtain ⟨ptr, holder, located, -⟩ := known index hash isHash below
        exact ⟨hash, isHash, by simp [located]⟩
      · simp only [below, decide_false] at isFirst
        obtain ⟨other, isOther, found⟩ := ih isFirst
        exact ⟨other, isOther, by simp [unknown index hash isHash below, found]⟩
  obtain ⟨hash, isHash, isKnown⟩ := firstKnown
  have below : position ≤ fork := by
    have holds := find?_some isFirst
    exact of_decide_eq_true holds
  obtain ⟨ptr, holder, located, isHolder, isIndex⟩ := known position hash isHash below
  have nonempty : ids ≠ [] := by
    rintro rfl
    cases isKnown
  unfold findBlockchainSupplement
  rw [if_neg nonempty]
  simp only [isKnown, located, isHolder, isIndex, bind_eq_bind, bind_some]

/-- The answer to a sparse chain is a common block, the top itself if the responder has it,
and otherwise less than twice as far below the top as the fork. -/
theorem findBlockchainSupplement_buildSparseChain (collisionFree : CollisionFree primitives)
    {requester responder : Core} {requesterMain responderMain : SegmentPtr}
    (requesterSound : requester.Sound primitives) (responderSound : responder.Sound primitives)
    (isRequesterMain : requester.chainsLeaves.head? = some requesterMain)
    (isResponderMain : responder.chainsLeaves.head? = some responderMain)
    (requesterGenesis : ∀ first ∈ (requester.chain requesterMain).head?,
      HashRecorded primitives first)
    (responderGenesis : ∀ first ∈ (responder.chain responderMain).head?,
      HashRecorded primitives first)
    {top fork : Nat} (length : (requester.chain requesterMain).length = top + 1)
    (small : top < 2 ^ 31) (inside : fork ≤ top)
    (agree : hashAt (requester.chain requesterMain) fork
      = hashAt (responder.chain responderMain) fork)
    (last : ∀ index, fork < index → index ≤ top →
      hashAt (requester.chain requesterMain) index ≠ hashAt (responder.chain responderMain) index) :
    ∃ ids position, (∀ fuel, 32 ≤ fuel → requester.buildSparseChain fuel = some ids) ∧
      responder.findBlockchainSupplement ids = some position ∧
      position ≤ fork ∧ (top = fork → position = top) ∧
      (top ≠ fork → top - position ≤ 2 * (top - fork) - 1) ∧
      ids.length ≤ Nat.clog 2 (top + 1) + 2 := by
  obtain ⟨_, requesterFound, -⟩ :=
    leaf_found requesterSound.toTreeSound (mem_of_mem_head? isRequesterMain)
  obtain ⟨_, responderFound, -⟩ :=
    leaf_found responderSound.toTreeSound (mem_of_mem_head? isResponderMain)
  have requesterRecorded := requesterSound.recordedChain requesterFound requesterGenesis
  have responderRecorded := responderSound.recordedChain responderFound responderGenesis
  obtain ⟨ids, built, listed⟩ := buildSparseChain_eq collisionFree requesterSound isRequesterMain
    requesterRecorded length small
  obtain ⟨position, isFirst, below, exact, near⟩ := find_sparseIndexes inside
  refine ⟨ids, position, built, ?_, below, exact, near, ?_⟩
  · refine findBlockchainSupplement_eq responderSound isResponderMain collisionFree
      responderRecorded requesterRecorded ?_ ?_ listed isFirst
    · intro index lower
      exact requesterRecorded.agree_below collisionFree responderRecorded (by omega) agree lower
    · intro index above hash isHash same
      obtain ⟨entry, isEntry, -⟩ := map_eq_some_iff.mp isHash
      have bound := index_lt isEntry
      exact last index above (by omega) (isHash.trans same.symm)
  · rw [← listed.length_eq]
    exact length_sparseIndexes top

theorem forkEnvironment_collisionFree : CollisionFree forkEnvironment.primitives := by
  have table : ∀ binary block, forkEnvironment.primitives.blockFromBinaryArray binary = some block →
      block ∈ [coinbaseBlock 0 255 0 1, coinbaseBlock 1 0 1 37252902, coinbaseBlock 2 1 2 37252902,
        coinbaseBlock 3 1 2 37252902, coinbaseBlock 4 0 1 37252902] := by
    intro binary block parsed
    obtain ⟨code, -, found⟩ := bind_eq_some_iff.mp parsed
    exact mem_of_getElem? found
  have distinct : ∀ first ∈ [coinbaseBlock 0 255 0 1, coinbaseBlock 1 0 1 37252902,
      coinbaseBlock 2 1 2 37252902, coinbaseBlock 3 1 2 37252902, coinbaseBlock 4 0 1 37252902],
      ∀ second ∈ [coinbaseBlock 0 255 0 1, coinbaseBlock 1 0 1 37252902,
        coinbaseBlock 2 1 2 37252902, coinbaseBlock 3 1 2 37252902, coinbaseBlock 4 0 1 37252902],
      forkEnvironment.primitives.getBlockHash first
          = forkEnvironment.primitives.getBlockHash second →
      first.getBlockIndex = second.getBlockIndex ∧
        first.previousBlockHash = second.previousBlockHash := by
    decide +kernel
  intro binary other first second parsed parsed' sameHash
  exact distinct first (table binary first parsed) second (table other second parsed') sameHash

theorem findBlockchainSupplement_buildSparseChain_fork :
    let requester := afterAll forkEnvironment (initRootSegment forkGenesis) [1, 2]
    let responder := afterAll forkEnvironment (initRootSegment forkGenesis) [1, 3]
    ∃ ids position, (∀ fuel, 32 ≤ fuel → requester.buildSparseChain fuel = some ids) ∧
      responder.findBlockchainSupplement ids = some position ∧
      position ≤ 1 ∧ (2 = 1 → position = 2) ∧ (2 ≠ 1 → 2 - position ≤ 2 * (2 - 1) - 1) ∧
      ids.length ≤ Nat.clog 2 (2 + 1) + 2 := by
  have requesterRun : Reaches forkEnvironment (ParentSplitsCleanly forkEnvironment.primitives)
      (initRootSegment forkGenesis)
      (afterAll forkEnvironment (initRootSegment forkGenesis) [1, 2]) :=
    reaches_afterAll (by decide +kernel)
  have responderRun : Reaches forkEnvironment (ParentSplitsCleanly forkEnvironment.primitives)
      (initRootSegment forkGenesis)
      (afterAll forkEnvironment (initRootSegment forkGenesis) [1, 3]) :=
    reaches_afterAll (by decide +kernel)
  have genesis : ∀ core : Core,
      (core.chain 0).head? = ((initRootSegment forkGenesis).chain 0).head? →
      ∀ first ∈ (core.chain 0).head?, HashRecorded forkEnvironment.primitives first := by
    intro core same first isFirst
    rw [same] at isFirst
    cases isFirst
    exact ⟨_, rfl, rfl⟩
  refine findBlockchainSupplement_buildSparseChain forkEnvironment_collisionFree
    ((initRootSegment_sound forkGenesis).reaches (fun _ _ clean => clean) requesterRun)
    ((initRootSegment_sound forkGenesis).reaches (fun _ _ clean => clean) responderRun)
    (by decide +kernel) (by decide +kernel)
    (genesis _ (by decide +kernel)) (genesis _ (by decide +kernel))
    (by decide +kernel) (by decide) (by decide) (by decide +kernel) ?_
  intro index above below
  have same : index = 2 := by omega
  subst same
  decide +kernel

end Core
end Mevacoin
