/-
Runs of main chain blocks that are read through the segments: the raw blocks and the
hashes from an index on, and the blocks sent to a wallet. Each of the three traversals
gives a slice of the main chain.

A result of `none` is an exception.
-/

import Mevacoin.Cache.Windows
import Mevacoin.Core.SparseChain

namespace Mevacoin
open List Nat Option Lineage DatabaseBlockchainCache BlockEntry
open RecordedChain (hashAt)

/-! ### The traversals -/

namespace Lineage

/-- The inner loop of `getBlocks`, which goes down to a block and breaks at index 0; it
gives the blocks read so far and the index where the next segment goes on. -/
def takeDown (getBlockByIndex : Nat → Option RawBlock) (minChainIndex : Nat) :
    Nat → List RawBlock → Option (List RawBlock × Nat)
  | 0, blocks =>
    if minChainIndex ≤ 0 then (getBlockByIndex 0).map fun block => (blocks ++ [block], 0)
    else some (blocks, 0)
  | maxIndex + 1, blocks =>
    if minChainIndex ≤ maxIndex + 1 then do
      let block ← getBlockByIndex (maxIndex + 1)
      takeDown getBlockByIndex minChainIndex maxIndex (blocks ++ [block])
    else some (blocks, maxIndex + 1)

def takeFrom (minIndex : Nat) (cache : Segment) (parents : List Segment) (maxIndex : Nat)
    (blocks : List RawBlock) : Option (List RawBlock × Nat) :=
  if maxIndex ≤ cache.getTopBlockIndex then
    takeDown (fun index => getBlockByIndex index (cache :: parents))
      (max minIndex cache.getStartBlockIndex) maxIndex blocks
  else some (blocks, maxIndex)

def getBlocks (minIndex count : Nat) :
    List Segment → Nat → List RawBlock → Option (List RawBlock)
  | [], _, blocks => some blocks
  | cache :: parents, maxIndex, blocks => do
      let (blocks, maxIndex) ← takeFrom minIndex cache parents maxIndex blocks
      if blocks.length = count then some blocks else getBlocks minIndex count parents maxIndex blocks

def getBlockHashes (startBlockIndex maxCount : Nat) : List Segment → Option (List Hash)
  | [] => none
  | .database cache :: _ =>
    let count := min (cache.getTopBlockIndex - startBlockIndex + 1) maxCount
    (range' startBlockIndex count).mapM fun index =>
      (cache.infos[index]?).map CachedBlockInfo.blockHash
  | .memory cache :: parents =>
    if startBlockIndex < cache.startIndex then do
      let hashes ← getBlockHashes startBlockIndex maxCount parents
      let blocksLeft := min (maxCount - hashes.length) cache.blocks.length
      some (hashes ++ (cache.blocks.take blocksLeft).map (·.info.blockHash))
    else
      let start := startBlockIndex - cache.startIndex
      let blocksLeft := min (cache.blocks.length - start) maxCount
      some (((cache.blocks.drop start).take blocksLeft).map (·.info.blockHash))

/-- `getBlocksByHeight`. The database reads as many blocks as it finds of those asked for. -/
def getBlocksByHeight (startHeight endHeight : Nat) : List Segment → Option (List RawBlock)
  | [] => none
  | .database cache :: _ =>
    let found := (range' startHeight (endHeight - startHeight)).countP
      (· < cache.blocks.length)
    (range' startHeight found).mapM fun height =>
      (cache.blocks[height]?).map DatabaseBlock.rawBlock
  | .memory cache :: parents =>
    if endHeight < cache.startIndex then getBlocksByHeight startHeight endHeight parents
    else do
      let blocks ← if startHeight < cache.startIndex then
          getBlocksByHeight startHeight cache.startIndex parents
        else some []
      let startOffset := max startHeight cache.startIndex
      let endHeight := min endHeight (cache.startIndex + cache.blocks.length)
      some (blocks ++ (slice cache.blocks (startOffset - cache.startIndex)
        (endHeight - cache.startIndex)).map rawBlock)

end Lineage

namespace Core

def getBlocks (core : Core) (minIndex count : Nat) : Option (List RawBlock) :=
  if 0 < count then do
    let main ← core.chainsLeaves.head?
    let cache ← core.chainsStorage[main]?
    let maxIndex := min ((minIndex + count - 1) % 2 ^ 32) cache.getTopBlockIndex
    (Lineage.getBlocks minIndex count (core.lineage main) maxIndex []).map reverse
  else some []

def getBlockHashes (core : Core) (startBlockIndex maxCount : Nat) : Option (List Hash) := do
  let main ← core.chainsLeaves.head?
  Lineage.getBlockHashes startBlockIndex maxCount (core.lineage main)

def checkBlockchainSupplement (core : Core) (remoteBlockIds : List Hash) : Bool :=
  remoteBlockIds.any fun hash => (core.findMainChainSegmentContainingBlock hash).isSome

/-- The loop over the raw blocks: each becomes a wallet block under the next height.
Without a wallet block, for bytes that cannot be parsed, the loop ends with an exception. -/
def fillWalletBlocks {ω : Type} (walletBlock : RawBlock → Option ω) :
    Nat → List RawBlock → Bool × List (Nat × ω)
  | _, [] => (true, [])
  | startIndex, rawBlock :: rawBlocks =>
    match walletBlock rawBlock with
    | none => (false, [])
    | some block =>
      let rest := fillWalletBlocks walletBlock (startIndex + 1) rawBlocks
      (rest.1, (startIndex, block) :: rest.2)

def actualBlockCount (blockCount : Nat) : Nat :=
  if min 100 blockCount = 0 then 100 else min 100 blockCount

/-- What `getWalletSyncData` does once it has the start index. -/
def sendBlocks {ω : Type} (walletBlock : RawBlock → Option ω) (core : Core)
    (startIndex actualBlockCount : Nat) : Option (Bool × List (Nat × ω)) := do
  let main ← core.chainsLeaves.head?
  let mainChain ← core.chainsStorage[main]?
  let currentIndex := mainChain.getTopBlockIndex
  -- wraps around when the start is above the top, where it is not used
  let blockDifference := currentIndex - startIndex
  let endIndex := min actualBlockCount (blockDifference + 1) + startIndex
  if currentIndex < startIndex then some (true, [])
  else
    let rawBlocks ← Lineage.getBlocksByHeight startIndex endIndex (core.lineage main)
    some (fillWalletBlocks walletBlock startIndex rawBlocks)

/-- `getWalletSyncData`, which catches exceptions. The height for a timestamp is looked up
in the indexes of the main chain. -/
def getWalletSyncData {ω : Type} (walletBlock : RawBlock → Option ω)
    (getBlockHeightForTimestamp : UInt64 → Option (Bool × Nat)) (core : Core)
    (knownBlockHashes : List Hash) (startHeight : Nat) (startTimestamp : UInt64)
    (blockCount : Nat) : Bool × List (Nat × ω) :=
  match getBlockHeightForTimestamp startTimestamp with
  | none => (false, [])
  | some (success, timestampBlockHeight) =>
    let timestampBlockHeight := if startTimestamp = 0 then 0 else timestampBlockHeight
    if startTimestamp ≠ 0 ∧ !success then (true, [])
    else
      let firstBlockHeight := if startHeight = 0 then timestampBlockHeight else startHeight
      if knownBlockHashes ≠ [] ∧ !core.checkBlockchainSupplement knownBlockHashes then (false, [])
      else
        let blocks := do
          let lastKnownBlockHashHeight ← core.findBlockchainSupplement knownBlockHashes
          let startIndex := max
            (if lastKnownBlockHashHeight = 0 then 0 else lastKnownBlockHashHeight + 1)
            firstBlockHeight
          core.sendBlocks walletBlock startIndex (actualBlockCount blockCount)
        blocks.getD (false, [])

end Core

/-! ### Slices through the segments -/

section Stacked
variable {segments : List Segment} {items : List BlockEntry} {first last maxIndex : Nat}

private theorem length_slice_le : (slice items first last).length ≤ last - first :=
  length_take_le _ _

private theorem slice_succ (low : first ≤ last) (inside : last < items.length) :
    slice items first (last + 1) = slice items first last ++ [items[last]] := by
  rw [← slice_append_slice low (le_succ last)]
  unfold slice
  rw [Nat.succ_sub (Nat.le_refl last), Nat.sub_self, drop_eq_getElem_cons inside,
    take_succ_cons, take_zero]

private theorem takeDown_eq {read : Nat → Option RawBlock}
    (reads : ∀ index, read index = (items[index]?).map rawBlock)
    (inside : maxIndex < items.length) (blocks : List RawBlock) :
    Lineage.takeDown read first maxIndex blocks
      = some (blocks ++ ((slice items first (maxIndex + 1)).map rawBlock).reverse,
        if first ≤ maxIndex then first - 1 else maxIndex) := by
  induction maxIndex generalizing blocks with
  | zero =>
    unfold takeDown
    split
    · rename_i low
      rw [slice_succ low inside, slice_eq_nil (zero_le _), reads,
        getElem?_eq_getElem inside, le_zero.mp low]
      simp
    · rw [slice_eq_nil (by omega)]
      simp
  | succ maxIndex ih =>
    unfold takeDown
    split
    · rename_i low
      rw [reads, getElem?_eq_getElem inside, slice_succ low inside]
      simp only [map_some, bind_eq_bind, bind_some,
        ih (lt_of_succ_lt inside), map_append, reverse_append, append_assoc]
      congr 2
      split <;> omega
    · rw [slice_eq_nil (by omega)]
      simp

private theorem Stacked.takeFrom {cache : Segment} {parents : List Segment}
    (stacked : Stacked (cache :: parents) items) (positive : 0 < items.length) {minIndex : Nat}
    (inside : maxIndex < items.length ∨ maxIndex < minIndex) (blocks : List RawBlock) :
    Lineage.takeFrom minIndex cache parents maxIndex blocks
      = some (blocks ++ ((slice items (max minIndex cache.getStartBlockIndex)
          (maxIndex + 1)).map rawBlock).reverse,
        if max minIndex cache.getStartBlockIndex ≤ maxIndex then
          max minIndex cache.getStartBlockIndex - 1 else maxIndex) := by
  obtain ⟨_, _, same, length⟩ := stacked.length_eq
  cases same
  unfold Lineage.takeFrom Segment.getTopBlockIndex Segment.getBlockCount
  split
  · exact takeDown_eq (stacked.getBlockByIndex ·) (by omega) blocks
  · rw [slice_eq_nil (by omega), if_neg (by omega)]
    simp

section
variable (stacked : Stacked segments items)
  (present : ∀ cache, Segment.database cache ∈ segments → cache.infos ≠ [])
include stacked present

/-- What is still to be read lies in the segments that follow, and there is room for it. -/
private theorem Stacked.getBlocks {minIndex count : Nat}
    {blocks : List RawBlock} (inside : maxIndex < items.length ∨ maxIndex < minIndex)
    (room : blocks.length + (maxIndex + 1 - minIndex) ≤ count) :
    Lineage.getBlocks minIndex count segments maxIndex blocks
      = some (blocks ++ ((slice items minIndex (maxIndex + 1)).map rawBlock).reverse) := by
  induction stacked generalizing maxIndex blocks with
  | database cache =>
    unfold getBlocks
    rw [(Stacked.database cache).takeFrom ((Stacked.database cache).length_pos present) inside]
    simp [Segment.getStartBlockIndex, getBlocks]
  | @memory parents below cache stacked start ih =>
    have presentBelow : ∀ cache, Segment.database cache ∈ parents → cache.infos ≠ [] :=
      fun cache member => present cache (mem_cons_of_mem _ member)
    have positive := stacked.length_pos presentBelow
    unfold Lineage.getBlocks
    rw [(stacked.memory start).takeFrom (by rw [length_append]; omega) inside]
    rw [length_append] at inside
    change (if _ then _ else _) = _
    generalize isLow : max minIndex (Segment.memory cache).getStartBlockIndex = low
    generalize isNext : (if low ≤ maxIndex then low - 1 else maxIndex) = next
    change max minIndex cache.startIndex = low at isLow
    have parts : slice (below ++ cache.blocks) minIndex (next + 1)
        ++ slice (below ++ cache.blocks) low (maxIndex + 1)
        = slice (below ++ cache.blocks) minIndex (maxIndex + 1) := by
      split at isNext
      · rw [← isNext, Nat.sub_add_cancel (by omega), slice_append_slice (by omega) (by omega)]
      · have nothing : slice (below ++ cache.blocks) low (maxIndex + 1) = [] :=
          slice_eq_nil (by omega)
        rw [← isNext, nothing, append_nil]
    rw [← parts, map_append, reverse_append, ← append_assoc]
    split
    · rename_i filled
      have lengths := congrArg length parts
      simp only [length_append, length_reverse, length_map] at filled lengths
      have nothing : slice (below ++ cache.blocks) minIndex (next + 1) = [] := by
        have := @length_slice_le (below ++ cache.blocks) minIndex (maxIndex + 1)
        exact length_eq_zero_iff.mp (by omega)
      rw [nothing]
      simp
    · have same : slice (below ++ cache.blocks) minIndex (next + 1)
          = slice below minIndex (next + 1) := by
        by_cases nothing : next + 1 ≤ minIndex
        · rw [slice_eq_nil nothing, slice_eq_nil nothing]
        · exact slice_append_left _ (by split at isNext <;> omega)
      have taken := @length_slice_le (below ++ cache.blocks) low (maxIndex + 1)
      rw [same]
      apply ih presentBelow
      · split at isNext <;> omega
      · simp only [length_append, length_reverse, length_map]
        split at isNext <;> omega

theorem Stacked.getBlockHashes
    {startBlockIndex : Nat} (inside : startBlockIndex < items.length) (maxCount : Nat) :
    Lineage.getBlockHashes startBlockIndex maxCount segments
      = some (((items.drop startBlockIndex).take maxCount).map (·.info.blockHash)) := by
  induction stacked with
  | database cache =>
    unfold Lineage.getBlockHashes
    have length : cache.blocks.length = cache.entries.length := by
      simp [entries]
    simp only [infos_eq, getElem?_map, Option.map_map]
    unfold getTopBlockIndex
    rw [mapM_range'_getElem? _ _ _ _ (by omega)]
    simp only [Option.some.injEq]
    congr 1
    simp
    omega
  | @memory parents below cache stacked start ih =>
    unfold Lineage.getBlockHashes
    split
    · rw [ih (fun cache member => present cache (mem_cons_of_mem _ member)) (by omega)]
      rw [drop_append_of_le_length (by omega), take_append]
      simp
      omega
    · rw [drop_append, drop_eq_nil_of_le (by omega), start]
      simp [min_comm]

end

theorem Stacked.getBlocksByHeight (stacked : Stacked segments items) {startHeight endHeight : Nat}
    (inside : endHeight ≤ items.length) :
    Lineage.getBlocksByHeight startHeight endHeight segments
      = some ((slice items startHeight endHeight).map rawBlock) := by
  induction stacked generalizing endHeight with
  | database cache =>
    have length : cache.blocks.length = cache.entries.length := by
      simp [entries]
    have all : (range' startHeight (endHeight - startHeight)).countP
        (· < cache.blocks.length) = endHeight - startHeight := by
      rw [countP_eq_length.mpr, length_range']
      intro index member
      rw [mem_range'_1] at member
      exact decide_eq_true (by omega)
    unfold Lineage.getBlocksByHeight
    by_cases low : startHeight ≤ endHeight
    · rw [all, mapM_range'_getElem? _ _ _ _ (by omega)]
      simp [slice, entries, map_drop, map_take, Function.comp_def]
    · rw [all, slice_eq_nil (by omega), Nat.sub_eq_zero_of_le (by omega)]
      rfl
  | @memory parents below cache stacked start ih =>
    rw [length_append] at inside
    unfold Lineage.getBlocksByHeight
    split
    · rw [ih (by omega), slice_append_left _ (by omega)]
    · have upper : ∀ first, slice (below ++ cache.blocks) (below.length + first) endHeight
          = slice cache.blocks first (endHeight - below.length) := by
        intro first
        have isEnd : endHeight = below.length + (endHeight - below.length) := by omega
        rw [isEnd, slice_append_right, Nat.add_sub_cancel_left]
      rw [start, min_eq_left inside]
      split
      · have parts : slice (below ++ cache.blocks) startHeight endHeight
            = slice below startHeight below.length
              ++ slice cache.blocks 0 (endHeight - below.length) := by
          rw [← slice_append_left cache.blocks (le_refl _), ← upper 0, add_zero,
            slice_append_slice (by omega) (by omega)]
        rw [ih (le_refl _), parts, max_eq_right (by omega)]
        simp
      · obtain ⟨offset, rfl⟩ := Nat.exists_eq_add_of_le (show below.length ≤ startHeight by omega)
        rw [max_eq_left (by omega), upper]
        simp

end Stacked

/-! ### Slices of the main chain -/

/-- The position of the first listed hash that is on the chain; an empty list stands for
the genesis block. -/
def LastKnown (chain : List BlockEntry) (known : List Hash) (last : Nat) : Prop :=
  known = [] ∧ last = 0 ∨ ∃ before hash after, known = before ++ hash :: after ∧
    (∀ other ∈ before, ∀ index, hashAt chain index ≠ some other) ∧ hashAt chain last = some hash

/-- The start that is asked for: a height, or else the height for a timestamp. Nothing is
asked for when there is no height for the timestamp. -/
def requestedStart (getBlockHeightForTimestamp : UInt64 → Option (Bool × Nat))
    (startHeight : Nat) (startTimestamp : UInt64) : Option Nat :=
  (getBlockHeightForTimestamp startTimestamp).bind fun (success, height) =>
    if startTimestamp = 0 then some startHeight
    else if success then some (if startHeight = 0 then height else startHeight)
    else none

/-- Nothing without a start or when all hashes are unknown, and otherwise the blocks from the
start that is asked for, or from the successor of the known block if that is higher. The
successor of the genesis block does not count. -/
def SendsSlice {ω : Type} (walletBlock : RawBlock → Option ω) (chain : List BlockEntry)
    (known : List Hash) (requested : Option Nat) (count : Nat) (sent : Bool × List (Nat × ω)) :
    Prop :=
  match requested with
  | none => sent.2 = []
  | some requested => sent = (false, []) ∧ known ≠ [] ∧
        (∀ hash ∈ known, ∀ index, hashAt chain index ≠ some hash) ∨
      ∃ last, LastKnown chain known last ∧
        let start := max (if last = 0 then 0 else last + 1) requested
        sent = Core.fillWalletBlocks walletBlock start
          (((chain.drop start).take count).map rawBlock)

namespace Core
variable {primitives : Primitives} {core : Core} {main : SegmentPtr} {segment : Segment}
  {link : BlockEntry → BlockEntry → Prop}

section
variable (sound : core.TreeSound link)
include sound

private theorem database_present (cache : DatabaseBlockchainCache)
    (member : Segment.database cache ∈ core.lineage main) : cache.infos ≠ [] := by
  obtain ⟨ptr, -, found⟩ := mem_filterMap.mp member
  have positive := sound.tree.items_length_pos (tree_found found)
  intro empty
  rw [infos_eq, map_eq_nil_iff] at empty
  change 0 < cache.entries.length at positive
  rw [empty] at positive
  exact lt_irrefl _ positive

section
variable (isMain : core.chainsLeaves.head? = some main)
include isMain

private theorem main_stacked :
    ∃ segment, core.chainsStorage[main]? = some segment ∧
      segment.getTopBlockIndex + 1 = (core.chain main).length ∧
      Stacked (core.lineage main) (core.chain main) := by
  obtain ⟨segment, found, -⟩ := leaf_found sound (mem_of_mem_head? isMain)
  obtain ⟨above, items, line, -, stacked, length⟩ := sound.stacked found
  have positive := sound.tree.items_length_pos (tree_found found)
  change 0 < segment.entries.length at positive
  rw [chain_eq sound line]
  refine ⟨segment, found, ?_, stacked⟩
  unfold Segment.getTopBlockIndex Segment.getBlockCount
  omega

private theorem findBlockchainSupplement_cases (known : List Hash) :
    (∃ last, core.findBlockchainSupplement known = some last ∧
      LastKnown (core.chain main) known last ∧
      ¬(known ≠ [] ∧ (!core.checkBlockchainSupplement known) = true)) ∨
    (known ≠ [] ∧ (!core.checkBlockchainSupplement known) = true) ∧
      ∀ hash ∈ known, ∀ index, hashAt (core.chain main) index ≠ some hash := by
  unfold findBlockchainSupplement checkBlockchainSupplement
  by_cases empty : known = []
  · exact .inl ⟨0, by rw [if_pos empty], .inl ⟨empty, rfl⟩, fun ⟨present, _⟩ => present empty⟩
  cases first : known.find? fun hash => (core.findMainChainSegmentContainingBlock hash).isSome with
  | none =>
    rw [find?_eq_none] at first
    refine .inr ⟨⟨empty, by simpa using first⟩, fun hash member index isHash => ?_⟩
    exact first hash member (found_of_hashAt isMain isHash)
  | some hash =>
    obtain ⟨located, before, after, rfl, unknown⟩ := find?_eq_some_iff_append.mp first
    obtain ⟨ptr, isPtr⟩ := isSome_iff_exists.mp located
    obtain ⟨holder, last, isHolder, isLast, atLast⟩ := hashAt_of_found sound isMain isPtr
    refine .inl ⟨last, by simp [isPtr, isHolder, isLast],
      .inr ⟨before, hash, after, rfl, fun other member index isHash => ?_, atLast⟩, ?_⟩
    · have := unknown other member
      rw [found_of_hashAt isMain isHash] at this
      cases this
    · simp [located]

private theorem sendBlocks_eq
    {ω : Type} (walletBlock : RawBlock → Option ω) (start count : Nat) :
    core.sendBlocks walletBlock start count = some (fillWalletBlocks walletBlock start
      ((((core.chain main).drop start).take count).map rawBlock)) := by
  obtain ⟨segment, found, top, stacked⟩ := main_stacked sound isMain
  unfold sendBlocks
  simp only [isMain, found, bind_eq_bind, bind_some]
  split
  · rw [drop_eq_nil_of_le (by omega), take_nil]
    rfl
  · rw [stacked.getBlocksByHeight (by omega)]
    have same : slice (core.chain main) start
        (min count (segment.getTopBlockIndex - start + 1) + start)
          = ((core.chain main).drop start).take count := by
      unfold slice
      rw [take_eq_take_iff, length_drop]
      omega
    rw [same]
    rfl

private theorem getBlocks_eq {minIndex count : Nat}
    (narrow : minIndex + count < 2 ^ 32) : core.getBlocks minIndex count
      = some ((((core.chain main).drop minIndex).take count).map rawBlock) := by
  obtain ⟨segment, found, top, stacked⟩ := main_stacked sound isMain
  unfold getBlocks
  split
  · simp only [isMain, found, bind_eq_bind, bind_some]
    rw [mod_eq_of_lt (by omega), stacked.getBlocks (database_present sound) (by omega)]
    · rw [nil_append, map_some, reverse_reverse]
      congr 2
      unfold slice
      rw [take_eq_take_iff, length_drop]
      omega
    · rw [length_nil]
      omega
  · have none : count = 0 := by omega
    rw [none, take_zero]
    rfl

private theorem getWalletSyncData_sendsSlice {ω : Type} (walletBlock : RawBlock → Option ω)
    (heights : UInt64 → Option (Bool × Nat)) (known : List Hash) (startHeight : Nat)
    (startTimestamp : UInt64) (blockCount : Nat) :
    SendsSlice walletBlock (core.chain main) known
      (requestedStart heights startHeight startTimestamp) (actualBlockCount blockCount)
      (core.getWalletSyncData walletBlock heights known startHeight startTimestamp blockCount) := by
  unfold getWalletSyncData requestedStart
  cases heights startTimestamp with
  | none => exact rfl
  | some answer =>
    obtain ⟨success, height⟩ := answer
    simp only [bind_some]
    by_cases missing : startTimestamp ≠ 0 ∧ (!success) = true
    · rw [if_pos missing, if_neg missing.1, if_neg (by simpa using missing.2)]
      exact rfl
    have requested : (if startTimestamp = 0 then some startHeight
        else if success = true then some (if startHeight = 0 then height else startHeight)
        else none)
        = some (if startHeight = 0 then if startTimestamp = 0 then 0 else height
          else startHeight) := by
      by_cases noTime : startTimestamp = 0
      · split <;> simp_all
      · rw [if_neg noTime, if_neg noTime, if_pos (by simpa [noTime] using missing)]
    rw [requested, if_neg missing]
    obtain ⟨last, isLast, lastKnown, checked⟩ | ⟨refused, unknown⟩ :=
      findBlockchainSupplement_cases sound isMain known
    · rw [if_neg checked, isLast]
      simp only [bind_eq_bind, bind_some, sendBlocks_eq sound isMain, getD_some]
      exact .inr ⟨last, lastKnown, rfl⟩
    · rw [if_pos refused]
      exact .inl ⟨rfl, refused.1, unknown⟩

end
end

end Core
end Mevacoin
