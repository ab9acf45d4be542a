/-
What the windows of recent blocks contain. However the blocks are spread over
segments and caches, a window holds the newest records up to the given block,
without the genesis block on request.
-/

import Mevacoin.Core.WellFormed

namespace Mevacoin
open List Nat Currency BlockEntry DatabaseBlockchainCache

/-! ### Slices -/

def slice {α : Type} (items : List α) (first last : Nat) : List α :=
  (items.drop first).take (last - first)

section Slice
variable {α : Type} {items : List α} {first middle last : Nat}

theorem slice_eq_nil (empty : last ≤ first) : slice items first last = [] := by
  unfold slice
  rw [Nat.sub_eq_zero_of_le empty, take_zero]

theorem length_slice (inside : last ≤ items.length) :
    (slice items first last).length = last - first := by
  unfold slice
  rw [length_take, length_drop]
  omega

theorem slice_append_slice (low : first ≤ middle) (high : middle ≤ last) :
    slice items first middle ++ slice items middle last = slice items first last := by
  unfold slice
  have whole : last - first = (middle - first) + (last - middle) := by omega
  have rest : items.drop middle = (items.drop first).drop (middle - first) := by
    rw [drop_drop]
    congr 1
    omega
  rw [whole, take_add, rest]

theorem slice_drop (count : Nat) :
    slice (items.drop count) first last = slice items (count + first) (count + last) := by
  unfold slice
  rw [drop_drop]
  congr 1
  omega

theorem slice_append_left (more : List α) (inside : last ≤ items.length) :
    slice (items ++ more) first last = slice items first last := by
  unfold slice
  by_cases low : first ≤ items.length
  · rw [drop_append_of_le_length low, take_append_of_le_length]
    rw [length_drop]
    omega
  · rw [Nat.sub_eq_zero_of_le (by omega), take_zero, take_zero]

theorem slice_append_right (more : List α) :
    slice (items ++ more) (items.length + first) (items.length + last) = slice more first last := by
  rw [← slice_drop, drop_left]

theorem slice_take {count : Nat} (inside : last ≤ count) :
    slice (items.take count) first last = slice items first last := by
  unfold slice
  rw [drop_take, take_take, min_eq_left (by omega)]

theorem slice_map {β : Type} (f : α → β) :
    slice (items.map f) first last = (slice items first last).map f := by
  unfold slice
  rw [← map_drop, ← map_take]

end Slice

/-! ### The newest records -/

/-- The newest `count` records up to a block. -/
def lastInfos (count blockIndex : Nat) (useGenesis : Bool) (infos : List CachedBlockInfo) :
    List CachedBlockInfo :=
  slice infos (max (if useGenesis then 0 else 1) (blockIndex + 1 - count)) (blockIndex + 1)

namespace DatabaseBlockchainCache
variable {cache : DatabaseBlockchainCache} {count blockIndex : Nat} {useGenesis : Bool}

theorem getLastDbUnits_eq (narrow : count < 2 ^ 32) :
    cache.getLastDbUnits blockIndex count useGenesis
      = lastInfos count blockIndex useGenesis cache.infos := by
  unfold getLastDbUnits lastInfos slice
  rw [mod_eq_of_lt narrow]
  have start : (if blockIndex + 1 - min (blockIndex + 1) count = 0 ∧ (!useGenesis) = true then
        blockIndex + 1 - min (blockIndex + 1) count + 1
      else blockIndex + 1 - min (blockIndex + 1) count)
      = max (if useGenesis then 0 else 1) (blockIndex + 1 - count) := by
    cases useGenesis with
    | true =>
      rw [if_neg (by simp), if_pos rfl]
      omega
    | false =>
      simp only [Bool.not_false, and_true, if_neg Bool.false_ne_true]
      split <;> omega
  simp only [start]

theorem getLastCachedUnits_eq (count : Nat) (useGenesis : Bool)
    (units : cache.unitsCache <:+ cache.infos) (inside : blockIndex < cache.infos.length) :
    ∃ start, cache.getLastCachedUnits blockIndex count useGenesis
        = slice cache.infos start (blockIndex + 1) ∧
      max (if useGenesis then 0 else 1) (blockIndex + 1 - count) ≤ start ∧
      start ≤ blockIndex + 1 := by
  obtain ⟨older, isSuffix⟩ := units
  have lengths : older.length + cache.unitsCache.length = cache.infos.length := by
    rw [← isSuffix, length_append]
  have top : cache.getTopBlockIndex + 1 = cache.infos.length := by
    have same : cache.infos.length = cache.blocks.length := length_map _
    unfold getTopBlockIndex
    omega
  have cut : cache.unitsCache = cache.infos.drop older.length := by
    rw [← isSuffix, drop_left]
  have first : cache.getTopBlockIndex + 1 - cache.unitsCache.length = older.length := by omega
  unfold getLastCachedUnits
  simp only [first]
  split
  · refine ⟨blockIndex + 1, (slice_eq_nil (le_refl _)).symm, ?_, le_refl _⟩
    split <;> omega
  · rename_i present
    -- The genesis record is skipped exactly when the cached window would start with it.
    generalize isSkip : (if (!useGenesis) = true ∧ older.length = 0 ∧
      blockIndex + 1 - min (blockIndex - older.length + 1)
        (min cache.unitsCache.length count) - older.length = 0 then 1 else 0) = skip
    have skipCases : skip ≤ 1 ∧ (useGenesis = false → older.length = 0 →
        blockIndex + 1 - min (blockIndex - older.length + 1)
          (min cache.unitsCache.length count) - older.length = 0 → skip = 1) := by
      subst isSkip
      constructor
      · split <;> omega
      · intro withoutGenesis noOlder atStart
        rw [if_pos ⟨by rw [withoutGenesis]; rfl, noOlder, atStart⟩]
    refine ⟨blockIndex + 1 - min (blockIndex - older.length + 1)
      (min cache.unitsCache.length count) + skip, ?_, ?_, by omega⟩
    · split
      · rw [slice_eq_nil (by omega)]
      · rw [cut, drop_drop]
        congr 1
        · omega
        · congr 1
          omega
    · cases useGenesis with
      | true =>
        rw [if_pos rfl]
        omega
      | false =>
        have skipped := skipCases.2 rfl
        rw [if_neg Bool.false_ne_true]
        omega

theorem getLastUnits_eq (narrow : count < 2 ^ 32) (units : cache.unitsCache <:+ cache.infos)
    (inside : blockIndex < cache.infos.length) :
    cache.getLastUnits count blockIndex useGenesis
      = lastInfos count blockIndex useGenesis cache.infos := by
  obtain ⟨start, isCached, low, high⟩ := getLastCachedUnits_eq count useGenesis units inside
  have available : (if useGenesis = true then blockIndex + 1 else blockIndex)
      = blockIndex + 1 - (if useGenesis = true then 0 else 1) := by
    cases useGenesis <;> rfl
  unfold getLastUnits
  simp only [isCached, length_slice (succ_le_of_lt inside), available,
    getLastDbUnits_eq (lt_of_le_of_lt (sub_le _ _) narrow)]
  unfold lastInfos
  generalize (if useGenesis = true then 0 else 1) = first at low ⊢
  split
  · have same : max first (blockIndex + 1 - count) = start := by omega
    rw [same]
  · have last : blockIndex - (blockIndex.succ - start) + 1 = start := by omega
    have same : max first (start - (count - (blockIndex.succ - start)))
        = max first (blockIndex + 1 - count) := by omega
    rw [last, same, slice_append_slice low high]

end DatabaseBlockchainCache

/-! ### Stacks of segments -/

/-- The database segment at the bottom has blocks and caches its newest ones. -/
def UnitsCached (segments : List Segment) : Prop :=
  ∀ cache, Segment.database cache ∈ segments → cache.unitsCache <:+ cache.infos ∧ cache.infos ≠ []

namespace Stacked
variable {segments : List Segment} {items : List BlockEntry}

theorem length_eq (stacked : Stacked segments items) :
    ∃ segment rest, segments = segment :: rest ∧
      items.length = segment.getStartBlockIndex + segment.entries.length := by
  cases stacked with
  | database cache => exact ⟨_, _, rfl, (zero_add _).symm⟩
  | memory _ start =>
    refine ⟨_, _, rfl, ?_⟩
    rw [length_append]
    exact congrArg (· + _) start.symm

theorem length_pos (stacked : Stacked segments items)
    (present : ∀ cache, Segment.database cache ∈ segments → cache.infos ≠ []) :
    0 < items.length := by
  induction stacked with
  | database cache =>
    have present := present cache mem_cons_self
    rw [infos_eq] at present
    exact length_pos_iff.mpr fun empty => present (by rw [empty]; rfl)
  | memory _ _ ih =>
    have below := ih fun cache member => present cache (mem_cons_of_mem _ member)
    rw [length_append]
    omega

theorem getLastUnits (stacked : Stacked segments items) (units : UnitsCached segments)
    (count blockIndex : Nat) (useGenesis : Bool) (narrow : count < 2 ^ 32)
    (inside : blockIndex < items.length) :
    Lineage.getLastUnits count blockIndex useGenesis segments
      = lastInfos count blockIndex useGenesis (items.map info) := by
  induction stacked generalizing count blockIndex with
  | database cache =>
    have same := infos_eq cache
    rw [← same]
    refine getLastUnits_eq narrow (units cache mem_cons_self).1 ?_
    rw [same, length_map]
    exact inside
  | @memory parents below cache stacked start ih =>
    have unitsBelow : UnitsCached parents :=
      fun cache member => units cache (mem_cons_of_mem _ member)
    have positive := stacked.length_pos fun cache member => (unitsBelow cache member).2
    obtain ⟨parent, rest, isParents, length⟩ := stacked.length_eq
    have top : parent.getTopBlockIndex = below.length - 1 := by
      unfold Segment.getTopBlockIndex Segment.getBlockCount
      omega
    subst isParents
    have infos : (below ++ cache.blocks).map info
        = below.map info ++ cache.blocks.map info := map_append
    have belowLength : (below.map info).length = below.length := length_map _
    have bottom : (if useGenesis = true then 0 else 1) ≤ 1 := by split <;> omega
    unfold Lineage.getLastUnits
    simp only [isEmpty_cons, Bool.false_eq_true, and_false, if_false, Nat.sub_zero,
      Nat.add_zero, top, infos]
    by_cases lower : blockIndex < cache.startIndex
    · rw [if_pos lower, Nat.min_zero, Nat.sub_zero, take_zero, drop_nil,
        append_nil, Nat.min_eq_left (by omega),
        ih unitsBelow count blockIndex narrow (by omega)]
      unfold lastInfos
      rw [slice_append_left _ (by omega)]
      split
      · rfl
      · rw [slice_eq_nil (by omega)]
    · rw [if_neg lower, Nat.min_eq_right (by omega : below.length - 1 ≤ blockIndex),
        ih unitsBelow _ (below.length - 1) (by omega) (by omega)]
      unfold lastInfos
      generalize (if useGenesis = true then 0 else 1) = first at bottom ⊢
      have stop : blockIndex + 1 = below.length + (blockIndex - cache.startIndex + 1) := by
        omega
      have own : ((cache.blocks.map info).take (blockIndex - cache.startIndex + 1)).drop
            (blockIndex - cache.startIndex + 1 - min count (blockIndex - cache.startIndex + 1))
          = slice (below.map info ++ cache.blocks.map info)
            (below.length + (blockIndex - cache.startIndex + 1
              - min count (blockIndex - cache.startIndex + 1))) (blockIndex + 1) := by
        rw [stop, ← belowLength, slice_append_right]
        unfold slice
        rw [drop_take]
      rw [own]
      split
      · have boundary : below.length + (blockIndex - cache.startIndex + 1
            - min count (blockIndex - cache.startIndex + 1)) = below.length := by omega
        have first' : max first (below.length
              - (count - min count (blockIndex - cache.startIndex + 1)))
            = max first (blockIndex + 1 - count) := by omega
        rw [Nat.sub_add_cancel positive, boundary, first',
          ← slice_append_left (cache.blocks.map info) (by omega),
          slice_append_slice (by omega) (by omega)]
      · rw [nil_append]
        congr 1
        omega

end Stacked

theorem Currency.difficultyBlocksCount_narrow (blockMajorVersion height : Nat) :
    difficultyBlocksCountByBlockVersion blockMajorVersion height < 2 ^ 32 := by
  unfold difficultyBlocksCountByBlockVersion difficultyWindowByBlockVersion
    difficultyLagByBlockVersion
  repeat' split
  all_goals decide

theorem Currency.timestampCheckWindow_narrow (height : Nat) :
    timestampCheckWindow height < 2 ^ 32 := by
  unfold timestampCheckWindow
  split <;> decide

theorem rewardBlocksWindow_narrow : Parameters.rewardBlocksWindow < 2 ^ 32 := by decide

def nextDifficulty (ancestors : List BlockEntry) : Option UInt64 :=
  let blockIndex := ancestors.length - 1
  let nextBlockMajorVersion := UpgradeManager.getBlockMajorVersion (blockIndex + 1)
  let infos := lastInfos
    (difficultyBlocksCountByBlockVersion nextBlockMajorVersion blockIndex) blockIndex
    false (ancestors.map info)
  getNextDifficulty nextBlockMajorVersion blockIndex
    (infos.map CachedBlockInfo.timestamp) (infos.map CachedBlockInfo.cumulativeDifficulty)

theorem Stacked.getDifficultyForNextBlock {segments : List Segment} {items : List BlockEntry}
    (stacked : Stacked segments items) (units : UnitsCached segments) {blockIndex : Nat}
    (inside : blockIndex < items.length) :
    Lineage.getDifficultyForNextBlock segments blockIndex
      = nextDifficulty (items.take (blockIndex + 1)) := by
  have length : (items.take (blockIndex + 1)).length - 1 = blockIndex := by
    rw [length_take]
    omega
  unfold Lineage.getDifficultyForNextBlock nextDifficulty Lineage.getLastTimestamps
    Lineage.getLastCumulativeDifficulties
  simp only [length, stacked.getLastUnits units _ _ _ (difficultyBlocksCount_narrow _ _)
    inside, map_take]
  unfold lastInfos
  rw [slice_take (le_refl _)]

end Mevacoin
