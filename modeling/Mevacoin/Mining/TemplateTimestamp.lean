/-
The timestamp of a block template against the lower timestamp check. The two change to
a short window at different heights.
-/

import Mevacoin.Mining.BlockTemplate

namespace Mevacoin
open List Parameters DatabaseBlockchainCache

def newestTimestamps (count : Nat) (items : List BlockEntry) : List UInt64 :=
  (slice (items.map BlockEntry.info) (items.length - count) items.length).map
    CachedBlockInfo.timestamp

def templateWindow (height : Nat) : Nat :=
  if height ≥ lwma2DifficultyBlockIndex then timestampCheckWindowV3 else timestampCheckWindow

/-- The check of `validateBlock` for a block that is too far in the past. -/
def PassesLowerCheck (segments : List Segment) (previousBlockIndex : Nat) (timestamp : UInt64) :
    Prop :=
  let window := Currency.timestampCheckWindow (previousBlockIndex + 1)
  let timestamps := Lineage.getLastTimestamps segments window previousBlockIndex true
  ¬(timestamps.length ≥ window ∧ timestamp < medianValue timestamps)

def raisedTo (median now : UInt64) : UInt64 := if now < median then median else now

theorem raisedTo_lt_iff {median now bound : UInt64} :
    raisedTo median now < bound ↔ ¬(bound ≤ now ∨ bound ≤ median) := by
  simp only [raisedTo, UInt64.lt_iff_toNat_lt, UInt64.le_iff_toNat_le]
  split <;> omega

private theorem flatMap_slices {α : Type} (items : List α) (first count : Nat) :
    ((range count).flatMap fun offset => slice items (first + offset) (first + offset + 1))
      = slice items first (first + count) := by
  induction count with
  | zero => exact (slice_eq_nil (Nat.le_refl _)).symm
  | succ count ih =>
    rw [range_succ, flatMap_append, ih, flatMap_singleton]
    exact slice_append_slice (by omega) (by omega)

section Chain
variable {core : Core} {main : SegmentPtr} {items : List BlockEntry}

theorem Stacked.getLastTimestamps {segments : List Segment} (stacked : Stacked segments items)
    (units : UnitsCached segments) {count blockIndex : Nat} (narrow : count < 2 ^ 32)
    (inside : blockIndex < items.length) :
    Lineage.getLastTimestamps segments count blockIndex true
      = (slice (items.map BlockEntry.info) (blockIndex + 1 - count) (blockIndex + 1)).map
        CachedBlockInfo.timestamp := by
  rw [Lineage.getLastTimestamps, stacked.getLastUnits units count blockIndex true narrow inside,
    lastInfos, if_pos rfl, Nat.max_eq_right (Nat.zero_le _)]

theorem templateTimestamp_eq (stacked : Stacked (core.lineage main) items)
    (units : UnitsCached (core.lineage main)) (now : UInt64) :
    core.templateTimestamp main now items.length
      = if items.length ≥ templateWindow items.length then
          raisedTo (medianValue (newestTimestamps (templateWindow items.length) items)) now
        else now := by
  rw [Core.templateTimestamp, ← templateWindow]
  generalize templateWindow items.length = window
  split
  · next full =>
    have single : ∀ offset ∈ range window,
        (Lineage.getLastTimestamps (core.lineage main) 1 (items.length - window + offset)
          true).take 1
          = (slice (items.map BlockEntry.info) (items.length - window + offset)
            (items.length - window + offset + 1)).map CachedBlockInfo.timestamp := by
      intro offset member
      have below := mem_range.mp member
      rw [stacked.getLastTimestamps units (by decide) (by omega), Nat.add_sub_cancel]
      apply take_of_length_le
      rw [length_map, slice]
      exact (length_take_le _ _).trans (by omega)
    rw [flatMap_congr single, ← map_flatMap, flatMap_slices, Nat.sub_add_cancel full]
    rfl
  · rfl

theorem passesLowerCheck_iff (stacked : Stacked (core.lineage main) items)
    (units : UnitsCached (core.lineage main)) (timestamp : UInt64) :
    PassesLowerCheck (core.lineage main) (items.length - 1) timestamp ↔
      ¬(items.length ≥ Currency.timestampCheckWindow items.length ∧
        timestamp < medianValue
          (newestTimestamps (Currency.timestampCheckWindow items.length) items)) := by
  have positive := stacked.length_pos fun cache member => (units cache member).2
  have top : items.length - 1 + 1 = items.length := by omega
  simp only [PassesLowerCheck, top]
  rw [stacked.getLastTimestamps units (Currency.timestampCheckWindow_narrow _) (by omega),
    top, length_map, length_slice (by rw [length_map])]
  have long : items.length - (items.length - Currency.timestampCheckWindow items.length)
      ≥ Currency.timestampCheckWindow items.length ↔
      items.length ≥ Currency.timestampCheckWindow items.length := by omega
  rw [long]
  rfl

end Chain

/-! ### Chains given by their timestamps -/

def timedCache (timestamps : List UInt64) : DatabaseBlockchainCache :=
  { blocks := timestamps.map fun timestamp =>
      { info :=
          { blockHash := ⟨0⟩, timestamp := timestamp, cumulativeDifficulty := 0,
            alreadyGeneratedCoins := 0, alreadyGeneratedTransactions := 0, blockSize := 0 }
        rawBlock := ⟨[], []⟩, transactionHashes := [], spentKeyImages := [] }
    blockIndexBySpentKeyImage := fun _ => none
    cachedTransactions := fun _ => none
    keyOutputs := fun _ => []
    unitsCache := []
    children := [] }

def timedCore (timestamps : List UInt64) : Core :=
  { chainsStorage := [.database (timedCache timestamps)]
    chainsLeaves := [0]
    mainChainSet := [0]
    mainChainStorage := [] }

variable {timestamps : List UInt64}

private theorem timedCore_stacked :
    Stacked ((timedCore timestamps).lineage 0) (timedCache timestamps).entries :=
  .database _

private theorem timedCore_units (nonempty : timestamps ≠ []) :
    UnitsCached ((timedCore timestamps).lineage 0) := by
  intro cache member
  cases mem_singleton.mp member
  exact ⟨nil_suffix, by simpa [timedCache, infos] using nonempty⟩

private theorem newestTimestamps_timed (count : Nat) :
    newestTimestamps count (timedCache timestamps).entries
      = slice timestamps (timestamps.length - count) timestamps.length := by
  simp only [newestTimestamps, ← slice_map, map_map, entries, timedCache, length_map]
  congr 1
  exact map_id' timestamps

def fallingTimestamps : List UInt64 := List.replicate 49 1000 ++ List.replicate 11 0

end Mevacoin
