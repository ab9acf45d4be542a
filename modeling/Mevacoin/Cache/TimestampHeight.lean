/-
The height from which a wallet scans for a timestamp. A memory segment answers itself only
if all its blocks are late enough, without asking whether blocks below it are, and the
database answers only for days that have a block.
-/

import Mevacoin.Cache.ClosestTimestamps

namespace Mevacoin
open List Nat Option

namespace IndexedDatabase
variable {root : IndexedDatabase} {timestamp : UInt64}

/-- The answer of the first of some memory segments on top of each other and on the database;
`none` is an exception. -/
def heightOnPath (root : IndexedDatabase) (timestamp : UInt64) :
    List BlockchainCache → Option (Bool × Nat)
  | [] => root.getBlockHeightForTimestamp timestamp
  | cache :: parents => do
      let back ← cache.blocks.getLast?
      let front ← cache.blocks.head?
      if back.info.timestamp < timestamp then some (false, 0)
      else if front.info.timestamp ≥ timestamp then
        some (true, cache.startIndex + BinarySearch.lowerBound
          (fun block => decide (block.info.timestamp < timestamp)) cache.blocks)
      else heightOnPath root timestamp parents

def ownTimestamps (cache : BlockchainCache) : List Nat :=
  cache.blocks.map fun block => block.info.timestamp.toNat

def timestampsOnPath (root : IndexedDatabase) : List BlockchainCache → List Nat
  | [] => root.cache.blocks.map fun stored => stored.info.timestamp.toNat
  | cache :: parents => timestampsOnPath root parents ++ ownTimestamps cache

/-- Every segment has blocks and starts where the ones below it end. -/
def StandsOn (root : IndexedDatabase) : List BlockchainCache → Prop
  | [] => True
  | cache :: parents => cache.blocks ≠ [] ∧
      cache.startIndex = (timestampsOnPath root parents).length ∧ StandsOn root parents

/-- The main chain with nondecreasing timestamps, cut into segments. -/
structure TimedPath where
  root : IndexedDatabase
  segments : List BlockchainCache
  closest : ClosestExact root
  standsOn : StandsOn root segments
  nondecreasing : (timestampsOnPath root segments).Pairwise (· ≤ ·)

namespace TimedPath

def timestamps (path : TimedPath) : List Nat := timestampsOnPath path.root path.segments

def getBlockHeightForTimestamp (path : TimedPath) (timestamp : UInt64) : Option (Bool × Nat) :=
  path.root.heightOnPath timestamp path.segments

/-- No block below the height is late enough, and a height is given if some block is. -/
def MissesNothing (timestamps : List Nat) (timestamp : Nat) (answer : Option (Bool × Nat)) : Prop :=
  (∀ height, answer = some (true, height) → ∀ lower ∈ timestamps.take height, lower < timestamp) ∧
  ((∃ late ∈ timestamps, timestamp ≤ late) → ∃ height, answer = some (true, height))

def DayFound (root : IndexedDatabase) (timestamp : UInt64) : Prop :=
  timestamp.toNat < 2 ^ 63 ∧ OccursIn root.cache.blocks (timestamp / oneDaySeconds * oneDaySeconds)

/-- No block is late enough; or only and all blocks of the leaf are; or the timestamp falls on
a day of the database and, if there is a leaf above it, inside that leaf. -/
def Answered (path : TimedPath) (timestamp : UInt64) : Prop :=
  (∀ early ∈ path.timestamps, early < timestamp.toNat) ∨
  match path.segments with
  | [] => DayFound path.root timestamp
  | cache :: parents =>
    ((∀ late ∈ ownTimestamps cache, timestamp.toNat ≤ late) ∧
      ∀ early ∈ timestampsOnPath path.root parents, early < timestamp.toNat) ∨
    ((∃ early ∈ ownTimestamps cache, early < timestamp.toNat) ∧ parents = [] ∧
      DayFound path.root timestamp)

/-! ### The database -/

theorem getBlockHeightForTimestamp_iff (closest : ClosestExact root) {height : Nat} :
    root.getBlockHeightForTimestamp timestamp = some (true, height) ↔ timestamp.toNat < 2 ^ 63 ∧
      firstOn (timestamp / oneDaySeconds * oneDaySeconds) root.cache.blocks = some height := by
  unfold IndexedDatabase.getBlockHeightForTimestamp roundToMidnight
  rw [← closest.exact]
  by_cases tooLate : timestamp.toNat > 2 ^ 63 - 1
  · rw [if_pos tooLate]
    constructor
    · nofun
    · omega
  · rw [if_neg tooLate, bind_eq_bind, bind_some, and_iff_right (by omega)]
    cases root.closestTimestampBlockIndex.get (timestamp / oneDaySeconds * oneDaySeconds) with
    | none => simp
    | some first => simp

theorem dayFound_iff (closest : ClosestExact root) :
    DayFound root timestamp ↔
      ∃ height, root.getBlockHeightForTimestamp timestamp = some (true, height) := by
  simp only [getBlockHeightForTimestamp_iff closest, exists_and_left, DayFound]
  rw [← Option.isSome_iff_exists, ← Option.ne_none_iff_isSome, ne_eq, firstOn_eq_none, not_not]

theorem early_of_firstOn {blocks : List DatabaseBlock} {blockIndex : Nat}
    (nondecreasing : (blocks.map fun stored => stored.info.timestamp.toNat).Pairwise (· ≤ ·))
    (first : firstOn (timestamp / oneDaySeconds * oneDaySeconds) blocks = some blockIndex) :
    ∀ lower ∈ (blocks.map fun stored => stored.info.timestamp.toNat).take blockIndex,
      lower < timestamp.toNat := by
  intro lower member
  rw [← map_take] at member
  obtain ⟨stored, isStored, rfl⟩ := mem_map.mp member
  obtain ⟨inside, sameDay, before⟩ := findIdx?_eq_some_iff_getElem.mp first
  obtain ⟨index, isIndex, rfl⟩ := mem_iff_getElem.mp isStored
  rw [length_take] at isIndex
  rw [getElem_take]
  have ordered := (pairwise_iff_getElem.mp nondecreasing) index blockIndex
    (by rw [length_map]; omega) (by rwa [length_map]) (by omega)
  rw [getElem_map, getElem_map] at ordered
  have day := congrArg UInt64.toNat (decide_eq_true_eq.mp sameDay)
  have otherDay := mt decide_eq_true (before index (by omega))
  unfold midnightOf at day otherDay
  rw [toNat_midnight, toNat_midnight] at day
  rw [← UInt64.toNat_inj, toNat_midnight, toNat_midnight] at otherDay
  omega

theorem missesNothing_of_early {timestamps : List Nat} {timestamp : Nat}
    (early : ∀ before ∈ timestamps, before < timestamp) (answer : Option (Bool × Nat)) :
    MissesNothing timestamps timestamp answer := by
  refine ⟨fun _ _ lower member => early lower (mem_of_mem_take member), ?_⟩
  rintro ⟨late, member, isLate⟩
  exact absurd (early late member) (not_lt.mpr isLate)

theorem missesNothing_start_iff {below own : List Nat} {timestamp : Nat} :
    MissesNothing (below ++ own) timestamp (some (true, below.length)) ↔
      ∀ early ∈ below, early < timestamp := by
  unfold MissesNothing
  grind

theorem missesNothing_root_iff (closest : ClosestExact root)
    (nondecreasing : (timestampsOnPath root []).Pairwise (· ≤ ·)) (above : List Nat)
    (timestamp : UInt64) :
    MissesNothing (timestampsOnPath root [] ++ above) timestamp.toNat
        (root.getBlockHeightForTimestamp timestamp) ↔
      (∀ early ∈ timestampsOnPath root [] ++ above, early < timestamp.toNat) ∨
        DayFound root timestamp := by
  constructor
  · intro right
    by_cases early : ∀ early ∈ timestampsOnPath root [] ++ above, early < timestamp.toNat
    · exact .inl early
    · push Not at early
      exact .inr ((dayFound_iff closest).mpr (right.2 early))
  · rintro (early | found)
    · exact missesNothing_of_early early _
    · refine ⟨?_, fun _ => (dayFound_iff closest).mp found⟩
      intro height answered
      have first := ((getBlockHeightForTimestamp_iff closest).mp answered).2
      rw [take_append_of_le_length (by
        rw [timestampsOnPath, length_map]
        exact le_of_lt (firstOn_lt first))]
      exact early_of_firstOn nondecreasing first

/-! ### The whole path -/

theorem heightOnPath_cons (root : IndexedDatabase) {cache : BlockchainCache}
    (nonempty : cache.blocks ≠ []) (nondecreasing : (ownTimestamps cache).Pairwise (· ≤ ·))
    (parents : List BlockchainCache) (timestamp : UInt64) :
    root.heightOnPath timestamp (cache :: parents)
      = if ∀ own ∈ ownTimestamps cache, own < timestamp.toNat then some (false, 0)
        else if ∀ own ∈ ownTimestamps cache, timestamp.toNat ≤ own then
          some (true, cache.startIndex)
        else root.heightOnPath timestamp parents := by
  obtain ⟨back, isBack⟩ := ne_none_iff_exists'.mp (mt getLast?_eq_none_iff.mp nonempty)
  obtain ⟨front, isFront⟩ := ne_none_iff_exists'.mp (mt head?_eq_none_iff.mp nonempty)
  have tooEarly : (∀ own ∈ ownTimestamps cache, own < timestamp.toNat) ↔
      back.info.timestamp < timestamp := by
    obtain ⟨init, isInit⟩ := getLast?_eq_some_iff.mp isBack
    unfold ownTimestamps at nondecreasing ⊢
    rw [isInit, map_append, pairwise_append] at nondecreasing
    rw [isInit, map_append, forall_mem_append, map_singleton,
      forall_mem_singleton, UInt64.lt_iff_toNat_lt]
    refine ⟨And.right, fun last => ⟨fun own member => ?_, last⟩⟩
    exact lt_of_le_of_lt (nondecreasing.2.2 own member _ mem_cons_self) last
  have lateEnough : (∀ own ∈ ownTimestamps cache, timestamp.toNat ≤ own) ↔
      front.info.timestamp ≥ timestamp := by
    obtain ⟨rest, isRest⟩ := head?_eq_some_iff.mp isFront
    unfold ownTimestamps at nondecreasing ⊢
    rw [isRest, map_cons, pairwise_cons] at nondecreasing
    rw [isRest, map_cons, forall_mem_cons, ge_iff_le, UInt64.le_iff_toNat_le]
    refine ⟨And.left, fun first => ⟨first, fun own member => ?_⟩⟩
    exact le_trans first (nondecreasing.1 own member)
  simp only [heightOnPath, isBack, isFront, tooEarly, lateEnough]
  by_cases whole : front.info.timestamp ≥ timestamp
  · have atStart : BinarySearch.lowerBound
        (fun block : BlockEntry => decide (block.info.timestamp < timestamp)) cache.blocks = 0 := by
      apply BinarySearch.lowerBound_eq_zero
      intro block member
      rw [decide_eq_false_iff_not, UInt64.lt_iff_toNat_lt, not_lt]
      exact lateEnough.mpr whole _ (mem_map_of_mem member)
    simp [atStart]
  · simp [whole]

/-- The answer is right exactly if no block is late enough, if exactly the blocks of the leaf
are, or if the database has a block on the day and the leaf, if any, an earlier one. -/
theorem missesNothing_iff (path : TimedPath) (timestamp : UInt64) :
    MissesNothing path.timestamps timestamp.toNat (path.getBlockHeightForTimestamp timestamp) ↔
      path.Answered timestamp := by
  obtain ⟨root, segments, closest, standsOn, nondecreasing⟩ := path
  unfold Answered timestamps getBlockHeightForTimestamp
  cases segments with
  | nil =>
    have answer := missesNothing_root_iff closest nondecreasing [] timestamp
    rwa [append_nil] at answer
  | cons cache parents =>
    obtain ⟨belowOrdered, ownOrdered, across⟩ := pairwise_append.mp nondecreasing
    obtain ⟨first, isFirst⟩ := exists_mem_of_ne_nil (ownTimestamps cache)
      (by simpa [ownTimestamps] using standsOn.1)
    by_cases all : ∀ early ∈ timestampsOnPath root (cache :: parents), early < timestamp.toNat
    · exact ⟨fun _ => .inl all, fun _ => missesNothing_of_early all _⟩
    rw [or_iff_right all, heightOnPath_cons root standsOn.1 ownOrdered, if_neg (by
      -- what lies below the leaf is not later than its blocks
      intro own
      apply all
      intro early member
      rcases mem_append.mp member with below | here
      · exact lt_of_le_of_lt (across early below first isFirst) (own first isFirst)
      · exact own early here)]
    by_cases whole : ∀ own ∈ ownTimestamps cache, timestamp.toNat ≤ own
    · rw [if_pos whole, standsOn.2.1]
      refine missesNothing_start_iff.trans ?_
      grind
    · rw [if_neg whole]
      push Not at whole
      obtain ⟨early, isEarly, tooEarly⟩ := whole
      cases parents with
      | nil =>
        refine (missesNothing_root_iff closest belowOrdered _ timestamp).trans ?_
        refine (or_iff_right all).trans ?_
        grind
      | cons parent rest =>
        -- every block of the parent is too early
        have none : root.heightOnPath timestamp (parent :: rest) = some (false, 0) := by
          rw [heightOnPath_cons root standsOn.2.2.1 (pairwise_append.mp belowOrdered).2.1, if_pos]
          intro own isOwn
          exact lt_of_le_of_lt (across own (mem_append_right _ isOwn) early isEarly)
            tooEarly
        unfold MissesNothing
        push Not at all
        grind

def timedEntry (timestamp : UInt64) : BlockEntry :=
  { info := { (timedGenesis 100 200).info with timestamp := timestamp }
    rawBlock := codedBlock 0 }

/-- A leaf with two blocks on top of three blocks of the database. -/
def timedLeaf : BlockchainCache :=
  { BlockchainCache.create 0 3 with blocks := [timedEntry 300, timedEntry 200000] }

/-- For 150 the leaf answers with its first block, although the block of 200 below it is late
enough; for 100000 there is no answer, although the last block is late enough. -/
theorem boundary_misses_blocks :
    ∃ path : TimedPath, path.timestamps = [0, 100, 200, 300, 200000] ∧
      path.getBlockHeightForTimestamp 150 = some (true, 3) ∧
      path.getBlockHeightForTimestamp 100000 = some (false, 0) := by
  have built : (timedDatabase 100 200).map (fun root =>
      (timestampsOnPath root [], root.heightOnPath 150 [timedLeaf],
        root.heightOnPath 100000 [timedLeaf]))
      = some ([0, 100, 200], some (true, 3), some (false, 0)) := by
    decide +kernel
  obtain ⟨root, isRoot, answers⟩ := map_eq_some_iff.mp built
  obtain ⟨below, missed, unanswered⟩ : _ ∧ _ ∧ _ := by simpa using answers
  have closest := closestExact_of_run (timedDatabase_reached (fun _ _ _ => trivial) isRoot)
  have whole : timestampsOnPath root [timedLeaf] = [0, 100, 200, 300, 200000] := by
    rw [timestampsOnPath, below]
    rfl
  refine ⟨⟨root, [timedLeaf], closest, ⟨cons_ne_nil _ _, ?_, trivial⟩, ?_⟩, whole, missed,
    unanswered⟩
  · rw [below]
    rfl
  · rw [whole]
    decide

end TimedPath
end IndexedDatabase
end Mevacoin
