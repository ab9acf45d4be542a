/-
The table of the first block of every day. A push records a day that has no block yet. A
split removes the days it finds one after the other from the day of the split block on,
and stops at the first day without a block.
-/

import Mathlib.Data.List.Perm.Subperm
import Mevacoin.Cache.TimestampIndex

namespace Mevacoin
open List Nat
open WriteBatch (Table Batch)

namespace IndexedDatabase
variable {midnight first : UInt64} {blocks : List DatabaseBlock} {splitBlockIndex : Nat}
  {lower : IndexedDatabase}

def midnightOf (stored : DatabaseBlock) : UInt64 :=
  stored.info.timestamp / oneDaySeconds * oneDaySeconds

def firstOn (midnight : UInt64) (blocks : List DatabaseBlock) : Option Nat :=
  blocks.findIdx? fun stored => midnightOf stored = midnight

def OccursIn (blocks : List DatabaseBlock) (midnight : UInt64) : Prop :=
  ∃ stored ∈ blocks, midnightOf stored = midnight

instance (blocks : List DatabaseBlock) (midnight : UInt64) :
    Decidable (OccursIn blocks midnight) :=
  inferInstanceAs (Decidable (∃ stored ∈ blocks, midnightOf stored = midnight))

def daysLater (midnight : UInt64) (days : Nat) : UInt64 :=
  midnight + UInt64.ofNat days * oneDaySeconds

/-- The day is reached from another one without a day in between that has no block. -/
def UnbrokenFrom (occurs : UInt64 → Prop) (first midnight : UInt64) : Prop :=
  ∃ days, midnight = daysLater first days ∧ ∀ earlier ≤ days, occurs (daysLater first earlier)

theorem firstOn_eq_none :
    firstOn midnight blocks = none ↔ ¬OccursIn blocks midnight := by
  unfold firstOn OccursIn
  simp

theorem firstOn_lt {blockIndex : Nat}
    (first : firstOn midnight blocks = some blockIndex) : blockIndex < blocks.length :=
  (findIdx?_eq_some_iff_getElem.mp first).1

theorem firstOn_take {count : Nat} (below : OccursIn (blocks.take count) midnight) :
    firstOn midnight (blocks.take count) = firstOn midnight blocks := by
  cases first : firstOn midnight (blocks.take count) with
  | none => exact absurd below (firstOn_eq_none.mp first)
  | some blockIndex =>
    unfold firstOn at first ⊢
    rw [← take_append_drop count blocks, findIdx?_append, first]
    rfl

theorem firstOn_append_one (midnight : UInt64) (blocks : List DatabaseBlock)
    (stored : DatabaseBlock) :
    firstOn midnight (blocks ++ [stored]) = (firstOn midnight blocks).or
      (if midnight = midnightOf stored then some blocks.length else none) := by
  unfold firstOn
  by_cases here : midnightOf stored = midnight
  · simp [here]
  · simp [here, Ne.symm here]

/-! ### The loop over the days -/

theorem daysLater_zero (midnight : UInt64) : daysLater midnight 0 = midnight := by
  simp [daysLater]

theorem daysLater_next (midnight : UInt64) (days : Nat) :
    daysLater midnight (days + 1) = daysLater midnight days + oneDaySeconds := by
  unfold daysLater
  rw [UInt64.ofNat_add]
  change midnight + (UInt64.ofNat days + 1) * oneDaySeconds = _
  rw [UInt64.add_mul, UInt64.one_mul, UInt64.add_assoc]

theorem daysLater_succ (midnight : UInt64) (days : Nat) :
    daysLater midnight (days + 1) = daysLater (midnight + oneDaySeconds) days := by
  rw [daysLater_next]
  unfold daysLater
  rw [UInt64.add_assoc, UInt64.add_assoc, UInt64.add_comm (UInt64.ofNat days * oneDaySeconds)]

theorem mem_daysFrom {table : Table UInt64 Nat} {rounds : Nat} :
    midnight ∈ daysFrom table rounds first ↔ ∃ days < rounds, midnight = daysLater first days ∧
      ∀ earlier ≤ days, table.get (daysLater first earlier) ≠ none := by
  induction rounds generalizing first with
  | zero => simp [daysFrom]
  | succ rounds ih =>
    unfold daysFrom
    cases found : table.get first with
    | none =>
      constructor
      · nofun
      · rintro ⟨days, -, -, present⟩
        have here := present 0 (zero_le _)
        rw [daysLater_zero] at here
        exact absurd found here
    | some blockIndex =>
      simp only [mem_cons, ih]
      constructor
      · rintro (rfl | ⟨days, few, rfl, present⟩)
        · refine ⟨0, succ_pos _, (daysLater_zero _).symm, ?_⟩
          intro earlier isZero
          rw [le_zero.mp isZero, daysLater_zero, found]
          nofun
        · refine ⟨days + 1, succ_lt_succ few, (daysLater_succ _ _).symm, ?_⟩
          intro earlier isEarlier
          cases earlier with
          | zero =>
            rw [daysLater_zero, found]
            nofun
          | succ earlier =>
            rw [daysLater_succ]
            exact present earlier (le_of_succ_le_succ isEarlier)
      · rintro ⟨days, few, isDay, present⟩
        cases days with
        | zero => exact .inl (isDay.trans (daysLater_zero _))
        | succ days =>
          refine .inr ⟨days, lt_of_succ_lt_succ few,
            isDay.trans (daysLater_succ _ _), ?_⟩
          intro earlier isEarlier
          have later := present (earlier + 1) (succ_le_succ isEarlier)
          rwa [daysLater_succ] at later

theorem daysLater_toNat {days : Nat}
    (early : ∀ earlier < days, (daysLater first earlier).toNat < 2 ^ 63) :
    (daysLater first days).toNat = first.toNat + days * 86400 := by
  induction days with
  | zero => rw [daysLater_zero, Nat.zero_mul, Nat.add_zero]
  | succ days ih =>
    have before := ih fun earlier isEarlier => early earlier (lt_succ_of_lt isEarlier)
    have last := early days (lt_succ_self _)
    rw [daysLater_next, UInt64.toNat_add, before]
    change (first.toNat + days * 86400 + 86400) % 2 ^ 64 = _
    omega

theorem mem_daysFrom_length {table : Table UInt64 Nat}
    (early : ∀ midnight, table.get midnight ≠ none → midnight.toNat < 2 ^ 63) :
    midnight ∈ daysFrom table table.length first ↔
      UnbrokenFrom (fun day => table.get day ≠ none) first midnight := by
  rw [mem_daysFrom]
  constructor
  · rintro ⟨days, -, isDay, present⟩
    exact ⟨days, isDay, present⟩
  · rintro ⟨days, isDay, present⟩
    refine ⟨days, ?_, isDay, present⟩
    -- the days found are different keys of the table
    have values : ∀ earlier ≤ days,
        (daysLater first earlier).toNat = first.toNat + earlier * 86400 := by
      intro earlier isEarlier
      apply daysLater_toNat
      intro before isBefore
      exact early _ (present before (le_trans (le_of_lt isBefore) isEarlier))
    have different : ((List.range (days + 1)).map (daysLater first)).Nodup := by
      apply List.Nodup.map_on _ nodup_range
      intro one isOne other isOther same
      rw [mem_range] at isOne isOther
      have sameValue := congrArg UInt64.toNat same
      rw [values one (by omega), values other (by omega)] at sameValue
      omega
    have keys : (List.range (days + 1)).map (daysLater first) ⊆ table.map Prod.fst := by
      intro key isKey
      obtain ⟨earlier, isEarlier, rfl⟩ := mem_map.mp isKey
      rw [mem_range] at isEarlier
      exact (Table.mem_keys_iff table _).mpr (present earlier (by omega))
    have few := (subperm_of_subset different keys).length_le
    rw [length_map, length_range, length_map] at few
    omega

/-! ### Exact tables -/

variable {primitives : Primitives} {getPaymentIdFromTxExtra : BinaryArray → Option Hash}
  {database : IndexedDatabase}

/-- The entry of every day is the first block of the day. -/
def DaysExact (database : IndexedDatabase) : Prop :=
  ∀ midnight, database.closestTimestampBlockIndex.get midnight
    = firstOn midnight database.cache.blocks

structure ClosestExact (database : IndexedDatabase) : Prop where
  nonempty : database.cache.blocks ≠ []
  exact : database.DaysExact
  early : ∀ stored ∈ database.cache.blocks, stored.info.timestamp.toNat < 2 ^ 63

theorem DaysExact.get_ne_none (exact : database.DaysExact) :
    database.closestTimestampBlockIndex.get midnight ≠ none ↔
      OccursIn database.cache.blocks midnight := by
  rw [exact, ne_eq, firstOn_eq_none, not_not]

theorem toNat_midnight (timestamp : UInt64) :
    (timestamp / oneDaySeconds * oneDaySeconds).toNat = timestamp.toNat / 86400 * 86400 := by
  have bounded := timestamp.toNat_lt
  change timestamp.toNat / 86400 * 86400 % 2 ^ 64 = _
  exact Nat.mod_eq_of_lt (by omega)

theorem ClosestExact.early_key (closest : ClosestExact database) (midnight : UInt64)
    (present : database.closestTimestampBlockIndex.get midnight ≠ none) :
    midnight.toNat < 2 ^ 63 := by
  obtain ⟨stored, member, rfl⟩ := closest.exact.get_ne_none.mp present
  have early := closest.early stored member
  unfold midnightOf
  rw [toNat_midnight]
  omega

theorem ClosestExact.push (closest : ClosestExact database) {pushed : PushedBlock}
    {grown : IndexedDatabase}
    (step : Pushed primitives getPaymentIdFromTxExtra database pushed grown) :
    ClosestExact grown := by
  obtain ⟨stored, stores, blocks⟩ := step.stored
  have sameDay : midnightOf stored = pushed.block.timestamp / oneDaySeconds * oneDaySeconds := by
    unfold midnightOf
    rw [stores.timestamp]
  constructor
  · rw [blocks]
    exact append_ne_nil_of_right_ne_nil _ (cons_ne_nil _ _)
  · intro midnight
    rw [step.closest, blocks, firstOn_append_one, ← closest.exact, ← sameDay, Table.get_write]
    unfold insertClosest
    cases found : database.closestTimestampBlockIndex.get (midnightOf stored) with
    | some blockIndex =>
      by_cases here : midnight = midnightOf stored
      · simp [here, found]
      · simp [here]
    | none =>
      by_cases here : midnight = midnightOf stored
      · simp [here, found, Batch.insert]
      · simp [here, Batch.insert]
  · intro other member
    rw [blocks, mem_append, mem_singleton] at member
    rcases member with member | rfl
    · exact closest.early other member
    · rw [stores.timestamp]
      exact step.early

/-! ### Splits -/

def firstCutDay (blocks : List DatabaseBlock) (splitBlockIndex : Nat) (stored : DatabaseBlock) :
    UInt64 :=
  if OccursIn (blocks.take splitBlockIndex) (midnightOf stored) then
    midnightOf stored + oneDaySeconds
  else midnightOf stored

/-- The days that only cut blocks have are the unbroken run of days of any blocks from the
first of them on. -/
def CutsRunOfDays (blocks : List DatabaseBlock) (splitBlockIndex : Nat) : Prop :=
  ∀ stored ∈ blocks[splitBlockIndex]?, ∀ midnight,
    UnbrokenFrom (OccursIn blocks) (firstCutDay blocks splitBlockIndex stored) midnight ↔
      OccursIn blocks midnight ∧ ¬OccursIn (blocks.take splitBlockIndex) midnight

theorem firstOn_eq_index {stored : DatabaseBlock} (here : blocks[splitBlockIndex]? = some stored) :
    firstOn (midnightOf stored) blocks = some splitBlockIndex ↔
      ¬OccursIn (blocks.take splitBlockIndex) (midnightOf stored) := by
  obtain ⟨inside, rfl⟩ := List.getElem?_eq_some_iff.mp here
  unfold firstOn OccursIn
  rw [findIdx?_eq_some_iff_getElem]
  constructor
  · rintro ⟨_, _, before⟩ ⟨other, member, sameDay⟩
    obtain ⟨index, isIndex, rfl⟩ := mem_iff_getElem.mp member
    rw [length_take] at isIndex
    apply before index (by omega)
    rw [getElem_take] at sameDay
    exact decide_eq_true sameDay
  · intro none
    refine ⟨inside, decide_eq_true rfl, ?_⟩
    intro index isBefore sameDay
    apply none
    have isIndex : index < (blocks.take splitBlockIndex).length := by
      rw [length_take]
      omega
    refine ⟨(blocks.take splitBlockIndex)[index], getElem_mem isIndex, ?_⟩
    rw [getElem_take]
    exact decide_eq_true_eq.mp sameDay

theorem deleteClosest_eq_some (exact : database.DaysExact) {batch : Batch UInt64 Nat}
    (ran : database.deleteClosestTimestampBlockIndex splitBlockIndex = some batch) :
    ∃ stored, database.cache.blocks[splitBlockIndex]? = some stored ∧
      batch = Batch.mk [] (daysFrom database.closestTimestampBlockIndex
        database.closestTimestampBlockIndex.length
        (firstCutDay database.cache.blocks splitBlockIndex stored)) := by
  obtain ⟨stored, isStored, ran⟩ := Option.bind_eq_some_iff.mp ran
  obtain ⟨midnight, rounded, ran⟩ := Option.bind_eq_some_iff.mp ran
  obtain ⟨blockIndex, isIndex, ran⟩ := Option.bind_eq_some_iff.mp ran
  obtain ⟨-, rfl⟩ := roundToMidnight_eq_some rounded
  cases ran
  refine ⟨stored, isStored, ?_⟩
  have entry : firstOn (midnightOf stored) database.cache.blocks = some blockIndex :=
    (exact _).symm.trans isIndex
  have sameDay : splitBlockIndex ≠ blockIndex ↔
      OccursIn (database.cache.blocks.take splitBlockIndex) (midnightOf stored) := by
    rw [ne_eq, not_iff_comm, ← firstOn_eq_index isStored, entry, Option.some_inj, eq_comm]
  unfold firstCutDay
  simp only [← sameDay]
  rfl

section
variable (closest : ClosestExact database)
  (step : SplitAt primitives getPaymentIdFromTxExtra database splitBlockIndex lower)
include closest step

theorem get_after_cut :
    ∃ stored, database.cache.blocks[splitBlockIndex]? = some stored ∧
      ∀ midnight, (UnbrokenFrom (OccursIn database.cache.blocks)
          (firstCutDay database.cache.blocks splitBlockIndex stored) midnight →
          lower.closestTimestampBlockIndex.get midnight = none) ∧
        (¬UnbrokenFrom (OccursIn database.cache.blocks)
          (firstCutDay database.cache.blocks splitBlockIndex stored) midnight →
          lower.closestTimestampBlockIndex.get midnight
            = firstOn midnight database.cache.blocks) := by
  obtain ⟨batch, ran, written⟩ := step.closest
  obtain ⟨stored, isStored, rfl⟩ := deleteClosest_eq_some closest.exact ran
  refine ⟨stored, isStored, ?_⟩
  intro midnight
  have occurs : (fun day => database.closestTimestampBlockIndex.get day ≠ none)
      = OccursIn database.cache.blocks := by
    funext day
    exact propext closest.exact.get_ne_none
  have removed : midnight ∈ daysFrom database.closestTimestampBlockIndex _
      (firstCutDay database.cache.blocks splitBlockIndex stored) ↔ _ :=
    mem_daysFrom_length closest.early_key
  rw [occurs] at removed
  rw [written, Table.get_write, ← removed, ← closest.exact]
  constructor
  · intro gone
    simp [gone]
  · intro kept
    simp [kept]

theorem ClosestExact.split_iff :
    lower.DaysExact ↔ CutsRunOfDays database.cache.blocks splitBlockIndex := by
  obtain ⟨stored, isStored, after⟩ := get_after_cut closest step
  unfold DaysExact CutsRunOfDays
  rw [isStored, step.blocks]
  constructor
  · rintro exact _ ⟨⟩ midnight
    constructor
    · intro unbroken
      constructor
      · obtain ⟨days, rfl, occurs⟩ := unbroken
        exact occurs days (le_refl _)
      · rw [← firstOn_eq_none, ← exact]
        exact (after midnight).1 unbroken
    · rintro ⟨occurs, cut⟩
      by_contra kept
      have same := (after midnight).2 kept
      rw [exact, firstOn_eq_none.mpr cut] at same
      exact firstOn_eq_none.mp same.symm occurs
  · intro cuts midnight
    have cutDay := cuts stored rfl midnight
    by_cases below : OccursIn (database.cache.blocks.take splitBlockIndex) midnight
    · rw [firstOn_take below]
      apply (after midnight).2
      intro unbroken
      exact (cutDay.mp unbroken).2 below
    · rw [firstOn_eq_none.mpr below]
      by_cases occurs : OccursIn database.cache.blocks midnight
      · exact (after midnight).1 (cutDay.mpr ⟨occurs, below⟩)
      · rw [← firstOn_eq_none.mpr occurs]
        apply (after midnight).2
        intro unbroken
        exact occurs (cutDay.mp unbroken).1

end

theorem ClosestExact.split (closest : ClosestExact database) (positive : 0 < splitBlockIndex)
    (step : SplitAt primitives getPaymentIdFromTxExtra database splitBlockIndex lower)
    (cuts : CutsRunOfDays database.cache.blocks splitBlockIndex) : ClosestExact lower := by
  constructor
  · rw [step.blocks]
    have length := length_pos_iff.mpr closest.nonempty
    apply ne_nil_of_length_pos
    rw [length_take]
    omega
  · exact (closest.split_iff step).mpr cuts
  · intro stored member
    rw [step.blocks] at member
    exact closest.early stored (mem_of_mem_take member)

/-! ### Queries and runs -/

theorem lowerBoundDay_lt (closest : ClosestExact database) (day : Nat) :
    database.lowerBoundDay day < database.cache.blocks.length := by
  induction day with
  | zero => exact length_pos_iff.mpr closest.nonempty
  | succ day ih =>
    unfold lowerBoundDay
    cases found : database.closestTimestampBlockIndex.get
        (UInt64.ofNat (day + 1) * oneDaySeconds) with
    | none => exact ih
    | some blockIndex =>
      rw [closest.exact] at found
      exact firstOn_lt found

def ClosestCall (database : IndexedDatabase) : Call → Prop
  | .pushBlock _ => True
  | .split splitBlockIndex _ _ =>
    0 < splitBlockIndex ∧ CutsRunOfDays database.cache.blocks splitBlockIndex

theorem addGenesisBlock_closestExact {genesis : GenesisBlock primitives}
    (created : addGenesisBlock primitives getPaymentIdFromTxExtra genesis = some database) :
    ClosestExact database := by
  obtain ⟨midnight, rounded, created⟩ := Option.bind_eq_some_iff.mp created
  obtain ⟨early, rfl⟩ := roundToMidnight_eq_some rounded
  cases created
  constructor
  · exact cons_ne_nil _ _
  · intro midnight
    refine Eq.trans ?_ (firstOn_append_one midnight [] _).symm
    rw [Table.get_write]
    change (if midnight ∈ [] then none else (Table.lastInsert [_] midnight).or none) = none.or _
    rw [if_neg not_mem_nil, Table.lastInsert_singleton, Option.or_none]
    rfl
  · intro stored member
    rw [mem_singleton.mp member]
    exact early

theorem closestExact_of_run {genesis : GenesisBlock primitives}
    (reached : GuardedRun.Reached
      (fun start => addGenesisBlock primitives getPaymentIdFromTxExtra genesis = some start)
      (call primitives getPaymentIdFromTxExtra) ClosestCall database) :
    ClosestExact database := by
  apply reached.invariant
  · intro start created
    exact addGenesisBlock_closestExact created
  · intro before action after closest meets ran
    cases action with
    | pushBlock pushed => exact closest.push (pushBlock_pushed ran)
    | split splitBlockIndex self upper =>
      obtain ⟨⟨segment, lower⟩, splitRan, rfl⟩ := Option.map_eq_some_iff.mp ran
      exact closest.split meets.1 (split_splitAt splitRan) meets.2

/-- After a run whose splits cut unbroken runs of days, every day's entry is its first block
and no query names a block that is not there; and a further split keeps the entries exact
exactly if it cuts an unbroken run of days as well. -/
theorem closest_index_of_run {genesis : GenesisBlock primitives}
    (reached : GuardedRun.Reached
      (fun start => addGenesisBlock primitives getPaymentIdFromTxExtra genesis = some start)
      (call primitives getPaymentIdFromTxExtra) ClosestCall database) :
    database.DaysExact ∧
    (∀ timestamp blockIndex, database.getTimestampLowerBoundBlockIndex timestamp = some blockIndex →
      blockIndex < database.cache.blocks.length) ∧
    ∀ splitBlockIndex self upper segment lower, 0 < splitBlockIndex →
      database.split primitives getPaymentIdFromTxExtra splitBlockIndex self upper
        = some (segment, lower) →
      (lower.DaysExact ↔ CutsRunOfDays database.cache.blocks splitBlockIndex) := by
  have closest := closestExact_of_run reached
  refine ⟨closest.exact, ?_, ?_⟩
  · intro timestamp blockIndex answered
    obtain ⟨midnight, -, answered⟩ := Option.bind_eq_some_iff.mp answered
    cases answered
    exact lowerBoundDay_lt closest _
  · intro splitBlockIndex self upper segment lower _ ran
    exact closest.split_iff (split_splitAt ran)

theorem two_days_indexed :
    ∃ database, timedDatabase 86400 172800 = some database ∧ database.DaysExact ∧
      database.cache.blocks.length = 3 := by
  have built : (timedDatabase 86400 172800).map (fun database => database.cache.blocks.length)
      = some 3 := by
    decide +kernel
  obtain ⟨database, isDatabase, length⟩ := Option.map_eq_some_iff.mp built
  have indexed := closest_index_of_run (timedDatabase_reached (fun _ _ _ => trivial) isDatabase)
  exact ⟨database, isDatabase, indexed.1, length⟩

/-- The third block is three days after the first, and a split at the second block stops at
the day between them: the entry of the third one stays. In a chain whose third block is a day
older than the second, cutting the third one removes the entry of the second as well. -/
theorem split_misses_days :
    (timedSplit 86400 259200 1).map (fun lower => (lower.cache.blocks.length,
        lower.getTimestampLowerBoundBlockIndex 259200)) = some (1, some 2) ∧
      (timedSplit 432000 345600 2).map (fun lower => (firstOn 432000 lower.cache.blocks,
        lower.closestTimestampBlockIndex.get 432000)) = some (some 1, none) := by
  decide +kernel

end IndexedDatabase
end Mevacoin
