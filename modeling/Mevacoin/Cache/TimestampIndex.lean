/-
The table of block hashes by timestamp. A push appends to the list of one timestamp. A
split takes one hash off the list for every block it cuts, but each time from the list as
it was before the split. The genesis block is never recorded.
-/

import Mathlib.Data.List.Perm.Basic
import Mathlib.Data.UInt
import Mevacoin.Cache.DatabaseIndexes

namespace Mevacoin
open List
open WriteBatch (Table Batch)

namespace IndexedDatabase
variable {splitBlockIndex : Nat} {lower : IndexedDatabase}

/-! ### Exact tables -/

def hashesAt (timestamp : UInt64) (blocks : List DatabaseBlock) : List Hash :=
  (blocks.filter fun stored => stored.info.timestamp = timestamp).map
    fun stored => stored.info.blockHash

theorem hashesAt_append (timestamp : UInt64) (first second : List DatabaseBlock) :
    hashesAt timestamp (first ++ second) = hashesAt timestamp first ++ hashesAt timestamp second := by
  unfold hashesAt
  rw [filter_append, map_append]

theorem length_hashesAt (timestamp : UInt64) (blocks : List DatabaseBlock) :
    (hashesAt timestamp blocks).length
      = (blocks.map fun stored => stored.info.timestamp).count timestamp := by
  unfold hashesAt
  rw [length_map, ← countP_eq_length_filter, count_eq_countP, countP_map]
  apply countP_congr
  simp

/-- The list under every timestamp names the blocks above the genesis block that have it. -/
structure TimestampsExact (primitives : Primitives) (database : IndexedDatabase) : Prop where
  nonempty : database.cache.blocks ≠ []
  recorded : ∀ timestamp, ((database.blockHashesByTimestamp.get timestamp).getD []).Perm
    (hashesAt timestamp database.cache.blocks.tail)
  named : ∀ stored ∈ database.cache.blocks.tail, ∃ block,
    primitives.blockFromBinaryArray stored.rawBlock.block = some block ∧
    primitives.getBlockHash block = stored.info.blockHash
  early : ∀ stored ∈ database.cache.blocks.tail, stored.info.timestamp.toNat < 2 ^ 63

variable {primitives : Primitives} {getPaymentIdFromTxExtra : BinaryArray → Option Hash}
  {database : IndexedDatabase}

theorem get_insertBlockTimestamp (timestamp other : UInt64) (blockHash : Hash) :
    ((database.blockHashesByTimestamp.write
        (database.insertBlockTimestamp {} timestamp blockHash)).get other).getD []
      = if other = timestamp
        then (database.blockHashesByTimestamp.get timestamp).getD [] ++ [blockHash]
        else (database.blockHashesByTimestamp.get other).getD [] := by
  rw [Table.get_write]
  change (if other ∈ [] then none else (Table.lastInsert ([] ++ [_]) other).or _).getD [] = _
  rw [if_neg not_mem_nil, Table.lastInsert_append]
  split <;> rfl

theorem TimestampsExact.push (exact : TimestampsExact primitives database)
    {pushed : PushedBlock} {grown : IndexedDatabase}
    (parsed : primitives.blockFromBinaryArray pushed.rawBlock.block = some pushed.block)
    (step : Pushed primitives getPaymentIdFromTxExtra database pushed grown) :
    TimestampsExact primitives grown := by
  obtain ⟨stored, stores, blocks⟩ := step.stored
  have tail : grown.cache.blocks.tail = database.cache.blocks.tail ++ [stored] := by
    rw [blocks, tail_append_of_ne_nil exact.nonempty]
  constructor
  · rw [blocks]
    exact append_ne_nil_of_left_ne_nil exact.nonempty _
  · intro timestamp
    rw [step.timestamps, get_insertBlockTimestamp, tail, hashesAt_append]
    by_cases same : timestamp = pushed.block.timestamp
    · have here : hashesAt timestamp [stored] = [primitives.getBlockHash pushed.block] := by
        simp [hashesAt, stores.timestamp, stores.hash, same]
      rw [if_pos same, here, ← same]
      exact (exact.recorded timestamp).append_right _
    · have none : hashesAt timestamp [stored] = [] := by
        simp [hashesAt, stores.timestamp, Ne.symm same]
      rw [if_neg same, none, append_nil]
      exact exact.recorded timestamp
  · rw [tail]
    intro other member
    rcases mem_append.mp member with before | here
    · exact exact.named other before
    · cases mem_singleton.mp here
      exact ⟨pushed.block, by rw [stores.rawBlock, parsed], stores.hash.symm⟩
  · rw [tail]
    intro other member
    rcases mem_append.mp member with before | here
    · exact exact.early other before
    · cases mem_singleton.mp here
      rw [stores.timestamp]
      exact step.early

/-! ### The batch of a split -/

def listAfter (database : IndexedDatabase) (batch : Batch UInt64 (List Hash))
    (timestamp : UInt64) : List Hash :=
  ((database.blockHashesByTimestamp.write batch).get timestamp).getD []

def RemovesSingle (database : IndexedDatabase) (batch : Batch UInt64 (List Hash)) : Prop :=
  ∀ timestamp ∈ batch.removals, ((database.blockHashesByTimestamp.get timestamp).getD []).length = 1

theorem requestRemoveTimestamp_eq_some {batch result : Batch UInt64 (List Hash)}
    {block : Hash × UInt64} (single : database.RemovesSingle batch)
    (recorded : block.1 ∈ (database.blockHashesByTimestamp.get block.2).getD [])
    (ran : database.requestRemoveTimestamp batch block = some result) :
    database.RemovesSingle result ∧ ∀ timestamp, database.listAfter result timestamp
      = if timestamp = block.2
        then ((database.blockHashesByTimestamp.get timestamp).getD []).erase block.1
        else database.listAfter batch timestamp := by
  obtain ⟨hash, here⟩ := block
  unfold requestRemoveTimestamp at ran
  simp only at ran recorded
  cases found : database.blockHashesByTimestamp.get here with
  | none => simp [found] at recorded
  | some blockHashes =>
    rw [found, Option.getD_some] at recorded
    have length := length_erase_of_mem recorded
    simp only [found, not_true_eq_false, recorded, if_false] at ran
    split at ran
    · rename_i empty
      cases ran
      rw [empty, length_nil] at length
      have positive := length_pos_of_mem recorded
      constructor
      · intro timestamp removed
        rcases mem_append.mp removed with before | last
        · exact single timestamp before
        · rw [mem_singleton.mp last, found, Option.getD_some]
          omega
      · intro timestamp
        unfold listAfter
        rw [Table.get_write, Table.get_write]
        by_cases same : timestamp = here
        · simp [same, Batch.remove, found, empty]
        · simp [same, Batch.remove]
    · rename_i left
      cases ran
      have long : blockHashes.length ≠ 1 := by
        rintro isOne
        exact left (length_eq_zero_iff.mp (by omega))
      refine ⟨single, ?_⟩
      intro timestamp
      unfold listAfter
      rw [Table.get_write, Table.get_write]
      by_cases same : timestamp = here
      · have kept : here ∉ batch.removals := by
          intro removed
          have isOne := single here removed
          rw [found, Option.getD_some] at isOne
          exact long isOne
        simp [same, Batch.insert, Table.lastInsert_append, kept, found]
      · simp [same, Batch.insert, Table.lastInsert_append]

theorem removeTimestamps_eq_some {blocks : List (Hash × UInt64)}
    {batch result : Batch UInt64 (List Hash)} (single : database.RemovesSingle batch)
    (recorded : ∀ block ∈ blocks, block.1 ∈ (database.blockHashesByTimestamp.get block.2).getD [])
    (ran : blocks.foldlM database.requestRemoveTimestamp batch = some result) (timestamp : UInt64) :
    ((∀ block ∈ blocks, block.2 ≠ timestamp) ∧
      database.listAfter result timestamp = database.listAfter batch timestamp) ∨
    ∃ block ∈ blocks, block.2 = timestamp ∧ database.listAfter result timestamp
      = ((database.blockHashesByTimestamp.get timestamp).getD []).erase block.1 := by
  induction blocks generalizing batch with
  | nil =>
    cases ran
    exact .inl ⟨nofun, rfl⟩
  | cons first rest ih =>
    obtain ⟨middle, firstRan, restRan⟩ := Option.bind_eq_some_iff.mp ran
    obtain ⟨stillSingle, after⟩ := requestRemoveTimestamp_eq_some single
      (recorded first mem_cons_self) firstRan
    rcases ih stillSingle (fun block member => recorded block (mem_cons_of_mem _ member))
      restRan with ⟨untouched, same⟩ | ⟨block, member, here, erased⟩
    · rw [same, after]
      by_cases here : timestamp = first.2
      · exact .inr ⟨first, mem_cons_self, here.symm, if_pos here⟩
      · exact .inl ⟨forall_mem_cons.mpr ⟨Ne.symm here, untouched⟩, if_neg here⟩
    · exact .inr ⟨block, mem_cons_of_mem _ member, here, erased⟩

theorem mem_tail_of_drop (positive : 0 < splitBlockIndex)
    {blocks : List DatabaseBlock} {stored : DatabaseBlock}
    (member : stored ∈ blocks.drop splitBlockIndex) : stored ∈ blocks.tail := by
  have later : blocks.drop splitBlockIndex = blocks.tail.drop (splitBlockIndex - 1) := by
    rw [← drop_one, drop_drop]
    congr 1
    omega
  rw [later] at member
  exact mem_of_mem_drop member

theorem deletingBlocks_eq (exact : TimestampsExact primitives database)
    (positive : 0 < splitBlockIndex) {blocks : List (Hash × UInt64)}
    (areBlocks : database.deletingBlocks primitives splitBlockIndex = some blocks) :
    blocks = (database.cache.blocks.drop splitBlockIndex).map
      fun stored => (stored.info.blockHash, stored.info.timestamp) := by
  have read : ∀ stored ∈ database.cache.blocks.drop splitBlockIndex,
      (do
        let block ← primitives.blockFromBinaryArray stored.rawBlock.block
        some (primitives.getBlockHash block, stored.info.timestamp))
      = some (stored.info.blockHash, stored.info.timestamp) := by
    intro stored member
    obtain ⟨block, parsed, hash⟩ := exact.named stored (mem_tail_of_drop positive member)
    simp [parsed, hash]
  unfold deletingBlocks at areBlocks
  generalize database.cache.blocks.drop splitBlockIndex = upper at read areBlocks ⊢
  induction upper generalizing blocks with
  | nil =>
    cases areBlocks
    rfl
  | cons first rest ih =>
    rw [mapM_cons, read first mem_cons_self] at areBlocks
    obtain ⟨pair, isPair, areBlocks⟩ := Option.bind_eq_some_iff.mp areBlocks
    obtain ⟨others, areOthers, finished⟩ := Option.bind_eq_some_iff.mp areBlocks
    cases isPair
    cases finished
    rw [map_cons, ← ih (fun stored member => read stored (mem_cons_of_mem _ member)) areOthers]

/-! ### The lists after a split -/

theorem get_after_split (exact : TimestampsExact primitives database) (positive : 0 < splitBlockIndex)
    (step : SplitAt primitives getPaymentIdFromTxExtra database splitBlockIndex lower)
    (timestamp : UInt64) :
    (hashesAt timestamp (database.cache.blocks.drop splitBlockIndex) = [] ∧
      (lower.blockHashesByTimestamp.get timestamp).getD []
        = (database.blockHashesByTimestamp.get timestamp).getD []) ∨
    ∃ hash ∈ hashesAt timestamp (database.cache.blocks.drop splitBlockIndex),
      (lower.blockHashesByTimestamp.get timestamp).getD []
        = ((database.blockHashesByTimestamp.get timestamp).getD []).erase hash := by
  obtain ⟨blocks, batch, areBlocks, ran, table⟩ := step.timestamps
  have isBlocks := deletingBlocks_eq exact positive areBlocks
  have cutBlock : ∀ block : Hash × UInt64, block ∈ blocks.reverse ↔
      ∃ stored ∈ database.cache.blocks.drop splitBlockIndex,
        (stored.info.blockHash, stored.info.timestamp) = block := by
    intro block
    rw [mem_reverse, isBlocks, mem_map]
  have recorded : ∀ block ∈ blocks.reverse,
      block.1 ∈ (database.blockHashesByTimestamp.get block.2).getD [] := by
    intro block member
    obtain ⟨stored, isStored, rfl⟩ := (cutBlock block).mp member
    apply (exact.recorded stored.info.timestamp).mem_iff.mpr
    apply mem_map_of_mem
    exact mem_filter.mpr ⟨mem_tail_of_drop positive isStored, decide_eq_true rfl⟩
  have nothingRemoved : database.RemovesSingle {} := by
    intro timestamp removed
    cases removed
  rw [table]
  rcases removeTimestamps_eq_some nothingRemoved recorded ran timestamp with
    ⟨untouched, same⟩ | ⟨block, member, here, erased⟩
  · refine .inl ⟨?_, same⟩
    unfold hashesAt
    rw [map_eq_nil_iff, filter_eq_nil_iff]
    intro stored isStored here
    exact untouched _ ((cutBlock _).mpr ⟨stored, isStored, rfl⟩) (decide_eq_true_eq.mp here)
  · obtain ⟨stored, isStored, rfl⟩ := (cutBlock block).mp member
    refine .inr ⟨stored.info.blockHash, ?_, erased⟩
    exact mem_map_of_mem (mem_filter.mpr ⟨isStored, decide_eq_true here⟩)

theorem tail_eq_append (positive : 0 < splitBlockIndex) (blocks : List DatabaseBlock) :
    blocks.tail = (blocks.take splitBlockIndex).tail ++ blocks.drop splitBlockIndex := by
  cases blocks with
  | nil => simp
  | cons genesis rest =>
    obtain ⟨count, rfl⟩ := Nat.exists_eq_add_of_lt positive
    simp

section
variable (exact : TimestampsExact primitives database) (positive : 0 < splitBlockIndex)
  (step : SplitAt primitives getPaymentIdFromTxExtra database splitBlockIndex lower)
include exact positive step

theorem TimestampsExact.split_iff :
    (∀ timestamp, ((lower.blockHashesByTimestamp.get timestamp).getD []).Perm
      (hashesAt timestamp lower.cache.blocks.tail)) ↔
    ((database.cache.blocks.drop splitBlockIndex).map
      fun stored => stored.info.timestamp).Nodup := by
  have whole : ∀ timestamp, ((database.blockHashesByTimestamp.get timestamp).getD []).Perm
      (hashesAt timestamp lower.cache.blocks.tail
        ++ hashesAt timestamp (database.cache.blocks.drop splitBlockIndex)) := by
    intro timestamp
    rw [step.blocks, ← hashesAt_append, ← tail_eq_append positive]
    exact exact.recorded timestamp
  rw [nodup_iff_count_le_one]
  apply forall_congr'
  intro timestamp
  rw [← length_hashesAt]
  rcases get_after_split exact positive step timestamp with ⟨none, same⟩ | ⟨hash, cut, erased⟩
  · rw [same, none]
    have kept := whole timestamp
    rw [none, append_nil] at kept
    exact ⟨fun _ => Nat.zero_le _, fun _ => kept⟩
  · rw [erased]
    have length := (whole timestamp).length_eq
    have inside : hash ∈ (database.blockHashesByTimestamp.get timestamp).getD [] :=
      (whole timestamp).mem_iff.mpr (mem_append_right _ cut)
    have cutLength := length_pos_of_mem cut
    rw [length_append] at length
    constructor
    · intro kept
      have keptLength := kept.length_eq
      rw [length_erase_of_mem inside] at keptLength
      omega
    · intro atMostOne
      obtain ⟨only, isOnly⟩ := length_eq_one_iff.mp
        (Nat.le_antisymm atMostOne cutLength)
      rw [isOnly, mem_singleton] at cut
      subst cut
      have grouped := whole timestamp
      rw [isOnly] at grouped
      have shorter := (grouped.trans (perm_append_singleton hash _)).erase hash
      rwa [erase_cons_head] at shorter

theorem TimestampsExact.split
    (different : ((database.cache.blocks.drop splitBlockIndex).map
      fun stored => stored.info.timestamp).Nodup) : TimestampsExact primitives lower := by
  have inside : ∀ stored ∈ lower.cache.blocks.tail, stored ∈ database.cache.blocks.tail := by
    intro stored member
    rw [tail_eq_append positive, ← step.blocks]
    exact mem_append_left _ member
  refine ⟨?_, (exact.split_iff positive step).mpr different,
    fun stored member => exact.named stored (inside stored member),
    fun stored member => exact.early stored (inside stored member)⟩
  rw [step.blocks, ne_eq, take_eq_nil_iff, not_or]
  exact ⟨Nat.ne_of_gt positive, exact.nonempty⟩

end

/-! ### Queries -/

def InInterval (timestampBegin secondsCount : UInt64) (stored : DatabaseBlock) : Prop :=
  timestampBegin.toNat ≤ stored.info.timestamp.toNat ∧
    stored.info.timestamp.toNat < timestampBegin.toNat + secondsCount.toNat

instance (timestampBegin secondsCount : UInt64) (stored : DatabaseBlock) :
    Decidable (InInterval timestampBegin secondsCount stored) :=
  inferInstanceAs (Decidable (_ ∧ _))

def hashesIn (timestampBegin secondsCount : UInt64) (blocks : List DatabaseBlock) : List Hash :=
  (blocks.filter fun stored => InInterval timestampBegin secondsCount stored).map
    fun stored => stored.info.blockHash

theorem flatMap_hashesAt_perm (blocks : List DatabaseBlock) (first count : Nat)
    (narrow : first + count ≤ 2 ^ 64) :
    ((List.range' first count).flatMap fun timestamp =>
        hashesAt (UInt64.ofNat timestamp) blocks).Perm
      ((blocks.filter fun stored => first ≤ stored.info.timestamp.toNat ∧
        stored.info.timestamp.toNat < first + count).map fun stored => stored.info.blockHash) := by
  induction count with
  | zero =>
    have none : blocks.filter (fun stored => first ≤ stored.info.timestamp.toNat ∧
        stored.info.timestamp.toNat < first + 0) = [] := by
      rw [filter_eq_nil_iff]
      intro stored _
      rw [decide_eq_true_eq]
      omega
    rw [none]
    exact List.Perm.refl _
  | succ count ih =>
    have last : hashesAt (UInt64.ofNat (first + count)) blocks
        = ((blocks.filter fun stored => first ≤ stored.info.timestamp.toNat ∧
            stored.info.timestamp.toNat < first + (count + 1)).filter fun stored =>
              !decide (stored.info.timestamp.toNat < first + count)).map
            fun stored => stored.info.blockHash := by
      unfold hashesAt
      rw [filter_filter]
      congr 1
      apply filter_congr
      intro stored _
      have value : (UInt64.ofNat (first + count)).toNat = first + count :=
        UInt64.toNat_ofNat_of_lt' (by
          change first + count < 2 ^ 64
          omega)
      rw [Bool.eq_iff_iff]
      simp only [decide_eq_true_eq, Bool.and_eq_true, Bool.not_eq_true',
        decide_eq_false_iff_not, ← UInt64.toNat_inj, value]
      omega
    have earlier : ((blocks.filter fun stored => first ≤ stored.info.timestamp.toNat ∧
            stored.info.timestamp.toNat < first + (count + 1)).filter fun stored =>
              decide (stored.info.timestamp.toNat < first + count))
        = blocks.filter fun stored => first ≤ stored.info.timestamp.toNat ∧
            stored.info.timestamp.toNat < first + count := by
      rw [filter_filter]
      apply filter_congr
      intro stored _
      rw [Bool.eq_iff_iff]
      simp only [decide_eq_true_eq, Bool.and_eq_true]
      omega
    rw [range'_1_concat, flatMap_append, flatMap_singleton, last]
    refine ((ih (by omega)).append_right _).trans ?_
    rw [← earlier, ← map_append]
    exact (filter_append_perm _ _).map _

/-- While the lists are exact, an interval that does not wrap around is answered with the
blocks above the genesis block. -/
theorem getBlockHashesByTimestamps_perm
    (recorded : ∀ timestamp, ((database.blockHashesByTimestamp.get timestamp).getD []).Perm
      (hashesAt timestamp database.cache.blocks.tail)) {timestampBegin secondsCount : UInt64}
    (narrow : timestampBegin.toNat + secondsCount.toNat < 2 ^ 64) :
    (database.getBlockHashesByTimestamps timestampBegin secondsCount).Perm
      (hashesIn timestampBegin secondsCount database.cache.blocks.tail) := by
  have finish : (timestampBegin + secondsCount).toNat - timestampBegin.toNat
      = secondsCount.toNat := by
    rw [UInt64.toNat_add, Nat.mod_eq_of_lt narrow, Nat.add_sub_cancel_left]
  unfold getBlockHashesByTimestamps
  simp only [finish]
  refine (List.Perm.flatMap_left _ fun timestamp _ => recorded (UInt64.ofNat timestamp)).trans ?_
  exact flatMap_hashesAt_perm _ _ _ (Nat.le_of_lt narrow)

theorem getBlockHashesByTimestamps_one {timestamp : UInt64}
    (narrow : timestamp.toNat + 1 < 2 ^ 64) :
    database.getBlockHashesByTimestamps timestamp 1
      = (database.blockHashesByTimestamp.get timestamp).getD [] := by
  have finish : (timestamp + 1).toNat - timestamp.toNat = 1 := by
    change (timestamp.toNat + 1) % 2 ^ 64 - timestamp.toNat = 1
    omega
  unfold getBlockHashesByTimestamps
  simp only [finish]
  rw [range'_one, flatMap_singleton, UInt64.ofNat_toNat]

theorem hashesIn_one (timestamp : UInt64) (blocks : List DatabaseBlock) :
    hashesIn timestamp 1 blocks = hashesAt timestamp blocks := by
  unfold hashesIn hashesAt
  congr 1
  apply filter_congr
  intro stored _
  rw [decide_eq_decide, ← UInt64.toNat_inj]
  change _ ∧ _ < _ + 1 ↔ _
  omega

theorem getBlockHashesByTimestamps_wrapped {timestampBegin secondsCount : UInt64}
    (wide : 2 ^ 64 ≤ timestampBegin.toNat + secondsCount.toNat) :
    database.getBlockHashesByTimestamps timestampBegin secondsCount = [] := by
  have finish : (timestampBegin + secondsCount).toNat - timestampBegin.toNat = 0 := by
    have lasts := secondsCount.toNat_lt
    rw [UInt64.toNat_add]
    omega
  unfold getBlockHashesByTimestamps
  simp only [finish]
  rfl

/-- A query is right if and only if the genesis block is not asked for, and the interval
does not wrap around or no block is later than its beginning. -/
theorem TimestampsExact.query_iff (exact : TimestampsExact primitives database)
    (timestampBegin secondsCount : UInt64) :
    (database.getBlockHashesByTimestamps timestampBegin secondsCount).Perm
        (hashesIn timestampBegin secondsCount database.cache.blocks) ↔
      (∀ genesis ∈ database.cache.blocks.head?, ¬InInterval timestampBegin secondsCount genesis) ∧
      (timestampBegin.toNat + secondsCount.toNat < 2 ^ 64 ∨
        ∀ stored ∈ database.cache.blocks, stored.info.timestamp.toNat < timestampBegin.toNat) := by
  obtain ⟨genesis, rest, isBlocks⟩ := exists_cons_of_ne_nil exact.nonempty
  by_cases narrow : timestampBegin.toNat + secondsCount.toNat < 2 ^ 64
  · have perm := getBlockHashesByTimestamps_perm exact.recorded narrow
    rw [isBlocks, tail_cons] at perm
    rw [isBlocks, head?_cons]
    have split : hashesIn timestampBegin secondsCount (genesis :: rest)
        = (if InInterval timestampBegin secondsCount genesis then [genesis.info.blockHash] else [])
          ++ hashesIn timestampBegin secondsCount rest := by
      unfold hashesIn
      rw [filter_cons]
      simp only [decide_eq_true_eq]
      split <;> rfl
    rw [split]
    constructor
    · intro right
      have length := (perm.symm.trans right).length_eq
      refine ⟨?_, .inl narrow⟩
      rintro first ⟨rfl⟩ inside
      rw [if_pos inside, length_append, length_singleton] at length
      omega
    · rintro ⟨outside, -⟩
      rwa [if_neg (outside genesis rfl)]
  · have wide := Nat.le_of_not_lt narrow
    rw [getBlockHashesByTimestamps_wrapped wide]
    have late : ∀ stored : DatabaseBlock, InInterval timestampBegin secondsCount stored ↔
        timestampBegin.toNat ≤ stored.info.timestamp.toNat := by
      intro stored
      have bound := stored.info.timestamp.toNat_lt
      unfold InInterval
      omega
    constructor
    · intro right
      have empty := nil_perm.mp right
      unfold hashesIn at empty
      rw [map_eq_nil_iff, filter_eq_nil_iff] at empty
      have none : ∀ stored ∈ database.cache.blocks,
          stored.info.timestamp.toNat < timestampBegin.toNat := by
        intro stored member
        have outside := empty stored member
        rw [decide_eq_true_eq, late] at outside
        omega
      refine ⟨?_, .inr none⟩
      intro first isFirst
      rw [late]
      exact Nat.not_le.mpr (none first (mem_of_head? isFirst))
    · rintro ⟨-, none⟩
      have none := none.resolve_left narrow
      have empty : hashesIn timestampBegin secondsCount database.cache.blocks = [] := by
        unfold hashesIn
        rw [map_eq_nil_iff, filter_eq_nil_iff]
        intro stored member
        rw [decide_eq_true_eq, late]
        exact Nat.not_le.mpr (none stored member)
      rw [empty]

/-! ### Runs -/

/-- A pushed block is given together with its raw form, and the blocks that a split cuts
have different timestamps. -/
def TimestampCall (primitives : Primitives) (database : IndexedDatabase) : Call → Prop
  | .pushBlock pushed =>
    primitives.blockFromBinaryArray pushed.rawBlock.block = some pushed.block
  | .split splitBlockIndex _ _ => 0 < splitBlockIndex ∧
      ((database.cache.blocks.drop splitBlockIndex).map fun stored => stored.info.timestamp).Nodup

theorem addGenesisBlock_timestampsExact {genesis : GenesisBlock primitives}
    (created : addGenesisBlock primitives getPaymentIdFromTxExtra genesis = some database) :
    TimestampsExact primitives database := by
  obtain ⟨midnight, -, created⟩ := Option.bind_eq_some_iff.mp created
  cases created
  constructor
  · exact cons_ne_nil _ _
  · intro timestamp
    exact List.Perm.refl _
  · intro stored member
    cases member
  · intro stored member
    cases member

theorem timestampsExact_of_run {genesis : GenesisBlock primitives}
    (reached : GuardedRun.Reached
      (fun start => addGenesisBlock primitives getPaymentIdFromTxExtra genesis = some start)
      (call primitives getPaymentIdFromTxExtra) (TimestampCall primitives) database) :
    TimestampsExact primitives database := by
  apply reached.invariant
  · intro start created
    exact addGenesisBlock_timestampsExact created
  · intro before action after exact meets ran
    cases action with
    | pushBlock pushed => exact exact.push meets (pushBlock_pushed ran)
    | split splitBlockIndex self upper =>
      obtain ⟨⟨segment, lower⟩, splitRan, rfl⟩ := Option.map_eq_some_iff.mp ran
      exact exact.split meets.1 (split_splitAt splitRan) meets.2

/-- After a run whose splits never cut two blocks of one timestamp, a query is right exactly
if it does not ask for the genesis block and does not wrap around; and a further split keeps
all answers right exactly if it cuts no two blocks of one timestamp. -/
theorem timestamp_queries_of_run {genesis : GenesisBlock primitives}
    (reached : GuardedRun.Reached
      (fun start => addGenesisBlock primitives getPaymentIdFromTxExtra genesis = some start)
      (call primitives getPaymentIdFromTxExtra) (TimestampCall primitives) database) :
    (∀ timestampBegin secondsCount,
      (database.getBlockHashesByTimestamps timestampBegin secondsCount).Perm
          (hashesIn timestampBegin secondsCount database.cache.blocks) ↔
        (∀ first ∈ database.cache.blocks.head?, ¬InInterval timestampBegin secondsCount first) ∧
        (timestampBegin.toNat + secondsCount.toNat < 2 ^ 64 ∨
          ∀ stored ∈ database.cache.blocks, stored.info.timestamp.toNat < timestampBegin.toNat)) ∧
    ∀ splitBlockIndex self upper segment lower, 0 < splitBlockIndex →
      database.split primitives getPaymentIdFromTxExtra splitBlockIndex self upper
        = some (segment, lower) →
      ((∀ timestampBegin secondsCount, timestampBegin.toNat + secondsCount.toNat < 2 ^ 64 →
          (lower.getBlockHashesByTimestamps timestampBegin secondsCount).Perm
            (hashesIn timestampBegin secondsCount lower.cache.blocks.tail)) ↔
        ((database.cache.blocks.drop splitBlockIndex).map
          fun stored => stored.info.timestamp).Nodup) := by
  have exact := timestampsExact_of_run reached
  refine ⟨exact.query_iff, ?_⟩
  intro splitBlockIndex self upper segment lower positive ran
  have step := split_splitAt ran
  rw [← exact.split_iff positive step]
  constructor
  · intro right timestamp
    by_cases narrow : timestamp.toNat + 1 < 2 ^ 64
    · -- the list of a timestamp is the answer for one second
      have one := right timestamp 1 narrow
      rwa [getBlockHashesByTimestamps_one narrow, hashesIn_one] at one
    · -- no block has such a late timestamp
      have late : ∀ blocks : List DatabaseBlock,
          (∀ stored ∈ blocks, stored ∈ database.cache.blocks.tail) →
          hashesAt timestamp blocks = [] := by
        intro blocks inside
        unfold hashesAt
        rw [map_eq_nil_iff, filter_eq_nil_iff]
        intro stored member same
        have early := exact.early stored (inside stored member)
        rw [decide_eq_true_eq.mp same] at early
        omega
      have before := exact.recorded timestamp
      rw [late _ fun _ member => member, perm_nil] at before
      rcases get_after_split exact positive step timestamp with ⟨-, same⟩ | ⟨hash, cut, -⟩
      · rw [same, before, late]
        intro stored member
        rw [step.blocks] at member
        rw [tail_eq_append positive]
        exact mem_append_left _ member
      · rw [late _ fun _ member => mem_tail_of_drop positive member] at cut
        cases cut
  · intro recorded timestampBegin secondsCount narrow
    exact getBlockHashesByTimestamps_perm recorded narrow

/-! ### Two blocks of one timestamp -/

def timedChain (first second : UInt64) : List BlockTemplate :=
  [coinbaseBlock 0 0 0 50,
   { coinbaseBlock 1 0 1 50 with timestamp := first },
   { coinbaseBlock 2 1 2 50 with timestamp := second }]

def timedGenesis (first second : UInt64) : GenesisBlock (tablePrimitives (timedChain first second) []) :=
  { block := coinbaseBlock 0 0 0 50
    binaryArray := [0]
    parsed := rfl
    coinbase := inputs_reopened }

def timedBlock (code : UInt8) (block : BlockTemplate) : PushedBlock :=
  { block := block
    transactions := []
    validatorState := { spentKeyImages := [] }
    blockSize := 1
    generatedCoins := 50
    blockDifficulty := 1
    rawBlock := codedBlock code }

def timedDatabase (first second : UInt64) : Option IndexedDatabase := do
  let primitives := tablePrimitives (timedChain first second) []
  let created ← addGenesisBlock primitives (fun _ => none) (timedGenesis first second)
  let grown ← created.pushBlock primitives (fun _ => none)
    (timedBlock 1 { coinbaseBlock 1 0 1 50 with timestamp := first })
  grown.pushBlock primitives (fun _ => none)
    (timedBlock 2 { coinbaseBlock 2 1 2 50 with timestamp := second })

def timedSplit (first second : UInt64) (splitBlockIndex : Nat) : Option IndexedDatabase := do
  let database ← timedDatabase first second
  let (_, lower) ← database.split (tablePrimitives (timedChain first second) []) (fun _ => none)
    splitBlockIndex 0 1
  some lower

theorem timedDatabase_reached {first second : UInt64} {allowed : IndexedDatabase → Call → Prop}
    (pushes : ∀ state pushed,
      (tablePrimitives (timedChain first second) []).blockFromBinaryArray pushed.rawBlock.block
        = some pushed.block → allowed state (.pushBlock pushed))
    (built : timedDatabase first second = some database) :
    GuardedRun.Reached
      (fun start => addGenesisBlock (tablePrimitives (timedChain first second) []) (fun _ => none)
        (timedGenesis first second) = some start)
      (call (tablePrimitives (timedChain first second) []) fun _ => none) allowed database := by
  unfold timedDatabase at built
  obtain ⟨created, isCreated, built⟩ := Option.bind_eq_some_iff.mp built
  obtain ⟨grown, isGrown, built⟩ := Option.bind_eq_some_iff.mp built
  have firstCall : created.call _ (fun _ => none) (.pushBlock _) = some grown := isGrown
  have secondCall : grown.call _ (fun _ => none) (.pushBlock _) = some database := built
  refine .next (.next (.initial isCreated) ?_ firstCall) ?_ secondCall
  · exact pushes _ _ rfl
  · exact pushes _ _ rfl

theorem timed_blocks_found :
    ∃ database, timedDatabase 100 200 = some database ∧
      (database.getBlockHashesByTimestamps 100 101).Perm
        (hashesIn 100 101 database.cache.blocks) ∧
      (hashesIn 100 101 database.cache.blocks).length = 2 := by
  have answers : (timedDatabase 100 200).map (fun database =>
      (database.cache.blocks.head?.all fun genesis => ¬InInterval 100 101 genesis,
        (hashesIn 100 101 database.cache.blocks).length)) = some (true, 2) := by
    decide +kernel
  obtain ⟨database, isDatabase, same⟩ := Option.map_eq_some_iff.mp answers
  obtain ⟨outside, two⟩ := Prod.mk.inj same
  refine ⟨database, isDatabase,
    ((timestamp_queries_of_run (timedDatabase_reached (fun _ _ parsed => parsed) isDatabase)).1 100 101).mpr
      ⟨?_, .inl (by decide)⟩, two⟩
  intro genesis isGenesis
  rw [Option.all_eq_true] at outside
  exact decide_eq_true_eq.mp (outside genesis isGenesis)

/-- Both blocks of the timestamp are cut, and the second one is still found. The genesis
block with its timestamp zero is never found. -/
theorem shared_timestamp_survives_split :
    (timedSplit 100 100 1).map (fun lower =>
      (lower.cache.blocks.map fun stored => stored.info.timestamp,
        lower.getBlockHashesByTimestamps 100 1, lower.getBlockHashesByTimestamps 0 1))
      = some ([0], [{ value := 2 }], []) := by
  decide +kernel

end IndexedDatabase
end Mevacoin
