/-
Window queries over whole histories of the database segment. The cache always holds
the newest blocks of the segment, so that a window does not depend on what is cached
or on where the chain is cut into segments.
-/

import Mevacoin.Cache.Windows
import Mevacoin.Core.Genesis
import Mevacoin.Core.Preservation

namespace Mevacoin
open List

namespace DatabaseBlockchainCache
variable {primitives : Primitives}

/-- The memory segment that takes the upper blocks, and what the database keeps. -/
def split (primitives : Primitives) (cache : DatabaseBlockchainCache) (splitBlockIndex : Nat)
    (self upper : SegmentPtr) : Option (BlockchainCache × DatabaseBlockchainCache) := do
  let segment ← cache.replayUpper primitives splitBlockIndex self
  let lower ← cache.deleteUpper splitBlockIndex upper
  some (segment, lower)

/-- The constructor over a database that has been used before. Where the genesis block is the
only one it is written once more. -/
def reopen (genesis : GenesisBlock primitives) (cache : DatabaseBlockchainCache) :
    DatabaseBlockchainCache :=
  if cache.getTopBlockIndex = 0 then
    let baseTransaction :=
      CachedTransaction.ofTransaction primitives genesis.block.baseTransaction
    { cache.pushTransaction primitives 0 (baseTransaction, 0) with
      blocks := [{
        info := genesis.info
        rawBlock := genesis.rawBlock
        transactionHashes := [baseTransaction.getTransactionHash primitives]
        spentKeyImages := [] }]
      unitsCache := [genesis.info]
      children := [] }
  else { cache with unitsCache := [], children := [] }

/-- What pushes, splits and restarts make of a new database. The genesis block is never cut
off. -/
inductive History (genesis : GenesisBlock primitives) : DatabaseBlockchainCache → Prop where
  | created : History genesis (addGenesisBlock genesis)
  | pushed {cache grown : DatabaseBlockchainCache} {block : PushedBlock}
      (history : History genesis cache) (ran : cache.pushBlock primitives block = some grown) :
      History genesis grown
  | split {cache lower : DatabaseBlockchainCache} {splitBlockIndex : Nat}
      {self upper : SegmentPtr} {segment : BlockchainCache} (history : History genesis cache)
      (positive : 0 < splitBlockIndex) (inside : splitBlockIndex ≤ cache.getTopBlockIndex)
      (ran : cache.split primitives splitBlockIndex self upper = some (segment, lower)) :
      History genesis lower
  | reopened {cache : DatabaseBlockchainCache} (history : History genesis cache) :
      History genesis (cache.reopen genesis)

theorem split_eq_some {cache lower : DatabaseBlockchainCache} {splitBlockIndex : Nat}
    {self upper : SegmentPtr} {segment : BlockchainCache}
    (ran : cache.split primitives splitBlockIndex self upper = some (segment, lower)) :
    cache.replayUpper primitives splitBlockIndex self = some segment ∧
      cache.deleteUpper splitBlockIndex upper = some lower := by
  obtain ⟨segment', replayed, ran⟩ := Option.bind_eq_some_iff.mp ran
  obtain ⟨lower', deleted, ran⟩ := Option.bind_eq_some_iff.mp ran
  cases ran
  exact ⟨replayed, deleted⟩

/-- The chain starts with the genesis block, and the newest blocks are cached. -/
structure Cached (genesis : GenesisBlock primitives) (cache : DatabaseBlockchainCache) :
    Prop where
  rooted : cache.Rooted primitives
  first : cache.entries.head? = some { info := genesis.info, rawBlock := genesis.rawBlock }

variable {genesis : GenesisBlock primitives} {cache : DatabaseBlockchainCache}

theorem Cached.push (cached : cache.Cached genesis) {grown : DatabaseBlockchainCache}
    {block : PushedBlock} (ran : cache.pushBlock primitives block = some grown) :
    grown.Cached genesis := by
  refine ⟨cached.rooted.push ran, ?_⟩
  obtain ⟨last, -, entries, -⟩ := pushBlock_eq_some ran
  rw [entries, head?_append, cached.first]
  rfl

theorem Cached.lower (cached : cache.Cached genesis) {lower : DatabaseBlockchainCache}
    {splitBlockIndex : Nat} {upper : SegmentPtr} (positive : 0 < splitBlockIndex)
    (inside : splitBlockIndex ≤ cache.getTopBlockIndex)
    (ran : cache.deleteUpper splitBlockIndex upper = some lower) : lower.Cached genesis := by
  have below : splitBlockIndex ≤ cache.blocks.length :=
    inside.trans (Nat.sub_le _ _)
  refine ⟨cached.rooted.lower positive below ran, ?_⟩
  rw [entries_of_take (deleteUpper_eq_some ran).1, head?_take,
    if_neg (Nat.ne_of_gt positive), cached.first]

theorem Cached.reopen (cached : cache.Cached genesis) : (cache.reopen genesis).Cached genesis := by
  unfold DatabaseBlockchainCache.reopen
  split
  · exact ⟨⟨(addGenesisBlock_rooted genesis).genesis, suffix_refl _⟩, rfl⟩
  · exact ⟨⟨cached.rooted.genesis, nil_suffix⟩, cached.first⟩

theorem History.cached (history : History genesis cache) : cache.Cached genesis := by
  induction history with
  | created => exact ⟨addGenesisBlock_rooted genesis, rfl⟩
  | pushed _ ran cached => exact cached.push ran
  | split _ positive inside ran cached =>
    exact cached.lower positive inside (split_eq_some ran).2
  | reopened _ cached => exact cached.reopen

end DatabaseBlockchainCache

/-! ### Windows of a history -/

def availableBlocks (blockIndex : Nat) (useGenesis : Bool) (chain : List BlockEntry) :
    List BlockEntry :=
  (chain.take (blockIndex + 1)).drop (if useGenesis then 0 else 1)

def newest {α : Type} (count : Nat) (items : List α) : List α :=
  items.drop (items.length - count)

theorem lastInfos_eq_newest {count blockIndex : Nat} {useGenesis : Bool}
    {chain : List BlockEntry} (inside : blockIndex < chain.length) :
    lastInfos count blockIndex useGenesis (chain.map BlockEntry.info)
      = newest count ((availableBlocks blockIndex useGenesis chain).map BlockEntry.info) := by
  have available : availableBlocks blockIndex useGenesis chain
      = slice chain (if useGenesis then 0 else 1) (blockIndex + 1) := by
    unfold availableBlocks slice
    rw [drop_take]
  have length : (availableBlocks blockIndex useGenesis chain).length
      = blockIndex + 1 - (if useGenesis then 0 else 1) := by
    rw [available, length_slice (Nat.succ_le_of_lt inside)]
  unfold lastInfos newest
  rw [slice_map, length_map, length, ← map_drop, available]
  unfold slice
  rw [drop_take, drop_drop]
  congr 2
  · omega
  · congr 1
    omega

theorem Stacked.database_eq {segments : List Segment} {chain : List BlockEntry}
    (stacked : Stacked segments chain) {root other : DatabaseBlockchainCache}
    (bottom : Segment.database root ∈ segments) (member : Segment.database other ∈ segments) :
    other = root := by
  induction stacked with
  | database cache =>
    cases mem_singleton.mp bottom
    cases mem_singleton.mp member
    rfl
  | memory _ _ ih =>
    apply ih
    · exact (mem_cons.mp bottom).resolve_left (by intro same; cases same)
    · exact (mem_cons.mp member).resolve_left (by intro same; cases same)

/-- A window holds the newest available blocks up to the given one, whatever the database
segment has gone through and wherever the chain is cut, if the count fits 32 bits. -/
theorem getLastUnits_of_history {primitives : Primitives} {genesis : GenesisBlock primitives}
    {root : DatabaseBlockchainCache} (history : root.History genesis) {segments : List Segment}
    {chain : List BlockEntry} (stacked : Stacked segments chain)
    (bottom : Segment.database root ∈ segments) {count blockIndex : Nat} (narrow : count < 2 ^ 32)
    (onChain : blockIndex < chain.length) (useGenesis : Bool) (pred : CachedBlockInfo → UInt64) :
    (Lineage.getLastUnits count blockIndex useGenesis segments).map pred
      = newest count ((availableBlocks blockIndex useGenesis chain).map
          fun entry => pred entry.info) := by
  have units : UnitsCached segments := by
    intro cache member
    cases stacked.database_eq bottom member
    refine ⟨history.cached.rooted.units, ?_⟩
    intro empty
    have first := history.cached.first
    rw [DatabaseBlockchainCache.infos_eq, map_eq_nil_iff] at empty
    rw [empty] at first
    cases first
  rw [stacked.getLastUnits units count blockIndex useGenesis narrow onChain,
    lastInfos_eq_newest onChain]
  unfold newest
  rw [map_drop, map_map, length_map, length_map]
  rfl

/-! ### A count that does not fit -/

/-- The genesis block and one block on top of it, in a database that has been reopened. -/
def reopenedChain : List BlockTemplate := [coinbaseBlock 0 0 0 50, coinbaseBlock 1 0 1 50]

def reopenedGenesis : GenesisBlock (tablePrimitives reopenedChain []) :=
  { block := coinbaseBlock 0 0 0 50
    binaryArray := [0]
    parsed := by decide +kernel
    coinbase := rfl }

theorem inputs_reopened : (coinbaseBlock 0 0 0 50).baseTransaction.inputs = [.base 0] := rfl

def reopenedBlock : PushedBlock :=
  { block := coinbaseBlock 1 0 1 50
    transactions := []
    validatorState := { spentKeyImages := [] }
    blockSize := 1
    generatedCoins := 50
    blockDifficulty := 1
    rawBlock := codedBlock 1 }

def reopenedCache : Option DatabaseBlockchainCache :=
  ((DatabaseBlockchainCache.addGenesisBlock reopenedGenesis).pushBlock
    (tablePrimitives reopenedChain []) reopenedBlock).map
      (DatabaseBlockchainCache.reopen reopenedGenesis)

theorem reopenedCache_history :
    ∃ root, reopenedCache = some root ∧ root.History reopenedGenesis := by
  cases grown : (DatabaseBlockchainCache.addGenesisBlock reopenedGenesis).pushBlock
    (tablePrimitives reopenedChain []) reopenedBlock with
  | none => exact absurd (congrArg Option.isSome grown) (by decide +kernel)
  | some cache =>
    refine ⟨cache.reopen reopenedGenesis, ?_, .reopened (.pushed .created grown)⟩
    unfold reopenedCache
    rw [grown]
    rfl

theorem window_of_reopened :
    ∃ root, root.History reopenedGenesis ∧ (5 : Nat) < 2 ^ 32 ∧ 1 < root.entries.length ∧
      (Lineage.getLastUnits 5 1 true [.database root]).map CachedBlockInfo.cumulativeDifficulty
        = newest 5 ((availableBlocks 1 true root.entries).map
            fun entry => entry.info.cumulativeDifficulty) := by
  obtain ⟨root, isRoot, history⟩ := reopenedCache_history
  have length : reopenedCache.map (fun root => root.entries.length) = some 2 := by
    decide +kernel
  rw [isRoot, Option.map_some, Option.some_inj] at length
  have onChain : 1 < root.entries.length := by omega
  exact ⟨root, history, by decide, onChain, getLastUnits_of_history history
    (Stacked.database root) mem_cons_self (by decide) onChain true _⟩

/-- A count of `2 ^ 32` is narrowed to zero, so that nothing is read from the database. -/
theorem wide_count_reads_nothing :
    ∃ root, root.History reopenedGenesis ∧ root.entries.length = 2 ∧
      Lineage.getLastUnits (2 ^ 32) 1 true [.database root] = [] ∧
      newest (2 ^ 32) (availableBlocks 1 true root.entries) ≠ [] := by
  obtain ⟨root, isRoot, history⟩ := reopenedCache_history
  have answers : reopenedCache.map (fun root => (root.entries.length,
      Lineage.getLastUnits (2 ^ 32) 1 true [.database root],
      (newest (2 ^ 32) (availableBlocks 1 true root.entries)).length)) = some (2, [], 2) := by
    decide +kernel
  rw [isRoot, Option.map_some, Option.some_inj, Prod.mk.injEq, Prod.mk.injEq] at answers
  refine ⟨root, history, answers.1, answers.2.1, ?_⟩
  intro empty
  have length := answers.2.2
  rw [empty] at length
  cases length

end Mevacoin
