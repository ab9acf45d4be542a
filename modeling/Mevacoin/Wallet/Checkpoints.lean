/-
The block hashes that the wallet gives to the daemon. As long as every block extends the
branch, they are the hashes of its newest hundred blocks and then of those at multiples of
5000. Rolled back blocks keep their hashes: a daemon that returns to an earlier branch
skips blocks that the wallet no longer has.
-/

import Mevacoin.Wallet.SyncLoop

namespace Mevacoin
open List WalletTypes Wallet AnsweredBlock SendTransaction SynchronizationStatus

variable {block : AnsweredBlock} {state : LoopState} {branch : List AnsweredBlock}

/-! ### What is remembered -/

def AnsweredBlock.hash (block : AnsweredBlock) : Hash := block.1.blockHash

def isCheckpoint (block : AnsweredBlock) : Bool := block.height % blockHashCheckpointsInterval = 0

def recentBlocks (branch : List AnsweredBlock) : List AnsweredBlock :=
  branch.reverse.take lastKnownBlockHashesSize

def checkpointBlocks (branch : List AnsweredBlock) : List AnsweredBlock :=
  branch.reverse.filter isCheckpoint

/-- The blocks of a branch whose hashes are known, in the order of the request. -/
def rememberedBlocks (branch : List AnsweredBlock) : List AnsweredBlock :=
  recentBlocks branch ++ checkpointBlocks branch

/-- The lists of hashes are those of the branch, and the branch ascends. -/
structure LoopState.Remembers (state : LoopState) : Prop where
  recent : state.backend.walletSynchronizer.syncStatus.lastKnownBlockHashes
    = (recentBlocks state.branch).map hash
  checkpoints : state.backend.walletSynchronizer.syncStatus.blockHashCheckpoints
    = (checkpointBlocks state.branch).map hash
  ascending : state.branch.Pairwise fun older newer => older.height < newer.height

def Extends (block : AnsweredBlock) (backend : WalletBackend) : Prop :=
  backend.HasSynced → backend.lastKnown < block.height

theorem take_cons_of_take {α : Type} (size : Nat) (positive : 0 < size) (item : α)
    (items : List α) :
    (if (item :: items.take size).length > size then (item :: items.take size).dropLast
      else item :: items.take size) = (item :: items).take size := by
  obtain ⟨smaller, isSize⟩ := Nat.exists_eq_succ_of_ne_zero positive.ne'
  rw [isSize]
  split
  · rename_i isFull
    rw [length_cons, length_take] at isFull
    rw [dropLast_eq_take, length_cons, length_take, take_succ_cons]
    have enough : min (smaller + 1) items.length = smaller + 1 := by omega
    rw [enough, Nat.add_sub_cancel, take_succ_cons, take_take,
      Nat.min_eq_left (Nat.le_succ smaller)]
  · rename_i notFull
    rw [length_cons, length_take] at notFull
    rw [take_succ_cons, take_of_length_le (by omega : items.length ≤ smaller + 1),
      take_of_length_le (by omega)]

theorem storeBlockHash_lists {hash : Hash} {height : UInt64} {status after : SynchronizationStatus}
    (stored : status.storeBlockHash hash height = .ok after) :
    after.blockHashCheckpoints = (if height % blockHashCheckpointsInterval = 0 then
        hash :: status.blockHashCheckpoints else status.blockHashCheckpoints) ∧
      after.lastKnownBlockHashes =
        (if (hash :: status.lastKnownBlockHashes).length > lastKnownBlockHashesSize then
          (hash :: status.lastKnownBlockHashes).dropLast
        else hash :: status.lastKnownBlockHashes) := by
  obtain ⟨_, finished⟩ := Checked.rejectIf_bind_eq_ok.mp stored
  cases finished
  exact ⟨rfl, rfl⟩

theorem keptBranch_of_extends
    (invariant : state.Invariant) (extending : Extends block state.backend) :
    keptBranch block state.backend state.branch = state.branch ∧
      ∀ other ∈ state.branch, other.height < block.height := by
  by_cases synced : state.backend.HasSynced
  · have isHigher := extending synced
    unfold keptBranch
    rw [if_neg (UInt64.not_le.mpr isHigher)]
    exact ⟨rfl, fun other member => UInt64.lt_of_le_of_lt (invariant.heights other member) isHigher⟩
  · rw [(invariant.unsynced synced).1]
    unfold keptBranch branchBelow
    refine ⟨?_, nofun⟩
    split
    · rfl
    · rfl

theorem loopStep_remembers {crypto : WalletCrypto} {after : LoopState} {reply : Reply}
    (invariant : state.Invariant) (remembers : state.Remembers)
    (extending : ∀ block later, state.queued = block :: later → Extends block state.backend)
    (ran : loopStep crypto state reply = .ok after) : after.Remembers := by
  cases isQueued : state.queued with
  | nil =>
    rw [loopStep_empty isQueued] at ran
    cases ran
    rcases receiveBatch_fst reply state.backend with same | ⟨_, _, converted⟩
    · rw [same]
      exact ⟨remembers.recent, remembers.checkpoints, remembers.ascending⟩
    · rw [converted]
      exact ⟨remembers.recent, remembers.checkpoints, remembers.ascending⟩
  | cons block later =>
    obtain ⟨backend, processed, isAfter⟩ := (loopStep_queued isQueued).mp ran
    obtain ⟨kept, below⟩ := keptBranch_of_extends invariant (extending block later isQueued)
    rw [isAfter, kept]
    rcases processBlock_eq_ok.mp processed with
      ⟨missing, isBackend⟩ | ⟨scanned, status, isScanned, stored, isBackend⟩
    · have notStored : isStored crypto block state.backend = false := by
        unfold isStored
        rw [missing]
      rw [isBackend, notStored]
      exact ⟨remembers.recent, remembers.checkpoints, remembers.ascending⟩
    · have isStored : isStored crypto block state.backend = true := by
        unfold isStored
        rw [isScanned]
      obtain ⟨checkpoints, recent⟩ := storeBlockHash_lists stored
      rw [isBackend, isStored]
      refine ⟨?_, ?_, ?_⟩
      · change status.lastKnownBlockHashes
          = ((state.branch ++ [block]).reverse.take lastKnownBlockHashesSize).map _
        rw [recent, remembers.recent, recentBlocks, map_take, map_take, reverse_concat, map_cons]
        exact take_cons_of_take lastKnownBlockHashesSize (by decide) _ _
      · change status.blockHashCheckpoints = ((state.branch ++ [block]).reverse.filter _).map _
        rw [checkpoints, remembers.checkpoints, checkpointBlocks, reverse_concat]
        by_cases isMultiple : block.1.blockHeight % blockHashCheckpointsInterval = 0
        · have isPoint : isCheckpoint block = true := decide_eq_true isMultiple
          rw [if_pos isMultiple, filter_cons_of_pos isPoint]
          rfl
        · have noPoint : ¬isCheckpoint block = true :=
            fun isPoint => isMultiple (of_decide_eq_true isPoint)
          rw [if_neg isMultiple, filter_cons_of_neg noPoint]
      · change (state.branch ++ [block]).Pairwise _
        rw [pairwise_append]
        refine ⟨remembers.ascending, pairwise_singleton _ _, ?_⟩
        intro other member last isLast
        rw [mem_singleton.mp isLast]
        exact below other member

section
variable (ascending : branch.Pairwise fun older newer => older.height < newer.height)
include ascending

theorem reverse_descending :
    branch.reverse.Pairwise fun newer older => older.height < newer.height :=
  pairwise_reverse.mpr ascending

theorem recentBlocks_newer {recent : AnsweredBlock} (isRecent : recent ∈ recentBlocks branch)
    (member : block ∈ branch) (notRecent : block ∉ recentBlocks branch) :
    block.height < recent.height := by
  have descending := reverse_descending ascending
  rw [← take_append_drop lastKnownBlockHashesSize branch.reverse, pairwise_append] at descending
  refine descending.2.2 recent isRecent block ?_
  have inside := mem_reverse.mpr member
  rw [← take_append_drop lastKnownBlockHashesSize branch.reverse, mem_append] at inside
  exact inside.resolve_left notRecent

/-- The hashes are listed from the newest to the oldest exactly when a checkpoint among
the newest blocks is the oldest of them. -/
theorem rememberedBlocks_sorted_iff :
    ((rememberedBlocks branch).Pairwise fun newer older => older.height ≤ newer.height) ↔
      ∀ block ∈ recentBlocks branch, isCheckpoint block = true →
        ∀ other ∈ recentBlocks branch, block.height ≤ other.height := by
  have descending : branch.reverse.Pairwise fun newer older => older.height ≤ newer.height :=
    (reverse_descending ascending).imp UInt64.le_of_lt
  have recentSorted := descending.sublist (take_sublist lastKnownBlockHashesSize _)
  have checkpointsSorted := descending.sublist (filter_sublist (p := isCheckpoint))
  unfold rememberedBlocks
  rw [pairwise_append]
  constructor
  · intro ⟨_, _, across⟩ block isRecent isMultiple other otherRecent
    refine across other otherRecent block (mem_filter.mpr ⟨?_, isMultiple⟩)
    exact mem_of_mem_take isRecent
  · intro oldest
    refine ⟨recentSorted, checkpointsSorted, fun recent isRecent block isBlock => ?_⟩
    obtain ⟨inside, isMultiple⟩ := mem_filter.mp isBlock
    by_cases alsoRecent : block ∈ recentBlocks branch
    · exact oldest block alsoRecent isMultiple recent isRecent
    · exact UInt64.le_of_lt
        (recentBlocks_newer ascending isRecent (mem_reverse.mp inside) alsoRecent)

end

theorem mem_of_mem_remembered
    (member : block ∈ rememberedBlocks branch) : block ∈ branch := by
  rcases mem_append.mp member with isRecent | isCheckpoint
  · exact mem_reverse.mp (mem_of_mem_take isRecent)
  · exact mem_reverse.mp (mem_of_mem_filter isCheckpoint)

/-! ### What the daemon makes of them -/

/-- A block hash stands for one block with its height and all blocks below it: wherever
the chain has the hash of a block of the branch, it has the branch up to that block. -/
def Agrees (chain : List WalletBlockInfo) (branch : List AnsweredBlock) : Prop :=
  ∀ block ∈ branch, ∀ (index : Nat) (entry : WalletBlockInfo), chain[index]? = some entry →
    entry.blockHash = block.hash →
    block.height.toNat = index ∧ ∀ other ∈ branch, other.height ≤ block.height →
      chain[other.height.toNat]? = some other.1

theorem exists_of_findIdx? {chain : List WalletBlockInfo} {hash : Hash} {index : Nat}
    (found : chain.findIdx? (fun block => block.blockHash = hash) = some index) :
    ∃ entry, chain[index]? = some entry ∧ entry.blockHash = hash := by
  obtain ⟨isInside, isHash, _⟩ := findIdx?_eq_some_iff_getElem.mp found
  exact ⟨chain[index], getElem?_eq_getElem isInside, of_decide_eq_true isHash⟩

theorem supplement_applied {daemon : SyncDaemon} {index : Nat}
    (invariant : state.Invariant) (complete : state.Complete) (remembers : state.Remembers)
    (agrees : Agrees daemon.chain state.branch)
    (found : daemon.findBlockchainSupplement
      state.backend.walletSynchronizer.syncStatus.getBlockHashCheckpoints = some index)
    {height : UInt64} (started : state.backend.walletSynchronizer.startHeight ≤ height)
    (notAfter : height.toNat ≤ index) :
    ∃ block ∈ state.branch, daemon.chain[height.toNat]? = some block.1 := by
  obtain ⟨hash, isKnown, isIndex⟩ := exists_of_findSome?_eq_some found
  unfold getBlockHashCheckpoints at isKnown
  rw [remembers.recent, remembers.checkpoints, ← map_append] at isKnown
  obtain ⟨block, isRemembered, isHash⟩ := mem_map.mp isKnown
  have inBranch := mem_of_mem_remembered isRemembered
  obtain ⟨entry, isEntry, entryHash⟩ := exists_of_findIdx? isIndex
  obtain ⟨isHeight, below⟩ := agrees block inBranch index entry isEntry (entryHash.trans isHash.symm)
  have synced : state.backend.HasSynced := by
    by_contra unsynced
    rw [(invariant.unsynced unsynced).1] at inBranch
    cases inBranch
  have heightLe : height ≤ block.height := UInt64.le_iff_toNat_le.mpr (by omega)
  obtain ⟨applied, member, isApplied⟩ := complete synced height started
    (UInt64.le_trans heightLe (invariant.heights block inBranch))
  rw [← isApplied] at heightLe ⊢
  exact ⟨applied, member, below applied member heightLe⟩

/-- If the newest block that chain and branch have in common is remembered, it is the one
that the daemon recognises. -/
theorem supplement_newest {daemon : SyncDaemon}
    (remembers : state.Remembers) (agrees : Agrees daemon.chain state.branch)
    (isRemembered : block ∈ rememberedBlocks state.branch)
    (isCommon : daemon.chain[block.height.toNat]? = some block.1)
    (newest : ∀ other ∈ state.branch, block.height < other.height →
      ∀ entry ∈ daemon.chain, entry.blockHash ≠ other.hash) :
    daemon.findBlockchainSupplement
        state.backend.walletSynchronizer.syncStatus.getBlockHashCheckpoints
      = some block.height.toNat := by
  have inBranch := mem_of_mem_remembered isRemembered
  have recognised : daemon.chain.findIdx? (fun entry => entry.blockHash = block.hash)
      = some block.height.toNat := by
    cases found : daemon.chain.findIdx? (fun entry => decide (entry.blockHash = block.hash)) with
    | none =>
      have absent := findIdx?_eq_none_iff.mp found block.1 (mem_of_getElem? isCommon)
      exact absurd (decide_eq_true rfl) (Bool.eq_false_iff.mp absent)
    | some index =>
      obtain ⟨entry, isEntry, isHash⟩ := exists_of_findIdx? found
      rw [(agrees block inBranch index entry isEntry isHash).1]
  have unknown : ∀ other ∈ state.branch, block.height < other.height →
      daemon.chain.findIdx? (fun entry => entry.blockHash = other.hash) = none := by
    intro other member isNewer
    rw [findIdx?_eq_none_iff]
    intro entry inChain
    exact decide_eq_false (newest other member isNewer entry inChain)
  have descending := reverse_descending remembers.ascending
  -- Blocks before this one in either list are newer and not on the chain.
  have firstOf : ∀ blocks : List AnsweredBlock, blocks.Sublist state.branch.reverse →
      block ∈ blocks → (blocks.map hash).findSome? (fun hash =>
        daemon.chain.findIdx? fun entry => entry.blockHash = hash) = some block.height.toNat := by
    intro blocks sub member
    obtain ⟨newer, older, isBlocks⟩ := append_of_mem member
    have sorted := descending.sublist sub
    rw [isBlocks, pairwise_append] at sorted
    rw [isBlocks, map_append, findSome?_append, findSome?_eq_none_iff.mpr,
      map_cons, findSome?_cons, recognised]
    · rfl
    · intro hash isHash
      obtain ⟨other, isNewer, same⟩ := mem_map.mp isHash
      rw [← same]
      refine unknown other ?_ (sorted.2.2 other isNewer block mem_cons_self)
      exact mem_reverse.mp (sub.subset (by rw [isBlocks]; exact mem_append_left _ isNewer))
  unfold SyncDaemon.findBlockchainSupplement getBlockHashCheckpoints
  rw [remembers.recent, remembers.checkpoints, findSome?_append]
  by_cases isRecent : block ∈ recentBlocks state.branch
  · rw [firstOf (recentBlocks state.branch) (take_sublist _ _) isRecent]
    rfl
  · have isPoint := (mem_append.mp isRemembered).resolve_left isRecent
    rw [findSome?_eq_none_iff.mpr, firstOf (checkpointBlocks state.branch) filter_sublist isPoint]
    · rfl
    · intro hash isHash
      obtain ⟨recent, inRecent, same⟩ := mem_map.mp isHash
      rw [← same]
      exact unknown recent (mem_reverse.mp (mem_of_mem_take inRecent))
        (recentBlocks_newer remembers.ascending inRecent inBranch isRecent)

/-! ### Runs without reorganisations -/

theorem LoopState.initial_remembers {backend : WalletBackend} (isNew : backend.IsNew) :
    (initial backend).Remembers where
  recent := by
    unfold initial
    rw [isNew.status]
    rfl
  checkpoints := by
    unfold initial
    rw [isNew.status]
    rfl
  ascending := .nil

theorem mainLoop_remembers {crypto : WalletCrypto} {replies : List Reply} {backend : WalletBackend}
    (isNew : backend.IsNew) (known : backend.subWallets.KeysKnown)
    (extending : ∀ done reply rest state block later, replies = done ++ reply :: rest →
      mainLoop crypto done (.initial backend) = .ok state → state.queued = block :: later →
      Extends block state.backend) {done rest : List Reply} (isReplies : replies = done ++ rest)
    (ran : mainLoop crypto done (.initial backend) = .ok state) : state.Remembers := by
  induction done using reverseRecOn generalizing rest state with
  | nil =>
    cases ran
    exact LoopState.initial_remembers isNew
  | append_singleton done reply ih =>
    obtain ⟨middle, earlier, stepped⟩ := mainLoop_concat_eq_ok.mp ran
    have isSplit : replies = done ++ reply :: rest := by simp [isReplies]
    exact loopStep_remembers
      (mainLoop_invariant (LoopState.initial_invariant isNew known) earlier)
      (ih isSplit earlier)
      (fun block later isQueued => extending done reply rest middle block later isSplit earlier
        isQueued) stepped

/-- In every run in which each block may be processed and extends the branch, at every
moment: the hashes are those of blocks in the wallet; they are listed from the newest to
the oldest exactly when a checkpoint among the newest hundred blocks is the oldest of
them; what the daemon leaves out is in the wallet; and it starts after the newest common
block whenever that one is remembered. -/
theorem checkpoints_describe_branch (crypto : WalletCrypto) (replies : List Reply)
    {backend : WalletBackend} (isNew : backend.IsNew) (known : backend.subWallets.KeysKnown)
    (steps : ∀ done reply rest state block later, replies = done ++ reply :: rest →
      mainLoop crypto done (.initial backend) = .ok state → state.queued = block :: later →
      MayProcess crypto block state.backend ∧ Extends block state.backend) :
    ∀ done rest, replies = done ++ rest →
      ∃ state, mainLoop crypto done (.initial backend) = .ok state ∧
        state.backend.walletSynchronizer.syncStatus.getBlockHashCheckpoints
          = (rememberedBlocks state.branch).map hash ∧
        (∀ block ∈ rememberedBlocks state.branch, block ∈ state.branch) ∧
        (((rememberedBlocks state.branch).Pairwise fun newer older =>
            older.height ≤ newer.height) ↔
          ∀ block ∈ recentBlocks state.branch, isCheckpoint block = true →
            ∀ other ∈ recentBlocks state.branch, block.height ≤ other.height) ∧
        ∀ daemon : SyncDaemon, Agrees daemon.chain state.branch →
          (∀ index height, daemon.findBlockchainSupplement
              state.backend.walletSynchronizer.syncStatus.getBlockHashCheckpoints = some index →
            state.backend.walletSynchronizer.startHeight ≤ height → height.toNat ≤ index →
            ∃ block ∈ state.branch, daemon.chain[height.toNat]? = some block.1) ∧
          ∀ block ∈ rememberedBlocks state.branch,
            daemon.chain[block.height.toNat]? = some block.1 →
            (∀ other ∈ state.branch, block.height < other.height →
              ∀ entry ∈ daemon.chain, entry.blockHash ≠ other.hash) →
            daemon.findBlockchainSupplement
                state.backend.walletSynchronizer.syncStatus.getBlockHashCheckpoints
              = some block.height.toNat := by
  intro done rest isReplies
  obtain ⟨state, ran, complete⟩ := (mainLoop_complete_iff crypto replies isNew known).mpr
    (fun done reply rest state block later isReplies ran isQueued =>
      (steps done reply rest state block later isReplies ran isQueued).1) done rest isReplies
  have invariant := mainLoop_invariant (LoopState.initial_invariant isNew known) ran
  have remembers := mainLoop_remembers isNew known
    (fun done reply rest state block later isReplies ran isQueued =>
      (steps done reply rest state block later isReplies ran isQueued).2) isReplies ran
  refine ⟨state, ran, ?_, fun block => mem_of_mem_remembered,
    rememberedBlocks_sorted_iff remembers.ascending, fun daemon agrees => ⟨?_, ?_⟩⟩
  · unfold getBlockHashCheckpoints
    rw [remembers.recent, remembers.checkpoints, ← map_append]
    rfl
  · intro index height found started notAfter
    exact supplement_applied invariant complete remembers agrees found started notAfter
  · intro block isRemembered isCommon newest
    exact supplement_newest remembers agrees isRemembered isCommon newest

theorem checkpoints_two_blocks : ∃ state,
    mainLoop flatCrypto (replicate 3 twoEmptyBlocks) (.initial newWallet)
        = .ok state ∧
      state.backend.walletSynchronizer.syncStatus.getBlockHashCheckpoints
        = (rememberedBlocks state.branch).map hash ∧
      (rememberedBlocks state.branch).map hash = [⟨11⟩, ⟨10⟩, ⟨10⟩] := by
  obtain ⟨state, ran, same, _⟩ := checkpoints_describe_branch flatCrypto
    (replicate 3 twoEmptyBlocks) newWallet_isNew (by decide)
    (fun _ _ _ _ _ _ isReplies ran isQueued => twoEmptyBlocks_turns isReplies ran isQueued)
    _ [] (append_nil _).symm
  refine ⟨state, ran, same, ?_⟩
  cases ran
  rfl

/-- The blocks of a first branch, and of a second one from height 2 on. -/
def firstBranch : List WalletBlockInfo :=
  [blockWith 0 ⟨10⟩ [], blockWith 1 ⟨11⟩ [], blockWith 2 ⟨12⟩ [payment ⟨3⟩ (some 0)],
    blockWith 3 ⟨13⟩ [], blockWith 4 ⟨14⟩ []]

def secondBranch : List WalletBlockInfo :=
  [blockWith 2 ⟨22⟩ [], blockWith 3 ⟨23⟩ [], blockWith 4 ⟨24⟩ []]

/-- The wallet follows the first branch up to height 3 and then the second one. -/
def thereReplies : List Reply :=
  replicate 5 (batch (firstBranch.take 4)) ++ replicate 4 (batch secondBranch)

def firstBranchDaemon : SyncDaemon :=
  { chain := firstBranch, blockCount := 100, blockHeightForTimestamp := fun _ => none }

/-- Back on the first branch the daemon recognises block 3, which the wallet has rolled
back, and sends block 4: blocks 2 and 3 are never applied again, and neither is the
payment in block 2. -/
theorem stale_checkpoint : ∃ state,
    mainLoop flatCrypto thereReplies (.initial newWallet) = .ok state ∧
      state.branch.map hash = [⟨10⟩, ⟨11⟩, ⟨22⟩, ⟨23⟩, ⟨24⟩] ∧
      state.backend.walletSynchronizer.syncStatus.getBlockHashCheckpoints
        = [⟨24⟩, ⟨23⟩, ⟨22⟩, ⟨13⟩, ⟨12⟩, ⟨11⟩, ⟨10⟩, ⟨10⟩] ∧
      firstBranchDaemon.findBlockchainSupplement
        state.backend.walletSynchronizer.syncStatus.getBlockHashCheckpoints = some 3 ∧
      ∃ next, synchroniseOnce flatCrypto (fun _ _ => none) firstBranchDaemon
          state.backend = .ok next ∧
        next.lastKnown = 4 ∧
        (next.subWallets.subWallets.map SubWallet.storedInputs) = [[]] :=
  ⟨_, rfl, rfl, rfl, rfl, _, rfl, rfl, rfl⟩

end Mevacoin
