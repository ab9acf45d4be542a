/-
The main loop of the synchronizer. It asks the daemon for blocks when its queue is empty
and otherwise processes the next block of the queue.
-/

import Mevacoin.Wallet.Replay
import Mevacoin.Wallet.Storable

namespace Mevacoin
open List WalletTypes Wallet UInt64 Checked SendTransaction SynchronizationStatus

variable {crypto : WalletCrypto} {reply : Reply} {after state : LoopState} {block : AnsweredBlock}
  {backend : WalletBackend}

/-- What the daemon answers to a request for blocks. -/
structure Reply where
  localDaemonBlockCount : Nat
  blocks : Option (List AnsweredBlock)

def receiveBatch (reply : Reply) (backend : WalletBackend) : WalletBackend × List AnsweredBlock :=
  let synchronizer := backend.walletSynchronizer
  if reply.localDaemonBlockCount < synchronizer.syncStatus.lastKnownBlockHeight.toNat then
    (backend, [])
  else
    match reply.blocks with
    | none | some [] => (backend, [])
    | some (first :: rest) =>
      let converted :=
        if synchronizer.startTimestamp ≠ 0 then
          { synchronizer with startTimestamp := 0, startHeight := first.height }
        else synchronizer
      let backend := { backend with walletSynchronizer := converted }
      if synchronizer.syncStatus.getBlockHashCheckpoints.isEmpty
          ∧ first.height ≠ converted.startHeight then (backend, [])
      else (backend, first :: rest)

theorem downloadBlocks_eq_receiveBatch (daemon : SyncDaemon) (indexes : GetGlobalIndexes)
    (backend : WalletBackend) :
    let reply : Reply :=
      { localDaemonBlockCount := daemon.chain.length - 1
        blocks := (daemon.getWalletSyncData
          backend.walletSynchronizer.syncStatus.getBlockHashCheckpoints
          backend.walletSynchronizer.startHeight backend.walletSynchronizer.startTimestamp).map
            (map fun block => (block, indexes)) }
    downloadBlocks daemon backend
      = ((receiveBatch reply backend).1, (receiveBatch reply backend).2.map Prod.fst) := by
  unfold downloadBlocks receiveBatch
  dsimp only
  split
  · rfl
  · generalize daemon.getWalletSyncData _ _ _ = answer
    match answer with
    | none => rfl
    | some [] => rfl
    | some (first :: rest) =>
      simp only [Option.map_some, map_cons, AnsweredBlock.height]
      split
      · split
        · rfl
        · simp [Function.comp_def]
      · split
        · rfl
        · simp [Function.comp_def]

/-- `queued` holds the blocks of the last batch that are still to be processed, `branch`
the blocks that are stored. -/
structure LoopState where
  backend : WalletBackend
  queued : List AnsweredBlock
  branch : List AnsweredBlock

/-- Whether a block gets stored or stops for want of a global index. -/
def isStored (crypto : WalletCrypto) (block : AnsweredBlock) (backend : WalletBackend) : Bool :=
  match scanBlock crypto backend.walletSynchronizer.privateViewKey block.2 block.1
    (rollBackFor block.1 backend) with
  | .ok (some _) => true
  | _ => false

/-- What a rollback before the block leaves of the branch. -/
def keptBranch (block : AnsweredBlock) (backend : WalletBackend) (branch : List AnsweredBlock) :
    List AnsweredBlock :=
  if backend.lastKnown ≥ block.height then branchBelow block.height branch else branch

/-- One step of the loop; the reply is used when nothing is queued. Sleeping, stopping and
the check of sent transactions are left out. -/
def loopStep (crypto : WalletCrypto) (state : LoopState) (reply : Reply) :
    Except Failure LoopState :=
  match state.queued with
  | [] =>
    let (backend, blocks) := receiveBatch reply state.backend
    .ok { state with backend := backend, queued := blocks }
  | block :: later => do
    let after ← processBlock crypto block.2 block.1 state.backend
    let kept := keptBranch block state.backend state.branch
    return {
      backend := after
      queued := later
      branch := if isStored crypto block state.backend then kept ++ [block] else kept }

def mainLoop (crypto : WalletCrypto) (replies : List Reply) (state : LoopState) :
    Except Failure LoopState :=
  replies.foldlM (loopStep crypto) state

theorem mainLoop_concat_eq_ok {done : List Reply} {start : LoopState} :
    mainLoop crypto (done ++ [reply]) start = .ok after ↔
      ∃ middle, mainLoop crypto done start = .ok middle ∧ loopStep crypto middle reply = .ok after := by
  unfold mainLoop
  rw [foldlM_concat, bind_eq_ok]

def WalletBackend.HasSynced (backend : WalletBackend) : Prop :=
  backend.walletSynchronizer.syncStatus.lastKnownBlockHashes ≠ []

instance (backend : WalletBackend) : Decidable backend.HasSynced :=
  inferInstanceAs (Decidable (_ ≠ _))

/-- Once a block has been stored, every height from the start up to the last known one has
its block in the branch. -/
def LoopState.Complete (state : LoopState) : Prop :=
  state.backend.HasSynced → ∀ height, state.backend.walletSynchronizer.startHeight ≤ height →
    height ≤ state.backend.lastKnown → ∃ block ∈ state.branch, block.height = height

structure LoopState.Invariant (state : LoopState) : Prop where
  heights : ∀ block ∈ state.branch, block.height ≤ state.backend.lastKnown
  unsynced : ¬state.backend.HasSynced → state.branch = [] ∧ state.backend.lastKnown = 0
  synced : state.backend.HasSynced → state.backend.walletSynchronizer.startTimestamp = 0
  started : state.queued ≠ [] → state.backend.walletSynchronizer.startTimestamp = 0
  keysDistinct : state.backend.subWallets.KeysDistinct
  keysKnown : state.backend.subWallets.KeysKnown

/-- What a block has to meet in the state before it. Without its global indexes it must
not begin with a rollback of known blocks; with them it must be storable, and its height
at most one above the last known one, or the first from the start. -/
def MayProcess (crypto : WalletCrypto) (block : AnsweredBlock) (backend : WalletBackend) : Prop :=
  let synchronizer := backend.walletSynchronizer
  let wallets := rollBackFor block.1 backend
  ∀ ourInputs,
    processBlockOutputs crypto wallets synchronizer.privateViewKey block.1 = .ok ourInputs →
    match ourInputs.mapM (fillGlobalIndex wallets.isViewWallet
      (getGlobalIndexes block.2 block.height)) with
    | none => backend.HasSynced →
      backend.lastKnown < block.height ∨ backend.lastKnown < synchronizer.startHeight
    | some inputs => Storable (processBlockTransactions wallets block.1 inputs) wallets ∧
      ((backend.HasSynced ∧ block.height.toNat ≤ backend.lastKnown.toNat + 1) ∨
        (backend.lastKnown = 0 ∧ block.height ≤ synchronizer.startHeight))

/-! ### One block -/

theorem succ_toNat {low high : UInt64} (isLower : low < high) :
    (low + 1).toNat = low.toNat + 1 := by
  have bound := high.toNat_lt
  have isLower := lt_iff_toNat_lt.mp isLower
  exact Nat.mod_eq_of_lt (by change low.toNat + 1 < 2 ^ 64; omega)

theorem storeBlockHash_hasSynced {hash : Hash} {height : UInt64}
    {status after : SynchronizationStatus} (stored : status.storeBlockHash hash height = .ok after) :
    after.lastKnownBlockHashes ≠ [] := by
  obtain ⟨_, finished⟩ := rejectIf_bind_eq_ok.mp stored
  cases finished
  dsimp only
  split
  · rename_i isFull
    intro none
    have lengths := congrArg length none
    rw [length_dropLast, length_nil] at lengths
    unfold lastKnownBlockHashesSize at isFull
    omega
  · exact cons_ne_nil _ _

theorem mem_keptBranch {other : AnsweredBlock}
    {branch : List AnsweredBlock} (heights : ∀ block ∈ branch, block.height ≤ backend.lastKnown) :
    other ∈ keptBranch block backend branch ↔ other ∈ branch ∧ other.height < block.height := by
  unfold keptBranch
  split
  · rw [branchBelow, mem_filter, decide_eq_true_iff]
  · rename_i isHigher
    refine ⟨fun member => ⟨member, ?_⟩, And.left⟩
    exact UInt64.lt_of_le_of_lt (heights other member) (UInt64.not_le.mp isHigher)

section
variable {block : AnsweredBlock} {state : LoopState} {later : List AnsweredBlock}
  {wallets : SubWallets} (invariant : state.Invariant) (complete : state.Complete)
include invariant complete

theorem complete_missing_iff :
    LoopState.Complete
        { backend := { state.backend with subWallets := wallets }
          queued := later
          branch := keptBranch block state.backend state.branch } ↔
      (state.backend.HasSynced → state.backend.lastKnown < block.height ∨
        state.backend.lastKnown < state.backend.walletSynchronizer.startHeight) := by
  constructor
  · intro after synced
    by_contra neither
    obtain ⟨notBefore, notStarted⟩ := not_or.mp neither
    obtain ⟨other, member, isLast⟩ := after synced state.backend.lastKnown
      (UInt64.not_lt.mp notStarted) (UInt64.le_refl _)
    rw [← isLast] at notBefore
    exact notBefore ((mem_keptBranch invariant.heights).mp member).2
  · intro allowed synced height started notAfter
    obtain ⟨other, member, isHeight⟩ := complete synced height started notAfter
    refine ⟨other, (mem_keptBranch invariant.heights).mpr ⟨member, ?_⟩, isHeight⟩
    rw [isHeight]
    rcases allowed synced with before | notStarted
    · exact UInt64.lt_of_le_of_lt notAfter before
    · exact absurd (UInt64.le_trans started notAfter) (UInt64.not_le.mpr notStarted)

theorem complete_stored_iff :
    (∃ status, state.backend.walletSynchronizer.syncStatus.storeBlockHash block.1.blockHash
        block.1.blockHeight = .ok status ∧
      LoopState.Complete
        { backend :=
            { subWallets := wallets
              walletSynchronizer := { state.backend.walletSynchronizer with syncStatus := status } }
          queued := later
          branch := keptBranch block state.backend state.branch ++ [block] }) ↔
      (state.backend.HasSynced ∧ block.height.toNat ≤ state.backend.lastKnown.toNat + 1) ∨
        (state.backend.lastKnown = 0 ∧
          block.height ≤ state.backend.walletSynchronizer.startHeight) := by
  constructor
  · intro ⟨status, stored, after⟩
    obtain ⟨isHeight, consecutive⟩ := storeBlockHash_eq_ok stored
    have covered : ∀ height, state.backend.walletSynchronizer.startHeight ≤ height →
        height < block.height → ∃ other ∈ state.branch, other.height = height := by
      intro height started isBelow
      have notAfter : height ≤ status.lastKnownBlockHeight := by
        rw [isHeight]
        exact UInt64.le_of_lt isBelow
      obtain ⟨other, member, same⟩ := after (storeBlockHash_hasSynced stored) height started notAfter
      rcases mem_append.mp member with kept | isBlock
      · exact ⟨other, ((mem_keptBranch invariant.heights).mp kept).1, same⟩
      · rw [← same, mem_singleton.mp isBlock] at isBelow
        exact absurd isBelow (UInt64.lt_irrefl _)
    by_cases synced : state.backend.HasSynced
    · by_cases near : block.height.toNat ≤ state.backend.lastKnown.toNat + 1
      · exact .inl ⟨synced, near⟩
      · have isHigher : state.backend.lastKnown < block.height :=
          lt_iff_toNat_lt.mpr (by omega)
        have notNext : block.height ≠ state.backend.lastKnown + 1 := by
          intro isNext
          rw [isNext, succ_toNat isHigher] at near
          exact near (Nat.le_refl _)
        have isFirst := (consecutive isHigher).resolve_right notNext
        refine .inr ⟨isFirst, UInt64.not_lt.mp fun started => ?_⟩
        -- The block just below would have to be in the branch, above everything there.
        have startedNat := lt_iff_toNat_lt.mp started
        have predecessor : (block.height - 1).toNat = block.height.toNat - 1 := by
          rw [UInt64.toNat_sub_of_le _ _ (UInt64.le_iff_toNat_le.mpr (by
            change 1 ≤ block.height.toNat
            omega))]
          rfl
        obtain ⟨other, member, same⟩ := covered (block.height - 1)
          (le_iff_toNat_le.mpr (by omega)) (lt_iff_toNat_lt.mpr (by omega))
        have bounded := le_iff_toNat_le.mp (invariant.heights other member)
        rw [same, predecessor] at bounded
        omega
    · obtain ⟨noBranch, lastZero⟩ := invariant.unsynced synced
      refine .inr ⟨lastZero, UInt64.not_lt.mp fun started => ?_⟩
      obtain ⟨other, member, _⟩ := covered _ (UInt64.le_refl _) started
      rw [noBranch] at member
      cases member
  · intro inPlace
    have accepted : ∃ status, state.backend.walletSynchronizer.syncStatus.storeBlockHash
        block.1.blockHash block.1.blockHeight = .ok status ∧
        status.lastKnownBlockHeight = block.height := by
      refine exists_storeBlockHash _ fun isHigher => ?_
      rcases inPlace with ⟨_, near⟩ | ⟨isFirst, _⟩
      · have next := succ_toNat isHigher
        have higher := lt_iff_toNat_lt.mp isHigher
        refine .inr (UInt64.toNat_inj.mp ?_)
        rw [next]
        exact Nat.le_antisymm near higher
      · exact .inl isFirst
    obtain ⟨status, stored, isHeight⟩ := accepted
    refine ⟨status, stored, fun _ height started notAfter => ?_⟩
    have notAfter : height ≤ block.height := by
      rw [← isHeight]
      exact notAfter
    by_cases isBlock : height = block.height
    · exact ⟨block, mem_append_right _ mem_cons_self, isBlock.symm⟩
    · have isBelow : height < block.height := UInt64.lt_of_le_of_ne notAfter isBlock
      rcases inPlace with ⟨synced, near⟩ | ⟨_, first⟩
      · have known : height ≤ state.backend.lastKnown :=
          le_iff_toNat_le.mpr (by
            have := lt_iff_toNat_lt.mp isBelow
            omega)
        obtain ⟨other, member, same⟩ := complete synced height started known
        refine ⟨other, mem_append_left _ ((mem_keptBranch invariant.heights).mpr
          ⟨member, ?_⟩), same⟩
        rw [same]
        exact isBelow
      · exact absurd (UInt64.le_trans first started) (UInt64.not_le.mpr isBelow)

end

theorem scanBlock_of_missing {privateViewKey : SecretKey} {daemon : GetGlobalIndexes}
    {block : WalletBlockInfo} {wallets : SubWallets} {ourInputs : List OwnedInput}
    (found : processBlockOutputs crypto wallets privateViewKey block = .ok ourInputs)
    (missing : ourInputs.mapM (fillGlobalIndex wallets.isViewWallet
      (getGlobalIndexes daemon block.blockHeight)) = none) :
    scanBlock crypto privateViewKey daemon block wallets = .ok none := by
  refine bind_eq_ok.mpr ⟨ourInputs, found, ?_⟩
  rw [missing]
  rfl

theorem loopStep_queued {later : List AnsweredBlock} (isQueued : state.queued = block :: later) :
    loopStep crypto state reply = .ok after ↔
      ∃ backend, processBlock crypto block.2 block.1 state.backend = .ok backend ∧
        after = {
          backend := backend
          queued := later
          branch := if isStored crypto block state.backend then
              keptBranch block state.backend state.branch ++ [block]
            else keptBranch block state.backend state.branch } := by
  unfold loopStep
  rw [isQueued]
  rw [bind_eq_ok]
  constructor
  · intro ⟨backend, ran, finished⟩
    cases finished
    exact ⟨backend, ran, rfl⟩
  · intro ⟨backend, ran, isAfter⟩
    exact ⟨backend, ran, by rw [isAfter]; rfl⟩

/-- A block is processed and leaves a complete state exactly when it may be processed. -/
theorem loopStep_complete_iff {crypto : WalletCrypto} {state : LoopState} {reply : Reply}
    {block : AnsweredBlock} {later : List AnsweredBlock} (isQueued : state.queued = block :: later)
    (invariant : state.Invariant) (complete : state.Complete) :
    (∃ after, loopStep crypto state reply = .ok after ∧ after.Complete) ↔
      MayProcess crypto block state.backend := by
  have known : (rollBackFor block.1 state.backend).KeysKnown := by
    rw [SubWallets.KeysKnown, keys_rollBackFor.1, keys_rollBackFor.2]
    exact invariant.keysKnown
  have distinct := @keysDistinct_rollBackFor block.1 _ invariant.keysDistinct
  obtain ⟨ourInputs, found⟩ := exists_processBlockOutputs crypto
    state.backend.walletSynchronizer.privateViewKey block.1 known
  have only : ∀ {holds : List OwnedInput → Prop}, (∀ others, processBlockOutputs crypto
      (rollBackFor block.1 state.backend) state.backend.walletSynchronizer.privateViewKey block.1
        = .ok others → holds others) ↔ holds ourInputs := by
    refine ⟨fun all => all ourInputs found, fun one others same => ?_⟩
    rw [found] at same
    cases same
    exact one
  unfold MayProcess
  rw [only]
  cases filled : ourInputs.mapM (fillGlobalIndex (rollBackFor block.1 state.backend).isViewWallet
      (getGlobalIndexes block.2 block.height)) with
  | none =>
    have missing := scanBlock_of_missing found filled
    have notStored : isStored crypto block state.backend = false := by
      unfold isStored
      rw [missing]
    rw [← @complete_missing_iff block state later (rollBackFor block.1 state.backend) invariant
      complete]
    constructor
    · intro ⟨after, ran, isComplete⟩
      obtain ⟨backend, processed, isAfter⟩ := (loopStep_queued isQueued).mp ran
      rcases processBlock_eq_ok.mp processed with ⟨_, isBackend⟩ | ⟨_, _, scanned, _⟩
      · rw [isAfter, isBackend, notStored] at isComplete
        exact isComplete
      · rw [missing] at scanned
        cases scanned
    · intro isComplete
      refine ⟨_, (loopStep_queued isQueued).mpr
        ⟨_, processBlock_eq_ok.mpr (.inl ⟨missing, rfl⟩), rfl⟩, ?_⟩
      rw [notStored]
      exact isComplete
  | some inputs =>
    have storable := exists_scanBlock_iff known found distinct filled
    dsimp only
    rw [← storable]
    constructor
    · intro ⟨after, ran, isComplete⟩
      obtain ⟨backend, processed, isAfter⟩ := (loopStep_queued isQueued).mp ran
      rcases processBlock_eq_ok.mp processed with
        ⟨missing, _⟩ | ⟨scanned, status, isScanned, stored, isBackend⟩
      · obtain ⟨others, foundOthers, absent⟩ := scanBlock_eq_none missing
        rw [found] at foundOthers
        cases foundOthers
        exact absurd (filled.symm.trans absent) nofun
      · have isStored : isStored crypto block state.backend = true := by
          unfold isStored
          rw [isScanned]
        rw [isAfter, isBackend, isStored] at isComplete
        exact ⟨⟨scanned, isScanned⟩,
          (complete_stored_iff invariant complete).mp ⟨status, stored, isComplete⟩⟩
    · intro ⟨⟨scanned, isScanned⟩, inPlace⟩
      have isStored : isStored crypto block state.backend = true := by
        unfold isStored
        rw [isScanned]
      obtain ⟨status, stored, isComplete⟩ := (@complete_stored_iff block state later scanned
        invariant complete).mpr inPlace
      refine ⟨_, (loopStep_queued isQueued).mpr ⟨_, processBlock_eq_ok.mpr
        (.inr ⟨scanned, status, isScanned, stored, rfl⟩), rfl⟩, ?_⟩
      rw [isStored]
      exact isComplete

/-! ### The invariant -/

/-- A download changes at most where the wallet starts, and only if that was given as a
timestamp. -/
theorem receiveBatch_fst (reply : Reply) (backend : WalletBackend) :
    (receiveBatch reply backend).1 = backend ∨
      (backend.walletSynchronizer.startTimestamp ≠ 0 ∧ ∃ height,
        (receiveBatch reply backend).1 = { backend with
          walletSynchronizer := { backend.walletSynchronizer with
            startTimestamp := 0, startHeight := height } }) := by
  unfold receiveBatch
  dsimp only
  split
  · exact .inl rfl
  · split
    · exact .inl rfl
    · exact .inl rfl
    · rename_i first rest _
      by_cases isTimestamp : backend.walletSynchronizer.startTimestamp ≠ 0
      · simp only [if_pos isTimestamp]
        refine .inr ⟨isTimestamp, first.height, ?_⟩
        split
        · rfl
        · rfl
      · simp only [if_neg isTimestamp]
        refine .inl ?_
        split
        · rfl
        · rfl

theorem receiveBatch_started {reply : Reply} {backend : WalletBackend}
    (queued : (receiveBatch reply backend).2 ≠ []) :
    (receiveBatch reply backend).1.walletSynchronizer.startTimestamp = 0 := by
  unfold receiveBatch at queued ⊢
  dsimp only at queued ⊢
  split at queued
  · exact absurd rfl queued
  · rename_i enough
    rw [if_neg enough]
    split at queued
    · exact absurd rfl queued
    · exact absurd rfl queued
    · by_cases isTimestamp : backend.walletSynchronizer.startTimestamp ≠ 0
      · simp only [if_pos isTimestamp]
        split
        · rfl
        · rfl
      · simp only [if_neg isTimestamp]
        split
        · exact Decidable.not_not.mp isTimestamp
        · exact Decidable.not_not.mp isTimestamp

theorem loopStep_empty {crypto : WalletCrypto} {state : LoopState} {reply : Reply}
    (isEmpty : state.queued = []) :
    loopStep crypto state reply = .ok { state with
      backend := (receiveBatch reply state.backend).1
      queued := (receiveBatch reply state.backend).2 } := by
  unfold loopStep
  rw [isEmpty]

theorem loopStep_invariant
    (invariant : state.Invariant) (ran : loopStep crypto state reply = .ok after) :
    after.Invariant := by
  cases isQueued : state.queued with
  | nil =>
    rw [loopStep_empty isQueued] at ran
    cases ran
    have started := @receiveBatch_started reply state.backend
    rcases receiveBatch_fst reply state.backend with same | ⟨isTimestamp, height, converted⟩
    · rw [same] at started ⊢
      exact ⟨invariant.heights, invariant.unsynced, invariant.synced, started,
        invariant.keysDistinct, invariant.keysKnown⟩
    · rw [converted]
      exact ⟨invariant.heights, invariant.unsynced, fun _ => rfl, fun _ => rfl,
        invariant.keysDistinct, invariant.keysKnown⟩
  | cons block later =>
    obtain ⟨backend, processed, isAfter⟩ := (loopStep_queued isQueued).mp ran
    have sameKeys := keys_processBlock invariant.keysDistinct processed
    have distinct : backend.subWallets.KeysDistinct := by
      rw [SubWallets.KeysDistinct, sameKeys.2]
      exact invariant.keysDistinct
    have known : backend.subWallets.KeysKnown := by
      rw [SubWallets.KeysKnown, sameKeys.1, sameKeys.2]
      exact invariant.keysKnown
    have kept := fun other (member : other ∈ keptBranch block state.backend state.branch) =>
      (mem_keptBranch invariant.heights).mp member
    have started := invariant.started (by rw [isQueued]; exact cons_ne_nil _ _)
    rw [isAfter]
    rcases processBlock_eq_ok.mp processed with
      ⟨missing, isBackend⟩ | ⟨scanned, status, isScanned, stored, isBackend⟩
    · have notStored : isStored crypto block state.backend = false := by
        unfold isStored
        rw [missing]
      rw [isBackend, notStored]
      rw [isBackend] at distinct known
      refine ⟨fun other member => invariant.heights other (kept other member).1, ?_,
        invariant.synced, fun _ => started, distinct, known⟩
      intro unsynced
      obtain ⟨noBranch, lastZero⟩ := invariant.unsynced unsynced
      refine ⟨eq_nil_iff_forall_not_mem.mpr fun other member => ?_, lastZero⟩
      have inside := (kept other member).1
      rw [noBranch] at inside
      cases inside
    · have isStored : isStored crypto block state.backend = true := by
        unfold isStored
        rw [isScanned]
      obtain ⟨isHeight, _⟩ := storeBlockHash_eq_ok stored
      rw [isBackend, isStored]
      rw [isBackend] at distinct known
      refine ⟨?_, fun unsynced => absurd (storeBlockHash_hasSynced stored) unsynced,
        fun _ => started, fun _ => started, distinct, known⟩
      intro other member
      change other.height ≤ status.lastKnownBlockHeight
      rw [isHeight]
      rcases mem_append.mp member with old | new
      · exact UInt64.le_of_lt (kept other old).2
      · rw [mem_singleton.mp new]
        exact UInt64.le_refl _

/-! ### Whole runs -/

def LoopState.initial (backend : WalletBackend) : LoopState :=
  { backend := backend, queued := [], branch := [] }

theorem LoopState.initial_invariant (isNew : backend.IsNew)
    (known : backend.subWallets.KeysKnown) : (initial backend).Invariant where
  heights := nofun
  unsynced := by
    intro _
    refine ⟨rfl, ?_⟩
    unfold WalletBackend.lastKnown initial
    rw [isNew.status]
  synced := by
    intro synced
    unfold WalletBackend.HasSynced initial at synced
    rw [isNew.status] at synced
    exact absurd rfl synced
  started := fun queued => absurd rfl queued
  keysDistinct := isNew.keys
  keysKnown := known

theorem LoopState.initial_complete (isNew : backend.IsNew) :
    (initial backend).Complete := by
  intro synced
  unfold WalletBackend.HasSynced initial at synced
  rw [isNew.status] at synced
  exact absurd rfl synced

/-- A download leaves a complete state complete: the start moves only before the first
block is stored. -/
theorem complete_of_download
    (invariant : state.Invariant) (complete : state.Complete) (isEmpty : state.queued = [])
    (ran : loopStep crypto state reply = .ok after) : after.Complete := by
  rw [loopStep_empty isEmpty] at ran
  cases ran
  rcases receiveBatch_fst reply state.backend with same | ⟨isTimestamp, height, converted⟩
  · rw [same]
    exact complete
  · rw [converted]
    intro synced
    exact absurd (invariant.synced synced) isTimestamp

theorem mainLoop_invariant {replies : List Reply} {start : LoopState}
    (invariant : start.Invariant) (ran : mainLoop crypto replies start = .ok state) :
    state.Invariant := by
  refine foldlM_invariant (fun _ state => state.Invariant) ran invariant ?_
  intro _ reply before after _ holds stepped
  exact loopStep_invariant holds stepped

/-- For all answers of the daemon: the loop never stops with an exception and is complete
at every moment exactly when each block may be processed at the moment of its turn. -/
theorem mainLoop_complete_iff (crypto : WalletCrypto) (replies : List Reply)
    {backend : WalletBackend} (isNew : backend.IsNew) (known : backend.subWallets.KeysKnown) :
    (∀ done rest, replies = done ++ rest →
        ∃ state, mainLoop crypto done (.initial backend) = .ok state ∧ state.Complete) ↔
      ∀ done reply rest state block later, replies = done ++ reply :: rest →
        mainLoop crypto done (.initial backend) = .ok state → state.queued = block :: later →
        MayProcess crypto block state.backend := by
  have invariant := LoopState.initial_invariant isNew known
  constructor
  · intro always done reply rest state block later isReplies ran isQueued
    obtain ⟨same, ranSame, complete⟩ := always done (reply :: rest) isReplies
    rw [ran] at ranSame
    cases ranSame
    obtain ⟨after, ranAfter, afterComplete⟩ := always (done ++ [reply]) rest (by simp [isReplies])
    obtain ⟨middle, ranMiddle, stepped⟩ := mainLoop_concat_eq_ok.mp ranAfter
    rw [ran] at ranMiddle
    cases ranMiddle
    exact (loopStep_complete_iff isQueued (mainLoop_invariant invariant ran) complete).mp
      ⟨after, stepped, afterComplete⟩
  · intro may done
    -- Each moment comes from the one before by a download or by a block.
    induction done using reverseRecOn with
    | nil =>
      intro rest _
      exact ⟨_, rfl, LoopState.initial_complete isNew⟩
    | append_singleton done reply ih =>
      intro rest isReplies
      have isSplit : replies = done ++ reply :: rest := by simp [isReplies]
      obtain ⟨state, ran, complete⟩ := ih (reply :: rest) isSplit
      have stateInvariant := mainLoop_invariant invariant ran
      cases isQueued : state.queued with
      | nil =>
        have stepped := @loopStep_empty crypto state reply isQueued
        exact ⟨_, mainLoop_concat_eq_ok.mpr ⟨state, ran, stepped⟩,
          complete_of_download stateInvariant complete isQueued stepped⟩
      | cons block later =>
        obtain ⟨after, stepped, afterComplete⟩ :=
          (@loopStep_complete_iff crypto state reply block later isQueued stateInvariant
            complete).mpr (may done reply rest state block later isSplit ran isQueued)
        exact ⟨after, mainLoop_concat_eq_ok.mpr ⟨state, ran, stepped⟩, afterComplete⟩

/-! ### A request for global indexes that fails -/

def unanswered (block : WalletBlockInfo) : AnsweredBlock := (block, fun _ _ => none)

def batch (blocks : List WalletBlockInfo) : Reply :=
  { localDaemonBlockCount := 100, blocks := some (blocks.map unanswered) }

def twoEmptyBlocks : Reply := batch [blockWith 0 ⟨10⟩ [], blockWith 1 ⟨11⟩ []]

theorem twoEmptyBlocks_turns {done rest : List Reply} {later : List AnsweredBlock}
    (isReplies : replicate 3 twoEmptyBlocks = done ++ reply :: rest)
    (ran : mainLoop flatCrypto done (.initial newWallet) = .ok state)
    (isQueued : state.queued = block :: later) :
    MayProcess flatCrypto block state.backend ∧
      (state.backend.HasSynced → state.backend.lastKnown < block.height) := by
  match done with
  | [] =>
    cases ran
    cases isQueued
  | [_] =>
    cases isReplies
    cases ran
    cases isQueued
    refine ⟨fun ourInputs found => ?_, by decide⟩
    cases found
    exact ⟨⟨by decide, by decide, fun _ _ _ => Nat.zero_le _⟩, .inr ⟨rfl, by decide⟩⟩
  | [_, _] =>
    cases isReplies
    cases ran
    cases isQueued
    refine ⟨fun ourInputs found => ?_, by decide⟩
    cases found
    exact ⟨⟨by decide, by decide, fun _ _ _ => Nat.zero_le _⟩, .inl ⟨by decide, by decide⟩⟩
  | _ :: _ :: _ :: _ =>
    have := congrArg length isReplies
    simp at this

theorem mainLoop_complete_two_blocks : ∃ state,
    mainLoop flatCrypto (replicate 3 twoEmptyBlocks) (.initial newWallet)
        = .ok state ∧
      state.backend.lastKnown = 1 ∧ state.Complete := by
  obtain ⟨state, ran⟩ : ∃ state, mainLoop flatCrypto
      (replicate 3 twoEmptyBlocks) (.initial newWallet) = .ok state := ⟨_, rfl⟩
  obtain ⟨same, ranSame, complete⟩ := (mainLoop_complete_iff flatCrypto
    (replicate 3 twoEmptyBlocks) newWallet_isNew (by decide)).mpr
    (fun _ _ _ _ _ _ isReplies ran isQueued => (twoEmptyBlocks_turns isReplies ran isQueued).1)
    _ [] (append_nil _).symm
  rw [ran] at ranSame
  cases ranSame
  refine ⟨state, ran, ?_, complete⟩
  cases ran
  rfl

/-- The first block pays the wallet and its global indexes are not there; then it is
skipped, and so is the payment. Later in the chain the block after such a block ends the
loop with an exception. -/
theorem block_skipped :
    (∃ state, mainLoop flatCrypto
        (replicate 3 (batch [blockWith 0 ⟨10⟩ [payment ⟨3⟩ none], blockWith 1 ⟨11⟩ []]))
          (.initial newWallet) = .ok state ∧
        state.backend.lastKnown = 1 ∧
        (state.backend.subWallets.subWallets.map SubWallet.storedInputs) = [[]] ∧
        ¬state.Complete) ∧
      mainLoop flatCrypto
        (replicate 5 (batch [blockWith 0 ⟨10⟩ [], blockWith 1 ⟨11⟩ [],
          blockWith 2 ⟨12⟩ [payment ⟨3⟩ none], blockWith 3 ⟨13⟩ []]))
          (.initial newWallet) = .error (missedBlocks 2 3) := by
  refine ⟨⟨_, rfl, rfl, rfl, ?_⟩, rfl⟩
  intro complete
  obtain ⟨block, member, isZero⟩ := complete (by decide) 0 (by decide) (by decide)
  rw [mem_singleton.mp member] at isZero
  exact absurd isZero (by decide)

end Mevacoin
