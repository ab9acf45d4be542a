/-
A rollback is a replay. Each block that is processed replaces those at or above its
height in the branch. The wallet is, up to the order of its inputs, the one that has
processed only its branch.
-/

import Mevacoin.Wallet.KeyImages
import Mevacoin.Wallet.Unwinding

namespace Mevacoin
open List WalletTypes Wallet UInt64 SendTransaction

/-- A block with the daemon's answer to the request for its global indexes. -/
abbrev AnsweredBlock := WalletBlockInfo × GetGlobalIndexes

namespace AnsweredBlock

def height (block : AnsweredBlock) : UInt64 := block.1.blockHeight

end AnsweredBlock

def WalletBackend.lastKnown (backend : WalletBackend) : UInt64 :=
  backend.walletSynchronizer.syncStatus.lastKnownBlockHeight

def branchBelow (forkHeight : UInt64) (branch : List AnsweredBlock) : List AnsweredBlock :=
  branch.filter fun block => block.height < forkHeight

def branchOf (blocks : List AnsweredBlock) : List AnsweredBlock :=
  blocks.foldl (fun branch block => branchBelow block.height branch ++ [block]) []

theorem branchOf_concat (blocks : List AnsweredBlock) (block : AnsweredBlock) :
    branchOf (blocks ++ [block]) = branchBelow block.height (branchOf blocks) ++ [block] := by
  rw [branchOf, foldl_append]
  rfl

variable {branch : List AnsweredBlock}

theorem branchBelow_eq_self {forkHeight : UInt64}
    (below : ∀ block ∈ branch, block.height < forkHeight) : branchBelow forkHeight branch = branch :=
  filter_eq_self.mpr fun block member => decide_eq_true (below block member)

/-- A wallet that has processed a branch from its lowest block on, with every block
stored. -/
inductive Replays (crypto : WalletCrypto) (start : WalletBackend) :
    List AnsweredBlock → WalletBackend → Prop
  | start : Replays crypto start [] start
  | next {branch : List AnsweredBlock} {block : AnsweredBlock} {state after : WalletBackend}
      (earlier : Replays crypto start branch state)
      (ascending : ∀ other ∈ branch, other.height < block.height)
      (consecutive : state.lastKnown = 0 ∨ block.height = state.lastKnown + 1)
      (stepped : processBlock crypto block.2 block.1 state = .ok after)
      (stored : after.lastKnown = block.height) :
      Replays crypto start (branch ++ [block]) after

namespace Replays
variable {crypto : WalletCrypto} {start state : WalletBackend} {branch : List AnsweredBlock}

theorem scan_eq_ok (replays : Replays crypto start branch state) :
    start.scan crypto branch = .ok state := by
  induction replays with
  | start => rfl
  | next _ _ _ stepped _ ih => exact WalletBackend.scan_concat_eq_ok.mpr ⟨_, ih, stepped⟩

end Replays

theorem SynchronizationStatus.storeBlockHash_eq_ok {hash : Hash} {height : UInt64}
    {status after : SynchronizationStatus} (stored : status.storeBlockHash hash height = .ok after) :
    after.lastKnownBlockHeight = height ∧
      (height > status.lastKnownBlockHeight →
        status.lastKnownBlockHeight = 0 ∨ height = status.lastKnownBlockHeight + 1) := by
  obtain ⟨accepted, finished⟩ := Checked.rejectIf_bind_eq_ok.mp stored
  cases finished
  refine ⟨rfl, fun isHigher => ?_⟩
  by_cases isFirst : status.lastKnownBlockHeight = 0
  · exact .inl isFirst
  · refine .inr (Classical.byContradiction fun differs => ?_)
    exact accepted ⟨isHigher, isFirst, differs⟩

theorem SynchronizationStatus.exists_storeBlockHash (hash : Hash) {height : UInt64}
    {status : SynchronizationStatus} (consecutive : height > status.lastKnownBlockHeight →
      status.lastKnownBlockHeight = 0 ∨ height = status.lastKnownBlockHeight + 1) :
    ∃ after, status.storeBlockHash hash height = .ok after ∧
      after.lastKnownBlockHeight = height := by
  refine ⟨_, Checked.rejectIf_bind_eq_ok.mpr ⟨?_, rfl⟩, rfl⟩
  intro ⟨isHigher, notFirst, differs⟩
  exact (consecutive isHigher).elim notFirst differs

theorem rollBackFor_of_below {block : WalletBlockInfo} {backend : WalletBackend}
    (isBelow : backend.subWallets.Below block.blockHeight.toNat) :
    rollBackFor block backend = backend.subWallets := by
  unfold rollBackFor
  split
  · exact isBelow.removeForkedTransactions_eq
  · rfl

variable {crypto : WalletCrypto} {state : WalletBackend}

theorem grown_of_processBlock {block : AnsweredBlock} {after : WalletBackend}
    (distinct : state.subWallets.KeysDistinct) (isBelow : state.subWallets.Below block.height.toNat)
    (ran : processBlock crypto block.2 block.1 state = .ok after) :
    SubWallets.Grown block.height.toNat (block.height.toNat + 1) state.subWallets
      after.subWallets := by
  have sameWallets : rollBackFor block.1 state = state.subWallets := rollBackFor_of_below isBelow
  rcases processBlock_eq_ok.mp ran with ⟨_, isAfter⟩ | ⟨scanned, status, isScanned, _, isAfter⟩
  · rw [isAfter, sameWallets]
    exact .refl _ _ _
  · rw [sameWallets] at isScanned
    rw [isAfter]
    exact grown_of_scanBlock distinct isBelow isScanned

/-! ### Cutting a branch -/

theorem succ_le_of_lt {low high : UInt64} (isLower : low < high) : low + 1 ≤ high := by
  exact (Nat.mod_le _ _).trans (lt_iff_toNat_lt.mp isLower)

structure WalletBackend.IsNew (backend : WalletBackend) : Prop where
  inputs : ∀ subWallet ∈ backend.subWallets.subWallets,
    subWallet.storedInputs = [] ∧ subWallet.unconfirmedIncomingAmounts = []
  transactions : backend.subWallets.transactions = []
  lockedTransactions : backend.subWallets.lockedTransactions = []
  status : backend.walletSynchronizer.syncStatus = {}
  keys : backend.subWallets.KeysDistinct

theorem WalletBackend.IsNew.empty {backend : WalletBackend} (isNew : backend.IsNew) :
    backend.subWallets.Below 0 where
  subWallets := by
    intro subWallet member
    obtain ⟨noInputs, noUnconfirmed⟩ := isNew.inputs subWallet member
    obtain ⟨noUnspent, others⟩ := append_eq_nil_iff.mp noInputs
    obtain ⟨noLocked, noSpent⟩ := append_eq_nil_iff.mp others
    exact ⟨by rw [noUnspent]; exact nofun, by rw [noSpent]; exact nofun, noLocked, noUnconfirmed⟩
  transactions := by
    rw [isNew.transactions]
    exact nofun
  lockedTransactions := isNew.lockedTransactions

namespace Replays
variable {crypto : WalletCrypto} {start state : WalletBackend} {branch : List AnsweredBlock}

section
variable (isNew : start.IsNew) (replays : Replays crypto start branch state)
include isNew replays

theorem keysDistinct :
    state.subWallets.KeysDistinct :=
  WalletBackend.keysDistinct_scan isNew.keys replays.scan_eq_ok

theorem subWallets_below {bound : Nat}
    (inside : ∀ block ∈ branch, block.height.toNat < bound) : state.subWallets.Below bound := by
  induction replays generalizing bound with
  | start => exact isNew.empty.mono (Nat.zero_le _)
  | @next branch block state after earlier ascending _ stepped _ ih =>
    have stateBelow : state.subWallets.Below block.height.toNat :=
      ih fun other member => lt_iff_toNat_lt.mp (ascending other member)
    have grown := grown_of_processBlock (earlier.keysDistinct isNew) stateBelow stepped
    have topInside := inside block (mem_append_right _ mem_cons_self)
    exact (grown.below (Nat.le_succ _) stateBelow).mono topInside

/-- The part of a branch below a height is replayed by a wallet from which the whole one
has grown; and the height continues that part if it is not above the branch. -/
theorem cut (forkHeight : UInt64) :
    ∃ low, Replays crypto start (branchBelow forkHeight branch) low ∧
      SubWallets.Grown forkHeight.toNat (2 ^ 64) low.subWallets state.subWallets ∧
      low.walletSynchronizer.privateViewKey = state.walletSynchronizer.privateViewKey ∧
      (state.lastKnown < forkHeight → low = state) ∧
      (forkHeight ≤ state.lastKnown → low.lastKnown = 0 ∨ forkHeight = low.lastKnown + 1) := by
  induction replays with
  | start =>
    refine ⟨start, .start, .refl _ _ _, rfl, fun _ => rfl, fun _ => .inl ?_⟩
    unfold WalletBackend.lastKnown
    rw [isNew.status]
  | @next branch block state after earlier ascending consecutive stepped stored ih =>
    by_cases isLow : block.height < forkHeight
    · have allLow : ∀ other ∈ branch ++ [block], other.height < forkHeight := by
        intro other member
        rcases mem_append.mp member with old | new
        · exact UInt64.lt_trans (ascending other old) isLow
        · rw [mem_singleton.mp new]
          exact isLow
      rw [branchBelow_eq_self allLow]
      refine ⟨after, .next earlier ascending consecutive stepped stored, .refl _ _ _, rfl,
        fun _ => rfl, fun notHigher => ?_⟩
      rw [stored] at notHigher
      exact absurd isLow (UInt64.not_lt.mpr notHigher)
    · obtain ⟨low, lowReplays, grown, sameKey, onlyLow, continued⟩ := ih
      have notLow : forkHeight ≤ block.height := UInt64.not_lt.mp isLow
      have sameBranch : branchBelow forkHeight (branch ++ [block]) = branchBelow forkHeight branch := by
        rw [branchBelow, filter_append, filter_cons_of_neg (by simpa using notLow)]
        exact append_nil _
      have stateBelow : state.subWallets.Below block.height.toNat :=
        earlier.subWallets_below isNew fun other member => lt_iff_toNat_lt.mp (ascending other member)
      have step := grown_of_processBlock (earlier.keysDistinct isNew) stateBelow stepped
      have keyKept : after.walletSynchronizer.privateViewKey
          = state.walletSynchronizer.privateViewKey := by
        rcases processBlock_eq_ok.mp stepped with ⟨_, isAfter⟩ | ⟨_, _, _, _, isAfter⟩
        · rw [isAfter]
        · rw [isAfter]
      rw [sameBranch]
      refine ⟨low, lowReplays, ?_, sameKey.trans keyKept.symm, ?_, ?_⟩
      · exact grown.trans (Nat.le_refl _)
          (step.mono (le_iff_toNat_le.mp notLow) block.height.toNat_lt)
      · intro isHigher
        rw [stored] at isHigher
        exact absurd isHigher isLow
      · intro _
        by_cases known : forkHeight ≤ state.lastKnown
        · exact continued known
        · have isHigher := UInt64.not_le.mp known
          rw [onlyLow isHigher]
          refine consecutive.imp_right fun isNext => ?_
          rw [isNext] at notLow
          exact UInt64.le_antisymm notLow (succ_le_of_lt isHigher)

end
end Replays

/-! ### Whole runs -/

/-- What a block of a run has to meet: the daemon answers for its global indexes, and if
it starts with a rollback this is a clean one. -/
structure CleanStep (crypto : WalletCrypto) (block : AnsweredBlock) (state : WalletBackend) :
    Prop where
  answered : scanBlock crypto state.walletSynchronizer.privateViewKey block.2 block.1
    (rollBackFor block.1 state) ≠ .ok none
  rollback : state.lastKnown ≥ block.height →
    ∀ subWallet ∈ state.subWallets.subWallets, subWallet.CleanRollback block.height

/-- A state is that of its branch up to the order of inputs with different key images. -/
def Tracks (crypto : WalletCrypto) (start : WalletBackend) (branch : List AnsweredBlock)
    (state : WalletBackend) : Prop :=
  ∃ replayed, Replays crypto start branch replayed ∧ state.subWallets.Matches replayed.subWallets ∧
    replayed.lastKnown = state.lastKnown ∧
    replayed.walletSynchronizer.privateViewKey = state.walletSynchronizer.privateViewKey

theorem SubWallet.CleanRollback.of_matches {forkHeight : UInt64} {left right : SubWallet}
    (isMatch : SubWallet.Matches left right) (clean : left.CleanRollback forkHeight) :
    right.CleanRollback forkHeight := by
  obtain ⟨inputs, isRight, same⟩ := isMatch
  rw [isRight]
  intro input member isHigh
  obtain ⟨isLow, apart⟩ := clean input member isHigh
  exact ⟨isLow, fun other inside => apart other (same.perm.mem_iff.mpr inside)⟩

variable {start : WalletBackend}

theorem tracks_step {after : WalletBackend} {block : AnsweredBlock} (isNew : start.IsNew)
    (tracks : Tracks crypto start branch state) (clean : CleanStep crypto block state)
    (ran : processBlock crypto block.2 block.1 state = .ok after) :
    Tracks crypto start (branchBelow block.height branch ++ [block]) after := by
  obtain ⟨replayed, replays, matching, sameHeight, sameKey⟩ := tracks
  obtain ⟨low, lowReplays, grown, lowKey, onlyLow, continued⟩ := replays.cut isNew block.height
  have lowBelow : low.subWallets.Below block.height.toNat :=
    lowReplays.subWallets_below isNew fun other member =>
      lt_iff_toNat_lt.mp (of_decide_eq_true (mem_filter.mp member).2)
  have rolledBack : (rollBackFor block.1 state).Matches low.subWallets := by
    unfold rollBackFor
    by_cases isFork : state.lastKnown ≥ block.height
    · have replayedClean : ∀ subWallet ∈ replayed.subWallets.subWallets,
          subWallet.CleanRollback block.height := by
        obtain ⟨entries, isReplayed, each⟩ := matching
        rw [isReplayed]
        exact forall_mem_of_forall₂ each (clean.rollback isFork) fun _ _ => .of_matches
      exact (if_pos isFork).symm ▸ (matching.removeForkedTransactions block.height).trans
        (grown.matches_of_clean lowBelow replayedClean)
    · have isHigher := UInt64.not_le.mp isFork
      rw [← sameHeight] at isHigher
      rw [onlyLow isHigher]
      exact (if_neg isFork).symm ▸ matching
  rcases processBlock_eq_ok.mp ran with ⟨missing, _⟩ | ⟨scanned, status, isScanned, stored, isAfter⟩
  · exact absurd missing clean.answered
  · obtain ⟨isStored, consecutive⟩ := SynchronizationStatus.storeBlockHash_eq_ok stored
    obtain ⟨followed, isFollowed, stillMatch⟩ := rolledBack.scanBlock isScanned
    have lowConsecutive : low.lastKnown = 0 ∨ block.height = low.lastKnown + 1 := by
      by_cases known : block.height ≤ replayed.lastKnown
      · exact continued known
      · have isHigher := UInt64.not_le.mp known
        rw [onlyLow isHigher, sameHeight]
        rw [sameHeight] at isHigher
        exact consecutive isHigher
    obtain ⟨lowStatus, lowStored, lowHeight⟩ :=
      SynchronizationStatus.exists_storeBlockHash block.1.blockHash fun _ => lowConsecutive
    refine ⟨_, .next lowReplays ?_ lowConsecutive (processBlock_eq_ok.mpr (.inr
      ⟨followed, lowStatus, ?_, lowStored, rfl⟩)) lowHeight, ?_, ?_, ?_⟩
    · intro other member
      exact of_decide_eq_true (mem_filter.mp member).2
    · rw [rollBackFor_of_below lowBelow, lowKey, sameKey]
      exact isFollowed
    · rw [isAfter]
      exact stillMatch
    · rw [isAfter]
      exact lowHeight.trans isStored.symm
    · rw [isAfter]
      exact lowKey.trans sameKey

theorem tracks_scan {blocks : List AnsweredBlock} (isNew : start.IsNew)
    (clean : ∀ done block rest state, blocks = done ++ block :: rest →
      start.scan crypto done = .ok state → CleanStep crypto block state)
    (ran : start.scan crypto blocks = .ok state) :
    Tracks crypto start (branchOf blocks) state := by
  induction blocks using List.reverseRecOn generalizing state with
  | nil =>
    cases ran
    exact ⟨start, .start, .refl _, rfl, rfl⟩
  | append_singleton done block ih =>
    obtain ⟨middle, earlier, stepped⟩ := WalletBackend.scan_concat_eq_ok.mp ran
    rw [branchOf_concat]
    refine tracks_step isNew (ih ?_ earlier) (clean done block [] middle rfl earlier) stepped
    intro before next rest other isDone reached
    exact clean before next (rest ++ [block]) other (by simp [isDone]) reached

/-- Fork rollback and replay: after every run of clean steps from a new wallet, and
for every fork height, the rollback gives the wallet that has processed only the
blocks of the branch below the height exactly when no spent input was received at or
above it. -/
theorem rollback_replays_iff {crypto : WalletCrypto} {start state : WalletBackend}
    {blocks : List AnsweredBlock} (isNew : start.IsNew)
    (clean : ∀ done block rest state, blocks = done ++ block :: rest →
      start.scan crypto done = .ok state → CleanStep crypto block state)
    (ran : start.scan crypto blocks = .ok state) (forkHeight : UInt64) :
    ∃ replayed, start.scan crypto (branchBelow forkHeight (branchOf blocks)) = .ok replayed ∧
      (state.subWallets.removeForkedTransactions forkHeight).transactions
        = replayed.subWallets.transactions ∧
      (List.Forall₂ SubWallet.SameUpToOrder
          (state.subWallets.removeForkedTransactions forkHeight).subWallets
          replayed.subWallets.subWallets ↔
        ∀ subWallet ∈ state.subWallets.subWallets, ∀ input ∈ subWallet.spentInputs,
          ¬input.blockHeight ≥ forkHeight) := by
  obtain ⟨top, replays, matching, _, _⟩ := tracks_scan isNew clean ran
  obtain ⟨low, lowReplays, grown, _, _, _⟩ := replays.cut isNew forkHeight
  have lowBelow : low.subWallets.Below forkHeight.toNat :=
    lowReplays.subWallets_below isNew fun other member =>
      lt_iff_toNat_lt.mp (of_decide_eq_true (mem_filter.mp member).2)
  have topTransactions := grown.transactions_below lowBelow
  obtain ⟨tops, isTop, matchEach⟩ := matching
  obtain ⟨entries, _, isGrown, _, growEach⟩ := grown
  refine ⟨low, lowReplays.scan_eq_ok, ?_, ?_⟩
  · rw [← topTransactions, isTop]
    rfl
  · have sameTops : entries = tops := by
      rw [isTop] at isGrown
      exact (congrArg SubWallets.subWallets isGrown).symm
    rw [sameTops] at growEach
    have growBelow := forall₂_imp_mem growEach fun before inLow after _ one =>
      And.intro (lowBelow.subWallets before inLow) one
    have joined : List.Forall₂ (fun before last => ∃ middle, SubWallet.Matches before middle ∧
        SubWallet.Below forkHeight.toNat last ∧
        SubWallet.Grown forkHeight.toNat (2 ^ 64) last middle)
        state.subWallets.subWallets low.subWallets.subWallets :=
      forall₂_trans (fun _ middle _ one more => ⟨middle, one, more⟩) matchEach growBelow.flip
    rw [SubWallets.removeForkedTransactions, List.forall₂_map_left_iff]
    refine forall₂_iff_forall ?_ joined
    rintro before last ⟨middle, isMatch, below, one⟩
    have rolled := (isMatch.removeForkedInputs forkHeight).sameUpToOrder
    have sameSpent : middle.spentInputs = before.spentInputs := by
      obtain ⟨_, isMiddle, _⟩ := isMatch
      rw [isMiddle]
    rw [← sameSpent, ← one.sameUpToOrder_iff below]
    exact ⟨fun same => rolled.symm.trans same, fun same => rolled.trans same⟩

/-! ### An input received and spent above the fork -/

def spendPayment (hash : Hash) : RawTransaction :=
  { keyOutputs := [], hash := hash, transactionPublicKey := ⟨6⟩, unlockTime := 0, paymentID := []
    keyInputs := [{ amount := 100, outputIndexes := [0], keyImage := ⟨1⟩ }] }

def paidAndSpent : List AnsweredBlock :=
  [(blockWith 5 ⟨50⟩ [payment ⟨3⟩ (some 0)], fun _ _ => none),
    (blockWith 6 ⟨60⟩ [spendPayment ⟨4⟩], fun _ _ => none)]

/-- The input is in none of the blocks below the fork, but it is unspent after the
rollback. -/
theorem balance_after_rollback : ∃ state,
    newWallet.scan flatCrypto paidAndSpent = .ok state ∧
      (state.subWallets.subWallets.map fun subWallet => subWallet.getBalance 0 10) = [(0, 0)] ∧
      branchBelow 5 (branchOf paidAndSpent) = [] ∧
      ((state.subWallets.removeForkedTransactions 5).subWallets.map fun subWallet =>
        subWallet.getBalance 0 10) = [(100, 0)] ∧
      ¬List.Forall₂ SubWallet.SameUpToOrder (state.subWallets.removeForkedTransactions 5).subWallets
        newWallet.subWallets.subWallets := by
  refine ⟨_, rfl, by decide +kernel, rfl, by decide +kernel, ?_⟩
  intro same
  cases same with
  | cons one _ =>
    obtain ⟨inputs, isNew, perm⟩ := one
    have none : inputs = [] := (congrArg SubWallet.unspentInputs isNew).symm
    rw [none] at perm
    exact absurd perm.length_eq (by decide +kernel)

theorem newWallet_isNew : newWallet.IsNew where
  inputs := by decide +kernel
  transactions := rfl
  lockedTransactions := rfl
  status := rfl
  keys := by decide

theorem rollback_replays_payment : ∃ state replayed,
    newWallet.scan flatCrypto paidAndSpent = .ok state ∧
      newWallet.scan flatCrypto (branchBelow 6 (branchOf paidAndSpent)) = .ok replayed ∧
      List.Forall₂ SubWallet.SameUpToOrder (state.subWallets.removeForkedTransactions 6).subWallets
        replayed.subWallets.subWallets := by
  obtain ⟨state, scanned⟩ : ∃ state, newWallet.scan flatCrypto paidAndSpent = .ok state := ⟨_, rfl⟩
  have clean : ∀ done block rest state, paidAndSpent = done ++ block :: rest →
      newWallet.scan flatCrypto done = .ok state →
      CleanStep flatCrypto block state := by
    intro done block rest state isBlocks ran
    match done with
    | [] =>
      cases isBlocks
      cases ran
      exact ⟨by decide +kernel, fun isFork => absurd isFork (by decide +kernel)⟩
    | [_] =>
      cases isBlocks
      cases ran
      exact ⟨by decide +kernel, fun isFork => absurd isFork (by decide +kernel)⟩
    | _ :: _ :: _ =>
      have := congrArg List.length isBlocks
      simp [paidAndSpent] at this
  obtain ⟨replayed, isReplayed, _, agree⟩ :=
    rollback_replays_iff newWallet_isNew clean scanned 6
  refine ⟨state, replayed, scanned, isReplayed, agree.mpr ?_⟩
  cases scanned
  decide +kernel

end Mevacoin
