/-
What a scanned block does to each subwallet: the outputs for its key are added to its
unspent inputs in order, and then the key images that the block spends for its key are
marked one by one.
-/

import Mevacoin.Wallet.Entries
import Mevacoin.Wallet.Synchronizer

namespace Mevacoin
open List WalletTypes Wallet Checked SubWallets SubWallet

variable {height : UInt64} {before : SubWallet} {wallets : SubWallets} {crypto : WalletCrypto}
  {privateViewKey : SecretKey} {block : WalletBlockInfo} {daemon : GetGlobalIndexes}

/-! ### One subwallet -/

namespace SubWallet

def receive (isViewWallet : Bool) (inputs : List WalletTypes.TransactionInput)
    (subWallet : SubWallet) : SubWallet :=
  { subWallet with
    unconfirmedIncomingAmounts :=
      if isViewWallet then subWallet.unconfirmedIncomingAmounts
      else subWallet.unconfirmedIncomingAmounts.filter fun stored =>
        ∀ input ∈ inputs, stored.key ≠ input.key
    unspentInputs := subWallet.unspentInputs ++ inputs }

theorem receive_nil (isViewWallet : Bool) (subWallet : SubWallet) :
    subWallet.receive isViewWallet [] = subWallet := by
  simp [receive]

theorem receive_cons (isViewWallet : Bool) (input : WalletTypes.TransactionInput)
    (inputs : List WalletTypes.TransactionInput) (subWallet : SubWallet) :
    subWallet.receive isViewWallet (input :: inputs)
      = (subWallet.storeTransactionInput input isViewWallet).receive isViewWallet inputs := by
  unfold receive storeTransactionInput
  cases isViewWallet with
  | true => simp
  | false => simp [filter_filter, Bool.and_comm]

theorem foldlM_store (isViewWallet : Bool) (inputs : List OwnedInput) (subWallet : SubWallet) :
    inputs.foldlM (fun subWallet input =>
        (.ok (subWallet.storeTransactionInput input.2 isViewWallet) : Except Failure SubWallet))
      subWallet = .ok (subWallet.receive isViewWallet (inputs.map Prod.snd)) := by
  induction inputs generalizing subWallet with
  | nil =>
    rw [map_nil, receive_nil]
    rfl
  | cons input inputs ih =>
    rw [map_cons, receive_cons]
    exact ih _

def spend (height : UInt64) (keyImages : List KeyImage) (subWallet : SubWallet) :
    Except Failure SubWallet :=
  keyImages.foldlM (fun subWallet keyImage => subWallet.markInputAsSpent keyImage height) subWallet

theorem publicSpendKey_spend {keyImages : List KeyImage}
    {after : SubWallet} (spent : before.spend height keyImages = .ok after) :
    after.publicSpendKey = before.publicSpendKey := by
  induction keyImages generalizing before with
  | nil =>
    cases spent
    rfl
  | cons keyImage keyImages ih =>
    obtain ⟨middle, marked, rest⟩ := foldlM_cons_eq_ok.mp spent
    exact (ih rest).trans (keepsKey_markInputAsSpent _ _ _ _ marked)

/-- Marking takes the input either from the unspent ones or, when there is none among
them, from the locked ones. -/
theorem markInputAsSpent_eq_ok {keyImage : KeyImage}
    {after : SubWallet} (marked : before.markInputAsSpent keyImage height = .ok after) :
    (∃ input rest, takeInput keyImage before.unspentInputs = some (input, rest) ∧
      after = { before with
        unspentInputs := rest
        spentInputs := before.spentInputs ++ [{ input with spendHeight := height }] }) ∨
    (∃ input rest, takeInput keyImage before.unspentInputs = none ∧
      takeInput keyImage before.lockedInputs = some (input, rest) ∧
      after = { before with
        lockedInputs := rest
        spentInputs := before.spentInputs ++ [{ input with spendHeight := height }] }) := by
  unfold markInputAsSpent at marked
  split at marked
  · rename_i input rest taken
    cases marked
    exact .inl ⟨input, rest, taken, rfl⟩
  · rename_i absent
    split at marked
    · rename_i input rest taken
      cases marked
      exact .inr ⟨input, rest, absent, taken, rfl⟩
    · cases marked

end SubWallet

/-! ### All subwallets -/

def inputsFor (inputs : List OwnedInput) (subWallet : SubWallet) :
    List WalletTypes.TransactionInput :=
  (stepsFor Prod.fst inputs subWallet).map Prod.snd

def keyImagesFor (spends : List (PublicKey × KeyImage)) (subWallet : SubWallet) : List KeyImage :=
  (stepsFor Prod.fst spends subWallet).map Prod.snd

def Scanned (isViewWallet : Bool) (info : BlockScanTmpInfo) (height : UInt64)
    (before after : SubWallet) : Prop :=
  (before.receive isViewWallet (inputsFor info.inputsToAdd before)).spend height
    (keyImagesFor info.keyImagesToMarkSpent before) = .ok after

variable {after : SubWallets}

theorem addTransactions_eq_ok {transactions : List WalletTypes.Transaction}
    (ran : transactions.foldlM (fun wallets tx => wallets.addTransaction tx) wallets = .ok after) :
    after = { wallets with
      lockedTransactions := wallets.lockedTransactions.filter fun locked =>
        ∀ tx ∈ transactions, locked.hash ≠ tx.hash
      transactions := wallets.transactions ++ transactions } := by
  induction transactions generalizing wallets with
  | nil =>
    cases ran
    simp
  | cons tx transactions ih =>
    obtain ⟨middle, first, rest⟩ := foldlM_cons_eq_ok.mp ran
    obtain ⟨_, added⟩ := rejectIf_bind_eq_ok.mp first
    cases added
    rw [ih rest]
    simp [filter_filter, Bool.and_comm]

theorem storeScanned_eq_ok {info : BlockScanTmpInfo} (distinct : wallets.KeysDistinct)
    (ran : storeScanned info height wallets = .ok after) :
    ∃ entries, after = { wallets with
        subWallets := entries
        lockedTransactions := wallets.lockedTransactions.filter fun locked =>
          ∀ tx ∈ info.transactionsToAdd, locked.hash ≠ tx.hash
        transactions := wallets.transactions ++ info.transactionsToAdd } ∧
      List.Forall₂ (Scanned wallets.isViewWallet info height) wallets.subWallets entries := by
  obtain ⟨recorded, added, ran⟩ := bind_eq_ok.mp ran
  obtain ⟨stored, storedAll, marked⟩ := bind_eq_ok.mp ran
  have isRecorded := addTransactions_eq_ok added
  have recordedDistinct : recorded.KeysDistinct := by
    rw [isRecorded]
    exact distinct
  obtain ⟨middle, isStored, stores⟩ := storeInputs_eq_ok recordedDistinct storedAll
  have sameKeys : ∀ before after, SubWallets.Stepped Prod.fst (fun (input : OwnedInput) subWallet =>
      .ok (storeTransactionInput input.2 recorded.isViewWallet subWallet))
      info.inputsToAdd before after → after.publicSpendKey = before.publicSpendKey := by
    intro before after stepped
    rw [SubWallets.Stepped, foldlM_store] at stepped
    cases stepped
    rfl
  have storedDistinct : stored.KeysDistinct := by
    rw [isStored, SubWallets.KeysDistinct, map_key_of_forall₂ sameKeys stores]
    exact recordedDistinct
  obtain ⟨entries, isAfter, marks⟩ := markSpent_eq_ok storedDistinct marked
  refine ⟨entries, by rw [isAfter, isStored, isRecorded], ?_⟩
  rw [isRecorded] at stores
  rw [isStored] at marks
  refine forall₂_trans ?_ stores marks
  intro before between after stepped spent
  rw [SubWallets.Stepped, foldlM_store] at stepped
  cases stepped
  unfold Scanned spend keyImagesFor
  rw [foldlM_map]
  exact spent

theorem processBlockOutputs_all {holds : OwnedInput → Prop}
    (each : ∀ derivation rawTX output outputIndex input, processOutput crypto wallets derivation
      rawTX block.blockHeight output outputIndex = .ok (some input) → holds input)
    {ourInputs : List OwnedInput}
    (found : processBlockOutputs crypto wallets privateViewKey block = .ok ourInputs) :
    ∀ input ∈ ourInputs, holds input := by
  obtain ⟨perTransaction, foundAll, finished⟩ := bind_eq_ok.mp found
  cases finished
  have inTransaction : ∀ inputs ∈ perTransaction, ∀ input ∈ inputs, holds input := by
    refine forall_mem_of_forall₂ (mapM_eq_ok_iff.mp foundAll) (fun _ _ => trivial) ?_
    intro rawTX inputs foundInTransaction _ input member
    obtain ⟨results, foundEach, finished⟩ := bind_eq_ok.mp foundInTransaction
    cases finished
    obtain ⟨result, inResults, isInput⟩ := mem_filterMap.mp member
    have inOutput : ∀ result ∈ results, ∀ input, result = some input → holds input := by
      refine forall_mem_of_forall₂ (mapM_eq_ok_iff.mp foundEach) (fun _ _ => trivial) ?_
      intro output result one _ input isResult
      rw [isResult] at one
      exact each _ _ _ _ _ one
    exact inOutput result inResults input isInput
  intro input member
  obtain ⟨inputs, isOne, inInputs⟩ := mem_flatten.mp member
  exact inTransaction inputs isOne input inInputs

theorem fillGlobalIndex_keeps {isViewWallet : Bool} {globalIndexes : List (Hash × List UInt64)}
    {input filled : OwnedInput}
    (isFilled : fillGlobalIndex isViewWallet globalIndexes input = some filled) :
    filled.1 = input.1 ∧ filled.2.keyImage = input.2.keyImage := by
  unfold fillGlobalIndex at isFilled
  split at isFilled
  · cases isFilled
    exact ⟨rfl, rfl⟩
  · obtain ⟨entry, _, isFilled⟩ := Option.bind_eq_some_iff.mp isFilled
    obtain ⟨index, _, isFilled⟩ := Option.bind_eq_some_iff.mp isFilled
    cases isFilled
    exact ⟨rfl, rfl⟩

theorem scanBlock_eq_some
    (scanned : scanBlock crypto privateViewKey daemon block wallets = .ok (some after)) :
    ∃ ourInputs inputs, processBlockOutputs crypto wallets privateViewKey block = .ok ourInputs ∧
      ourInputs.mapM (fillGlobalIndex wallets.isViewWallet
        (getGlobalIndexes daemon block.blockHeight)) = some inputs ∧
      storeScanned (processBlockTransactions wallets block inputs) block.blockHeight wallets
        = .ok after := by
  obtain ⟨ourInputs, found, scanned⟩ := bind_eq_ok.mp scanned
  split at scanned
  · cases scanned
  · rename_i inputs filled
    obtain ⟨stored, ran, finished⟩ := bind_eq_ok.mp scanned
    cases finished
    exact ⟨ourInputs, inputs, found, filled, ran⟩

theorem scanBlock_of_stored {ourInputs inputs : List OwnedInput}
    (found : processBlockOutputs crypto wallets privateViewKey block = .ok ourInputs)
    (filled : ourInputs.mapM (fillGlobalIndex wallets.isViewWallet
      (getGlobalIndexes daemon block.blockHeight)) = some inputs)
    (stored : storeScanned (processBlockTransactions wallets block inputs) block.blockHeight wallets
      = .ok after) :
    scanBlock crypto privateViewKey daemon block wallets = .ok (some after) := by
  refine bind_eq_ok.mpr ⟨ourInputs, found, ?_⟩
  rw [filled]
  exact bind_eq_ok.mpr ⟨after, stored, rfl⟩

theorem scanBlock_eq_none
    (scanned : scanBlock crypto privateViewKey daemon block wallets = .ok none) :
    ∃ ourInputs, processBlockOutputs crypto wallets privateViewKey block = .ok ourInputs ∧
      ourInputs.mapM (fillGlobalIndex wallets.isViewWallet
        (getGlobalIndexes daemon block.blockHeight)) = none := by
  obtain ⟨ourInputs, found, scanned⟩ := bind_eq_ok.mp scanned
  split at scanned
  · rename_i missing
    exact ⟨ourInputs, found, missing⟩
  · obtain ⟨_, _, finished⟩ := bind_eq_ok.mp scanned
    cases finished

theorem processBlock_eq_ok {backend after : WalletBackend} :
    processBlock crypto daemon block backend = .ok after ↔
      (scanBlock crypto backend.walletSynchronizer.privateViewKey daemon block
          (rollBackFor block backend) = .ok none ∧
        after = { backend with subWallets := rollBackFor block backend }) ∨
      ∃ scanned status, scanBlock crypto backend.walletSynchronizer.privateViewKey daemon block
          (rollBackFor block backend) = .ok (some scanned) ∧
        backend.walletSynchronizer.syncStatus.storeBlockHash block.blockHash block.blockHeight
          = .ok status ∧
        after = {
          subWallets := scanned
          walletSynchronizer := { backend.walletSynchronizer with syncStatus := status } } := by
  unfold processBlock
  rw [bind_eq_ok]
  constructor
  · intro ⟨outcome, scanned, stored⟩
    cases outcome with
    | none =>
      cases stored
      exact .inl ⟨scanned, rfl⟩
    | some wallets =>
      obtain ⟨status, isStatus, finished⟩ := bind_eq_ok.mp stored
      cases finished
      exact .inr ⟨wallets, status, scanned, isStatus, rfl⟩
  · rintro (⟨scanned, isAfter⟩ | ⟨wallets, status, scanned, isStatus, isAfter⟩)
    · exact ⟨none, scanned, by rw [isAfter]; rfl⟩
    · refine ⟨some wallets, scanned, ?_⟩
      rw [isAfter]
      exact bind_eq_ok.mpr ⟨status, isStatus, rfl⟩

theorem Scanned.publicSpendKey_eq {isViewWallet : Bool} {info : BlockScanTmpInfo} {after : SubWallet}
    (scanned : Scanned isViewWallet info height before after) :
    after.publicSpendKey = before.publicSpendKey := by
  have kept := publicSpendKey_spend scanned
  exact kept

end Mevacoin
