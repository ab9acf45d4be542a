/-
What a reset leaves behind. Scanning never reads where a subwallet's own scan started, so
it does not show in balances and transactions. A reset wallet differs from a new one by
that much, and by the inputs that its subwallets kept.
-/

import Mevacoin.Wallet.Backend

namespace Mevacoin
open List WalletTypes Wallet Checked SubWallet

/-! ### Scanning does not read the start of a subwallet -/

namespace SubWallet

def forgetStart (subWallet : SubWallet) : SubWallet :=
  { subWallet with syncStartTimestamp := 0, syncStartHeight := 0 }

theorem forgetStart_markInputAsSpent (keyImage : KeyImage) (spendHeight : UInt64)
    (subWallet : SubWallet) :
    subWallet.forgetStart.markInputAsSpent keyImage spendHeight
      = (subWallet.markInputAsSpent keyImage spendHeight).map forgetStart := by
  have unspent : subWallet.forgetStart.unspentInputs = subWallet.unspentInputs := rfl
  have locked : subWallet.forgetStart.lockedInputs = subWallet.lockedInputs := rfl
  unfold markInputAsSpent
  rw [unspent, locked]
  cases takeInput keyImage subWallet.unspentInputs with
  | some taken => rfl
  | none =>
    cases takeInput keyImage subWallet.lockedInputs with
    | some taken => rfl
    | none => rfl

end SubWallet

namespace SubWallets

def forgetStarts (wallets : SubWallets) : SubWallets :=
  { wallets with subWallets := wallets.subWallets.map SubWallet.forgetStart }

theorem find_forgetStarts (wallets : SubWallets) (publicSpendKey : PublicKey) :
    wallets.forgetStarts.find publicSpendKey
      = (wallets.find publicSpendKey).map SubWallet.forgetStart := by
  unfold find forgetStarts
  rw [find?_map]
  rfl

section
variable {missing : Failure} {publicSpendKey : PublicKey}
  {change : SubWallet → Except Failure SubWallet} (commutes : ∀ subWallet,
    change subWallet.forgetStart = (change subWallet).map SubWallet.forgetStart)
include commutes

theorem updateEntry_map (entries : List SubWallet) :
    updateEntry missing publicSpendKey change (entries.map SubWallet.forgetStart)
      = (updateEntry missing publicSpendKey change entries).map
        (List.map SubWallet.forgetStart) := by
  induction entries with
  | nil => rfl
  | cons entry entries ih =>
    rw [map_cons, updateEntry, updateEntry]
    have sameKey : entry.forgetStart.publicSpendKey = entry.publicSpendKey := rfl
    rw [sameKey]
    by_cases isKey : entry.publicSpendKey = publicSpendKey
    · rw [if_pos isKey, if_pos isKey, commutes]
      cases change entry with
      | error failure => rfl
      | ok changed => rfl
    · rw [if_neg isKey, if_neg isKey, ih]
      cases updateEntry missing publicSpendKey change entries with
      | error failure => rfl
      | ok changed => rfl

theorem update_forgetStarts (wallets : SubWallets) :
    wallets.forgetStarts.update missing publicSpendKey change
      = (wallets.update missing publicSpendKey change).map forgetStarts := by
  unfold update
  change (updateEntry missing publicSpendKey change (wallets.subWallets.map forgetStart) >>= _) = _
  rw [updateEntry_map commutes]
  cases updateEntry missing publicSpendKey change wallets.subWallets with
  | error failure => rfl
  | ok changed => rfl

end

theorem addTransaction_forgetStarts (tx : WalletTypes.Transaction) (wallets : SubWallets) :
    wallets.forgetStarts.addTransaction tx = (wallets.addTransaction tx).map forgetStarts := by
  unfold addTransaction rejectIf
  change ((if ∃ other ∈ wallets.transactions, other.hash = tx.hash then _ else _) >>= _) = _
  split
  · rfl
  · rfl

theorem storeTransactionInput_forgetStarts (publicSpendKey : PublicKey)
    (input : WalletTypes.TransactionInput) (wallets : SubWallets) :
    wallets.forgetStarts.storeTransactionInput publicSpendKey input
      = (wallets.storeTransactionInput publicSpendKey input).map forgetStarts :=
  update_forgetStarts (fun _ => rfl) wallets

theorem markInputAsSpent_forgetStarts (keyImage : KeyImage) (publicKey : PublicKey)
    (spendHeight : UInt64) (wallets : SubWallets) :
    wallets.forgetStarts.markInputAsSpent keyImage publicKey spendHeight
      = (wallets.markInputAsSpent keyImage publicKey spendHeight).map forgetStarts := by
  unfold markInputAsSpent throwIfViewWallet rejectIf
  change ((if wallets.isViewWallet = true then _ else _) >>= _) = _
  split
  · rfl
  · exact update_forgetStarts
      (forgetStart_markInputAsSpent keyImage spendHeight) wallets

theorem getTxInputKeyImage_forgetStarts (crypto : WalletCrypto) (publicSpendKey : PublicKey)
    (derivation : KeyDerivation) (outputIndex : UInt64) (wallets : SubWallets) :
    wallets.forgetStarts.getTxInputKeyImage crypto publicSpendKey derivation outputIndex
      = wallets.getTxInputKeyImage crypto publicSpendKey derivation outputIndex := by
  unfold getTxInputKeyImage
  rw [find_forgetStarts]
  cases wallets.find publicSpendKey with
  | none => rfl
  | some subWallet => rfl

theorem getKeyImageOwner_forgetStarts (keyImage : KeyImage) (wallets : SubWallets) :
    wallets.forgetStarts.getKeyImageOwner keyImage = wallets.getKeyImageOwner keyImage := by
  change (if wallets.isViewWallet then none else
    ((wallets.subWallets.map forgetStart).find? _).map _) = _
  rw [find?_map, Option.map_map]
  rfl

theorem removeForkedTransactions_forgetStarts (forkHeight : UInt64) (wallets : SubWallets) :
    wallets.forgetStarts.removeForkedTransactions forkHeight
      = (wallets.removeForkedTransactions forkHeight).forgetStarts := by
  unfold removeForkedTransactions forgetStarts
  rw [map_map, map_map]
  rfl

end SubWallets

section Scanning
variable (crypto : WalletCrypto)

open SubWallets

theorem processBlockOutputs_forgetStarts (wallets : SubWallets) (privateViewKey : SecretKey)
    (block : WalletBlockInfo) :
    processBlockOutputs crypto wallets.forgetStarts privateViewKey block
      = processBlockOutputs crypto wallets privateViewKey block := by
  have output : processOutput crypto wallets.forgetStarts = processOutput crypto wallets := by
    unfold processOutput
    simp only [getTxInputKeyImage_forgetStarts]
    rfl
  unfold processBlockOutputs processTransactionOutputs
  rw [output]

theorem processBlockTransactions_forgetStarts (wallets : SubWallets) (block : WalletBlockInfo)
    (inputs : List OwnedInput) :
    processBlockTransactions wallets.forgetStarts block inputs
      = processBlockTransactions wallets block inputs := by
  have spends : ownSpends wallets.forgetStarts = ownSpends wallets := by
    unfold ownSpends
    simp only [getKeyImageOwner_forgetStarts]
  unfold processBlockTransactions processTransaction
  rw [spends]

theorem storeScanned_forgetStarts (info : BlockScanTmpInfo) (blockHeight : UInt64)
    (wallets : SubWallets) :
    storeScanned info blockHeight wallets.forgetStarts
      = (storeScanned info blockHeight wallets).map forgetStarts := by
  unfold storeScanned
  rw [foldlM_project (fun state tx => addTransaction_forgetStarts tx state), bind_of_map, map_bind]
  congr 1
  funext added
  rw [foldlM_project fun state input =>
      storeTransactionInput_forgetStarts input.1 input.2 state,
    bind_of_map, map_bind]
  congr 1
  funext stored
  exact foldlM_project (fun state spend =>
    markInputAsSpent_forgetStarts spend.2 spend.1 blockHeight state) _ stored

theorem scanBlock_forgetStarts (privateViewKey : SecretKey) (daemon : GetGlobalIndexes)
    (block : WalletBlockInfo) (wallets : SubWallets) :
    scanBlock crypto privateViewKey daemon block wallets.forgetStarts
      = (scanBlock crypto privateViewKey daemon block wallets).map (Option.map forgetStarts) := by
  unfold scanBlock
  rw [processBlockOutputs_forgetStarts, map_bind]
  congr 1
  funext outputs
  have sameKind : wallets.forgetStarts.isViewWallet = wallets.isViewWallet := rfl
  rw [sameKind]
  cases outputs.mapM (fillGlobalIndex wallets.isViewWallet
      (getGlobalIndexes daemon block.blockHeight)) with
  | none => rfl
  | some inputs =>
    dsimp only
    rw [processBlockTransactions_forgetStarts, storeScanned_forgetStarts, bind_of_map, map_bind]
    rfl

end Scanning

namespace WalletBackend

def forgetStarts (backend : WalletBackend) : WalletBackend :=
  { backend with subWallets := backend.subWallets.forgetStarts }

theorem processBlock_forgetStarts (crypto : WalletCrypto) (daemon : GetGlobalIndexes)
    (block : WalletBlockInfo) (backend : WalletBackend) :
    processBlock crypto daemon block backend.forgetStarts
      = (processBlock crypto daemon block backend).map forgetStarts := by
  have rolled : rollBackFor block backend.forgetStarts
      = (rollBackFor block backend).forgetStarts := by
    unfold rollBackFor
    rw [apply_ite SubWallets.forgetStarts]
    exact if_congr Iff.rfl (SubWallets.removeForkedTransactions_forgetStarts _ _) rfl
  unfold processBlock
  dsimp only
  rw [rolled]
  rw [scanBlock_forgetStarts, Checked.bind_of_map, Checked.map_bind]
  congr 1
  funext result
  cases result with
  | none => rfl
  | some scanned =>
    rw [map_bind]
    rfl

theorem scan_forgetStarts (crypto : WalletCrypto)
    (blocks : List (WalletBlockInfo × GetGlobalIndexes)) (backend : WalletBackend) :
    backend.forgetStarts.scan crypto blocks = (backend.scan crypto blocks).map forgetStarts :=
  foldlM_project (fun state block => processBlock_forgetStarts crypto block.2 block.1 state)
    blocks backend

/-! ### Fresh starts -/

/-- What a user sees of a wallet: the balances of its subwallets, whenever and at whatever
height they are asked for, and the transactions. -/
def summary (backend : WalletBackend) :
    (UInt64 → UInt64 → List (PublicKey × UInt64 × UInt64)) × List WalletTypes.Transaction :=
  (fun now currentHeight => backend.subWallets.subWallets.map fun subWallet =>
      (subWallet.publicSpendKey, subWallet.getBalance now currentHeight),
    backend.subWallets.transactions)

theorem summary_forgetStarts (backend : WalletBackend) :
    backend.forgetStarts.summary = backend.summary := by
  unfold summary
  congr 1
  funext now currentHeight
  exact map_map

end WalletBackend

structure SubWallet.Untouched (startHeight : UInt64) (subWallet : SubWallet) : Prop where
  unspent : subWallet.unspentInputs = []
  locked : subWallet.lockedInputs = []
  spent : subWallet.spentInputs = []
  unconfirmed : subWallet.unconfirmedIncomingAmounts = []
  start : subWallet.syncStartHeight = startHeight

theorem SubWallet.Untouched.getBalance {startHeight : UInt64} {subWallet : SubWallet}
    (untouched : subWallet.Untouched startHeight) (now currentHeight : UInt64) :
    subWallet.getBalance now currentHeight = (0, 0) := by
  unfold SubWallet.getBalance
  rw [untouched.unspent, untouched.unconfirmed]
  rfl

theorem SubWallet.Untouched.forgetStart {startHeight : UInt64} {subWallet : SubWallet}
    (untouched : subWallet.Untouched startHeight) :
    subWallet.forgetStart = (subWallet.reset startHeight).forgetStart := by
  obtain ⟨unspent, locked, spent, unconfirmed, _⟩ := untouched
  unfold SubWallet.forgetStart SubWallet.reset
  rw [unspent, locked, spent, unconfirmed]

namespace WalletBackend

/-- The wallet after a reset is like a new one with the keys it had before. -/
structure FreshStart (crypto : WalletCrypto) (startHeight : UInt64)
    (before after : WalletBackend) : Prop where
  untouched : ∀ subWallet ∈ after.subWallets.subWallets, subWallet.Untouched startHeight
  zeroBalance : ∀ subWallet ∈ after.subWallets.subWallets, ∀ now currentHeight,
    subWallet.getBalance now currentHeight = (0, 0)
  noTransactions : after.subWallets.transactions = []
  noLockedTransactions : after.subWallets.lockedTransactions = []
  rescan : ∀ blocks, (after.scan crypto blocks).map summary
    = ((before.fresh startHeight).scan crypto blocks).map summary

private theorem map_summary_scan (crypto : WalletCrypto)
    (blocks : List (WalletBlockInfo × GetGlobalIndexes)) (backend : WalletBackend) :
    (backend.scan crypto blocks).map summary
      = (backend.forgetStarts.scan crypto blocks).map summary := by
  rw [scan_forgetStarts]
  cases backend.scan crypto blocks with
  | error failure => rfl
  | ok scanned => exact congrArg Except.ok (summary_forgetStarts scanned).symm

private theorem forgetStarts_reset {startHeight : UInt64} {backend : WalletBackend}
    (untouched : ∀ subWallet ∈ backend.subWallets.subWallets, subWallet.Untouched startHeight) :
    (backend.reset startHeight 0).forgetStarts = (backend.fresh startHeight).forgetStarts := by
  have entries : backend.subWallets.subWallets.map forgetStart
      = (backend.subWallets.subWallets.map (SubWallet.reset startHeight)).map
        forgetStart := by
    rw [map_map]
    exact map_congr_left fun subWallet member => (untouched subWallet member).forgetStart
  unfold reset rewind fresh forgetStarts SubWallets.forgetStarts SubWallets.reset
  rw [entries, if_neg (by decide)]

/-- A reset is a fresh start exactly if there was nothing to reset in the subwallets. -/
theorem reset_freshStart_iff (crypto : WalletCrypto) (startHeight : UInt64)
    (backend : WalletBackend) :
    FreshStart crypto startHeight backend (backend.reset startHeight 0) ↔
      ∀ subWallet ∈ backend.subWallets.subWallets, subWallet.Untouched startHeight := by
  constructor
  · intro freshStart
    exact freshStart.untouched
  · intro untouched
    refine ⟨untouched, ?_, rfl, rfl, ?_⟩
    · intro subWallet member
      exact (untouched subWallet member).getBalance
    · intro blocks
      rw [map_summary_scan, forgetStarts_reset untouched, ← map_summary_scan]

end WalletBackend

def paidWallet : WalletBackend :=
  { walletSynchronizer :=
      { syncStatus := { lastKnownBlockHashes := [⟨9⟩], lastKnownBlockHeight := 7 }
        startTimestamp := 0, startHeight := 0, privateViewKey := ⟨5⟩ }
    subWallets :=
      { subWallets :=
          [{ unspentInputs :=
               [{ keyImage := ⟨1⟩, amount := 100, blockHeight := 7, transactionPublicKey := ⟨2⟩
                  transactionIndex := 0, globalOutputIndex := some 4, key := ⟨1⟩, spendHeight := 0
                  unlockTime := 0, parentTransactionHash := ⟨3⟩ }]
             publicSpendKey := ⟨1⟩, privateSpendKey := ⟨1⟩, syncStartTimestamp := 0
             syncStartHeight := 0, address := [], isPrimaryAddress := true }]
        transactions := [], lockedTransactions := [], privateViewKey := ⟨5⟩, isViewWallet := false
        publicSpendKeys := [⟨1⟩], transactionPrivateKeys := [] } }

theorem balance_after_reset :
    ((paidWallet.reset 0 0).subWallets.subWallets.map fun subWallet =>
        subWallet.getBalance 0 10) = [(100, 0)] ∧
      ∀ crypto, ¬WalletBackend.FreshStart crypto 0 paidWallet (paidWallet.reset 0 0) := by
  constructor
  · decide +kernel
  · intro crypto freshStart
    have untouched := freshStart.untouched _ mem_cons_self
    exact absurd untouched.unspent (cons_ne_nil _ _)

end Mevacoin
