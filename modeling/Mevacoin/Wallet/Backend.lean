/-
Resetting a wallet and importing a subwallet. Both rewind the synchronizer and reset the
subwallets; the reset of the subwallets reaches only what the container itself holds, so
a rescan starts on top of the inputs that were there before.
-/

import Mevacoin.Wallet.Synchronizer

namespace Mevacoin
open WalletTypes Wallet

def WalletSynchronizer.reset (startHeight : UInt64) (synchronizer : WalletSynchronizer) :
    WalletSynchronizer :=
  { synchronizer with
    startHeight := startHeight
    startTimestamp := 0
    syncStatus := {} }

def genesisBlockTimestamp : UInt64 := 1324214400

def timestampToScanHeight (timestamp : UInt64) : UInt64 :=
  if timestamp = 0 then 0
  else if timestamp ≤ genesisBlockTimestamp then 0
  else (timestamp - genesisBlockTimestamp) / UInt64.ofNat Parameters.difficultyTarget

namespace WalletBackend

def rewind (scanHeight : UInt64) (backend : WalletBackend) : WalletBackend :=
  { walletSynchronizer := backend.walletSynchronizer.reset scanHeight
    subWallets := backend.subWallets.reset scanHeight }

/-- Saving the wallet is left out. -/
def reset (scanHeight timestamp : UInt64) (backend : WalletBackend) : WalletBackend :=
  backend.rewind (if timestamp ≠ 0 then timestampToScanHeight timestamp else scanHeight)

/-- A successful import rewinds the wallet unless it has not reached the height yet. -/
def afterImport (scanHeight : UInt64) (imported : SubWallets) (backend : WalletBackend) :
    WalletBackend :=
  let backend := { backend with subWallets := imported }
  if backend.walletSynchronizer.syncStatus.lastKnownBlockHeight ≥ scanHeight then
    backend.rewind scanHeight
  else backend

def importSubWallet (crypto : WalletCrypto) (encoding : SubWallets.AddressEncoding)
    (privateSpendKey : SecretKey) (scanHeight : UInt64) (backend : WalletBackend) :
    Except Failure (WalletBackend × Text) := do
  let (imported, address) ← backend.subWallets.importSubWallet crypto encoding privateSpendKey
    scanHeight
  return (backend.afterImport scanHeight imported, address)

def importViewSubWallet (crypto : WalletCrypto) (encoding : SubWallets.AddressEncoding)
    (publicSpendKey : PublicKey) (scanHeight : UInt64) (backend : WalletBackend) :
    Except Failure (WalletBackend × Text) := do
  let (imported, address) ← backend.subWallets.importViewSubWallet crypto encoding publicSpendKey
    scanHeight
  return (backend.afterImport scanHeight imported, address)

/-- A wallet without history that has the same keys and starts at a height. -/
def fresh (startHeight : UInt64) (backend : WalletBackend) : WalletBackend :=
  { walletSynchronizer := backend.walletSynchronizer.reset startHeight
    subWallets :=
      { backend.subWallets with
        subWallets := backend.subWallets.subWallets.map (SubWallet.reset startHeight)
        transactions := []
        lockedTransactions := []
        transactionPrivateKeys := [] } }

/-- The blocks of a scan, each with the answers to its requests for global indexes. -/
def scan (crypto : WalletCrypto) (blocks : List (WalletBlockInfo × GetGlobalIndexes))
    (backend : WalletBackend) : Except Failure WalletBackend :=
  blocks.foldlM (fun backend block => processBlock crypto block.2 block.1 backend) backend

theorem scan_concat_eq_ok {crypto : WalletCrypto} {done : List (WalletBlockInfo × GetGlobalIndexes)}
    {block : WalletBlockInfo × GetGlobalIndexes} {start after : WalletBackend} :
    start.scan crypto (done ++ [block]) = .ok after ↔
      ∃ middle, start.scan crypto done = .ok middle ∧
        processBlock crypto block.2 block.1 middle = .ok after := by
  unfold scan
  rw [Checked.foldlM_concat, Checked.bind_eq_ok]

end WalletBackend
end Mevacoin
