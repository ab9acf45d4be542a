/-
The container of subwallets, with the transactions they share. The subwallets are a hash
map under their public spend keys; the list gives its entries in the order of their
insertion.
-/

import Mevacoin.Lib.Checked
import Mevacoin.Wallet.SubWallet

namespace Mevacoin
open WalletTypes Wallet Checked

structure SubWallets where
  subWallets : List SubWallet
  transactions : List WalletTypes.Transaction
  lockedTransactions : List WalletTypes.Transaction
  privateViewKey : SecretKey
  isViewWallet : Bool
  publicSpendKeys : List PublicKey
  transactionPrivateKeys : List (Hash × SecretKey)
  deriving DecidableEq, Repr

def assignEntry {κ ν : Type} [DecidableEq κ] (key : κ) (value : ν) : List (κ × ν) → List (κ × ν)
  | [] => [(key, value)]
  | entry :: entries =>
    if entry.1 = key then (key, value) :: entries else entry :: assignEntry key value entries

/-- Addition to an entry of a map to signed amounts; a missing entry is created as zero. -/
def addToTransfer (key : PublicKey) (amount : Int64) :
    List (PublicKey × Int64) → List (PublicKey × Int64)
  | [] => [(key, amount)]
  | entry :: entries =>
    if entry.1 = key then (key, entry.2 + amount) :: entries
    else entry :: addToTransfer key amount entries

namespace SubWallets

def find (wallets : SubWallets) (publicSpendKey : PublicKey) : Option SubWallet :=
  wallets.subWallets.find? fun subWallet => subWallet.publicSpendKey = publicSpendKey

def mapOutOfRange : Failure := .thrown (ascii "map::at")

def subwalletNotFound : Failure := .thrown (ascii "Subwallet not found!")

def updateEntry (missing : Failure) (publicSpendKey : PublicKey)
    (change : SubWallet → Except Failure SubWallet) :
    List SubWallet → Except Failure (List SubWallet)
  | [] => .error missing
  | subWallet :: rest =>
    if subWallet.publicSpendKey = publicSpendKey then do
      let changed ← change subWallet
      return changed :: rest
    else do
      let rest ← updateEntry missing publicSpendKey change rest
      return subWallet :: rest

def update (missing : Failure) (publicSpendKey : PublicKey)
    (change : SubWallet → Except Failure SubWallet) (wallets : SubWallets) :
    Except Failure SubWallets := do
  let subWallets ← updateEntry missing publicSpendKey change wallets.subWallets
  return { wallets with subWallets := subWallets }

def throwIfViewWallet (wallets : SubWallets) : Except Failure Unit :=
  rejectIf (wallets.isViewWallet = true)
    (.thrown (ascii "Wallet is a view wallet, but this function cannot be called in a view wallet"))

def addUnconfirmedTransaction (tx : WalletTypes.Transaction) (wallets : SubWallets) :
    Except Failure SubWallets := do
  rejectIf (∃ other ∈ wallets.lockedTransactions, other.hash = tx.hash)
    (.thrown (ascii "Unconfirmed transaction " ++ podToHex tx.hash.value
      ++ ascii " was added to the wallet twice! Terminating."))
  return { wallets with lockedTransactions := wallets.lockedTransactions ++ [tx] }

def addTransaction (tx : WalletTypes.Transaction) (wallets : SubWallets) :
    Except Failure SubWallets := do
  rejectIf (∃ other ∈ wallets.transactions, other.hash = tx.hash)
    (.thrown (ascii "Transaction " ++ podToHex tx.hash.value
      ++ ascii " was added to the wallet twice! Terminating."))
  return { wallets with
    lockedTransactions := wallets.lockedTransactions.filter fun other => other.hash ≠ tx.hash
    transactions := wallets.transactions ++ [tx] }

def storeTxPrivateKey (txPrivateKey : SecretKey) (txHash : Hash) (wallets : SubWallets) :
    SubWallets :=
  { wallets with
    transactionPrivateKeys := assignEntry txHash txPrivateKey wallets.transactionPrivateKeys }

def getTxInputKeyImage (crypto : WalletCrypto) (publicSpendKey : PublicKey)
    (derivation : KeyDerivation) (outputIndex : UInt64) (wallets : SubWallets) :
    Except Failure KeyImage := do
  let subWallet ← orError subwalletNotFound (wallets.find publicSpendKey)
  return subWallet.getTxInputKeyImage crypto derivation outputIndex wallets.isViewWallet

def storeTransactionInput (publicSpendKey : PublicKey) (input : WalletTypes.TransactionInput)
    (wallets : SubWallets) : Except Failure SubWallets :=
  wallets.update subwalletNotFound publicSpendKey fun subWallet =>
    .ok (subWallet.storeTransactionInput input wallets.isViewWallet)

def getKeyImageOwner (keyImage : KeyImage) (wallets : SubWallets) : Option PublicKey :=
  if wallets.isViewWallet then none
  else (wallets.subWallets.find? fun subWallet => subWallet.hasKeyImage keyImage).map
    SubWallet.publicSpendKey

def markInputAsSpent (keyImage : KeyImage) (publicKey : PublicKey) (spendHeight : UInt64)
    (wallets : SubWallets) : Except Failure SubWallets := do
  wallets.throwIfViewWallet
  wallets.update mapOutOfRange publicKey fun subWallet =>
    subWallet.markInputAsSpent keyImage spendHeight

def markInputAsLocked (keyImage : KeyImage) (publicKey : PublicKey) (wallets : SubWallets) :
    Except Failure SubWallets := do
  wallets.throwIfViewWallet
  wallets.update mapOutOfRange publicKey fun subWallet => subWallet.markInputAsLocked keyImage

/-- Does nothing for an unknown key. -/
def storeUnconfirmedIncomingInput (input : UnconfirmedInput) (publicSpendKey : PublicKey)
    (wallets : SubWallets) : SubWallets :=
  match wallets.update subwalletNotFound publicSpendKey fun subWallet =>
    .ok (subWallet.storeUnconfirmedIncomingInput input) with
  | .ok changed => changed
  | .error _ => wallets

def removeForkedTransactions (forkHeight : UInt64) (wallets : SubWallets) : SubWallets :=
  { wallets with
    transactions := wallets.transactions.filter fun tx => ¬tx.blockHeight ≥ forkHeight
    subWallets := wallets.subWallets.map (SubWallet.removeForkedInputs forkHeight) }

def removeCancelledTransactions (cancelledTransactions : List Hash) (wallets : SubWallets) :
    Except Failure SubWallets := do
  wallets.throwIfViewWallet
  return { wallets with
    lockedTransactions := wallets.lockedTransactions.filter fun tx =>
      tx.hash ∉ cancelledTransactions
    subWallets := wallets.subWallets.map
      (SubWallet.removeCancelledTransactions cancelledTransactions) }

/-- The loop over the map binds copies of its entries, so what it resets is lost. -/
def reset (_scanHeight : UInt64) (wallets : SubWallets) : SubWallets :=
  { wallets with
    lockedTransactions := []
    transactions := []
    transactionPrivateKeys := [] }

def getBalance (now : UInt64) (subWalletsToTakeFrom : List PublicKey) (takeFromAll : Bool)
    (currentHeight : UInt64) (wallets : SubWallets) : Except Failure (UInt64 × UInt64) := do
  let keys := if takeFromAll then wallets.publicSpendKeys else subWalletsToTakeFrom
  let balances ← keys.mapM fun key => do
    let subWallet ← orError mapOutOfRange (wallets.find key)
    return subWallet.getBalance now currentHeight
  return ((balances.map Prod.fst).sum, (balances.map Prod.snd).sum)

def getPrimaryAddress (wallets : SubWallets) : Except Failure Text := do
  let primary ← orError (.thrown (ascii "This container has no primary address!"))
    (wallets.subWallets.find? fun subWallet => subWallet.isPrimaryAddress)
  return primary.address

/-- The address of a key pair is a parameter: `privateKeysToAddress` and
`publicKeysToAddress`. -/
structure AddressEncoding where
  privateKeysToAddress : SecretKey → SecretKey → Text
  publicKeysToAddress : PublicKey → PublicKey → Text

def addEntry (subWallet : SubWallet) (wallets : SubWallets) : SubWallets :=
  { wallets with
    subWallets := wallets.subWallets ++ [subWallet]
    publicSpendKeys := wallets.publicSpendKeys ++ [subWallet.publicSpendKey] }

def importSubWallet (crypto : WalletCrypto) (encoding : AddressEncoding)
    (privateSpendKey : SecretKey) (scanHeight : UInt64) (wallets : SubWallets) :
    Except Failure (SubWallets × Text) := do
  rejectIf (wallets.isViewWallet = true) (.ofCode .illegalViewWalletOperation)
  let publicSpendKey := crypto.secretKeyToPublicKey privateSpendKey
  let address := encoding.privateKeysToAddress privateSpendKey wallets.privateViewKey
  rejectIf ((wallets.find publicSpendKey).isSome = true) (.ofCode .subwalletAlreadyExists)
  return (wallets.addEntry
    { publicSpendKey := publicSpendKey
      privateSpendKey := privateSpendKey
      address := address
      syncStartHeight := scanHeight
      syncStartTimestamp := 0
      isPrimaryAddress := false }, address)

def importViewSubWallet (crypto : WalletCrypto) (encoding : AddressEncoding)
    (publicSpendKey : PublicKey) (scanHeight : UInt64) (wallets : SubWallets) :
    Except Failure (SubWallets × Text) := do
  rejectIf (wallets.isViewWallet = false) (.ofCode .illegalNonViewWalletOperation)
  rejectIf ((wallets.find publicSpendKey).isSome = true) (.ofCode .subwalletAlreadyExists)
  let address := encoding.publicKeysToAddress publicSpendKey
    (crypto.secretKeyToPublicKey wallets.privateViewKey)
  return (wallets.addEntry
    { publicSpendKey := publicSpendKey
      privateSpendKey := blankSecretKey
      address := address
      syncStartHeight := scanHeight
      syncStartTimestamp := 0
      isPrimaryAddress := false }, address)

end SubWallets
end Mevacoin
