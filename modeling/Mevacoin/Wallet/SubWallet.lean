/-
One subwallet: the outputs of one spend key, sorted into unspent, locked and spent ones,
and the change that is not in a block yet. Balances are sums modulo 2 ^ 64 as in the code.
-/

import Mevacoin.Lib.FirstMatch
import Mevacoin.Wallet.Types

namespace Mevacoin
open Parameters WalletTypes Wallet

def blankSecretKey : SecretKey := { value := 0 }

def blankKeyImage : KeyImage := { value := 0 }

structure SubWallet where
  unspentInputs : List WalletTypes.TransactionInput := []
  lockedInputs : List WalletTypes.TransactionInput := []
  spentInputs : List WalletTypes.TransactionInput := []
  unconfirmedIncomingAmounts : List UnconfirmedInput := []
  publicSpendKey : PublicKey
  privateSpendKey : SecretKey
  syncStartTimestamp : UInt64
  syncStartHeight : UInt64
  address : Text
  isPrimaryAddress : Bool
  deriving DecidableEq, Repr

def isInputUnlocked (now unlockTime currentHeight : UInt64) : Bool :=
  if unlockTime = 0 then true
  else if unlockTime.toNat ≥ maxBlockNumber then
    now + UInt64.ofNat lockedTxAllowedDeltaSeconds ≥ unlockTime
  else currentHeight + UInt64.ofNat lockedTxAllowedDeltaBlocks ≥ unlockTime

namespace SubWallet

/-- View wallets cannot compute key images and store blank ones. -/
def getTxInputKeyImage (crypto : WalletCrypto) (subWallet : SubWallet) (derivation : KeyDerivation)
    (outputIndex : UInt64) (isViewWallet : Bool) : KeyImage :=
  if isViewWallet then blankKeyImage
  else crypto.generateKeyImage
    (crypto.derivePublicKey derivation outputIndex subWallet.publicSpendKey)
    (crypto.deriveSecretKey derivation outputIndex subWallet.privateSpendKey)

def storeTransactionInput (input : WalletTypes.TransactionInput) (isViewWallet : Bool)
    (subWallet : SubWallet) : SubWallet :=
  { subWallet with
    unconfirmedIncomingAmounts :=
      if isViewWallet then subWallet.unconfirmedIncomingAmounts
      else subWallet.unconfirmedIncomingAmounts.filter fun stored => stored.key ≠ input.key
    unspentInputs := subWallet.unspentInputs ++ [input] }

def getBalance (now currentHeight : UInt64) (subWallet : SubWallet) : UInt64 × UInt64 :=
  let (unlocked, locked) := subWallet.unspentInputs.partition fun input =>
    isInputUnlocked now input.unlockTime currentHeight
  ((unlocked.map WalletTypes.TransactionInput.amount).sum,
    (locked.map WalletTypes.TransactionInput.amount).sum
      + (subWallet.unconfirmedIncomingAmounts.map UnconfirmedInput.amount).sum)

def reset (scanHeight : UInt64) (subWallet : SubWallet) : SubWallet :=
  { subWallet with
    syncStartTimestamp := 0
    syncStartHeight := scanHeight
    lockedInputs := []
    unconfirmedIncomingAmounts := []
    unspentInputs := []
    spentInputs := [] }

def hasKeyImage (keyImage : KeyImage) (subWallet : SubWallet) : Bool :=
  (subWallet.unspentInputs.any fun input => input.keyImage = keyImage)
    || subWallet.lockedInputs.any fun input => input.keyImage = keyImage

def takeInput (keyImage : KeyImage) (inputs : List WalletTypes.TransactionInput) :
    Option (WalletTypes.TransactionInput × List WalletTypes.TransactionInput) :=
  FirstMatch.take (fun input => input.keyImage = keyImage) inputs

/-- The first unspent input with the key image becomes a spent one, or else the first
locked one. -/
def markInputAsSpent (keyImage : KeyImage) (spendHeight : UInt64) (subWallet : SubWallet) :
    Except Failure SubWallet :=
  match takeInput keyImage subWallet.unspentInputs with
  | some (input, rest) => .ok
    { subWallet with
      unspentInputs := rest
      spentInputs := subWallet.spentInputs ++ [{ input with spendHeight := spendHeight }] }
  | none =>
    match takeInput keyImage subWallet.lockedInputs with
    | some (input, rest) => .ok
      { subWallet with
        lockedInputs := rest
        spentInputs := subWallet.spentInputs ++ [{ input with spendHeight := spendHeight }] }
    | none => .error (.thrown (ascii "Could not find key image to remove!"))

def markInputAsLocked (keyImage : KeyImage) (subWallet : SubWallet) : Except Failure SubWallet :=
  match takeInput keyImage subWallet.unspentInputs with
  | some (input, rest) => .ok
    { subWallet with
      unspentInputs := rest
      lockedInputs := subWallet.lockedInputs ++ [input] }
  | none => .error (.thrown (ascii "Could not find key image to lock!"))

def resetSpendHeight (input : WalletTypes.TransactionInput) : WalletTypes.TransactionInput :=
  { input with spendHeight := 0 }

/-- Inputs received at or above the fork height are dropped from the unspent ones; inputs
spent there become unspent again, whenever they were received. -/
def removeForkedInputs (forkHeight : UInt64) (subWallet : SubWallet) : SubWallet :=
  { subWallet with
    lockedInputs := []
    unconfirmedIncomingAmounts := []
    unspentInputs := (subWallet.unspentInputs.filter fun input => ¬input.blockHeight ≥ forkHeight)
      ++ (subWallet.spentInputs.filter fun input => input.spendHeight ≥ forkHeight).map
        resetSpendHeight
    spentInputs := subWallet.spentInputs.filter fun input => ¬input.spendHeight ≥ forkHeight }

/-- Locked inputs are matched by the transaction that they were received in. -/
def removeCancelledTransactions (cancelledTransactions : List Hash) (subWallet : SubWallet) :
    SubWallet :=
  { subWallet with
    lockedInputs := subWallet.lockedInputs.filter fun input =>
      input.parentTransactionHash ∉ cancelledTransactions
    unspentInputs := subWallet.unspentInputs
      ++ (subWallet.lockedInputs.filter fun input =>
        input.parentTransactionHash ∈ cancelledTransactions).map resetSpendHeight
    unconfirmedIncomingAmounts := subWallet.unconfirmedIncomingAmounts.filter fun input =>
      input.parentTransactionHash ∉ cancelledTransactions }

def getSpendableInputs (now height : UInt64) (subWallet : SubWallet) : List TxInputAndOwner :=
  (subWallet.unspentInputs.filter fun input => isInputUnlocked now input.unlockTime height).map
    fun input =>
      { input := input
        publicSpendKey := subWallet.publicSpendKey
        privateSpendKey := subWallet.privateSpendKey }

def storeUnconfirmedIncomingInput (input : UnconfirmedInput) (subWallet : SubWallet) : SubWallet :=
  { subWallet with
    unconfirmedIncomingAmounts := subWallet.unconfirmedIncomingAmounts ++ [input] }

end SubWallet
end Mevacoin
