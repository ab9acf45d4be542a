/-
Choosing the inputs of a transaction. The available inputs of the named subwallets are
shuffled; a transfer takes them from the front until they cover the amount, a fusion
takes a bucket of inputs with the same number of digits.
-/

import Mevacoin.Wallet.SubWallets

namespace Mevacoin
open WalletTypes Wallet

/-- What a call takes from its environment: the clock, the floating point logarithm
truncated to an integer, the shuffles and the random key pairs. -/
structure WalletRuntime where
  now : UInt64
  log10 : UInt64 → Int
  shuffleInputs : List TxInputAndOwner → List TxInputAndOwner
  shuffleBuckets : List (List TxInputAndOwner) → List (List TxInputAndOwner)
  generateKeyPair : Nat → KeyPair
  shuffleInputs_perm : ∀ inputs, (shuffleInputs inputs).Perm inputs
  shuffleBuckets_perm : ∀ buckets, (shuffleBuckets buckets).Perm buckets

namespace SubWallets

def availableInputs (now : UInt64) (takeFromAll : Bool) (subWalletsToTakeFrom : List PublicKey)
    (height : UInt64) (wallets : SubWallets) : Except Failure (List TxInputAndOwner) := do
  let keys := if takeFromAll then wallets.publicSpendKeys else subWalletsToTakeFrom
  let found ← keys.mapM fun key => Checked.orError mapOutOfRange (wallets.find key)
  return found.flatMap fun subWallet => subWallet.getSpendableInputs now height

def takeUntilCovered (amount : UInt64) :
    UInt64 → List TxInputAndOwner → List TxInputAndOwner → Option (List TxInputAndOwner × UInt64)
  | _, _, [] => none
  | foundMoney, inputsToUse, walletAmount :: rest =>
    let inputsToUse := inputsToUse ++ [walletAmount]
    let foundMoney := foundMoney + walletAmount.input.amount
    if foundMoney ≥ amount then some (inputsToUse, foundMoney)
    else takeUntilCovered amount foundMoney inputsToUse rest

def getTransactionInputsForAmount (runtime : WalletRuntime) (amount : UInt64)
    (takeFromAll : Bool) (subWalletsToTakeFrom : List PublicKey) (height : UInt64)
    (wallets : SubWallets) : Except Failure (List TxInputAndOwner × UInt64) := do
  wallets.throwIfViewWallet
  let available ← wallets.availableInputs runtime.now takeFromAll subWalletsToTakeFrom height
  Checked.orError (.thrown (ascii "Not enough funds found!"))
    (takeUntilCovered amount 0 [] (runtime.shuffleInputs available))

def fusionTxMinInputCount : Nat := 12

def fusionTxMinInOutCountRatio : Nat := 4

def fusionTxMaxSize : Nat := Parameters.blockGrantedFullRewardZone * 30 / 100

/-- `Currency::getApproximateMaximumInputCount` in the arithmetic of `size_t`. -/
def getApproximateMaximumInputCount (transactionSize outputCount mixinCount : UInt64) : UInt64 :=
  let outputsSize := outputCount * (1 + 32 + 10)
  let headerSize := 1 + 8 + 1 + 32
  let inputSize := 1 + 10 + 32 + 64 + 1 + 4 + mixinCount * (4 + 64)
  (transactionSize - headerSize - outputsSize) / inputSize

def addToBucket (digits : Int) (input : TxInputAndOwner) :
    List (Int × List TxInputAndOwner) → List (Int × List TxInputAndOwner)
  | [] => [(digits, [input])]
  | bucket :: buckets =>
    if bucket.1 = digits then (digits, bucket.2 ++ [input]) :: buckets
    else bucket :: addToBucket digits input buckets

def fillBuckets (log10 : UInt64 → Int) (inputs : List TxInputAndOwner) :
    List (List TxInputAndOwner) :=
  (inputs.foldl (fun buckets walletAmount =>
    addToBucket (log10 walletAmount.input.amount) walletAmount buckets) []).map Prod.snd

/-- The chosen inputs, the largest number of them that fits and their sum. The loop checks
the number after it has added an input, so the first input is always taken. -/
def getFusionTransactionInputs (runtime : WalletRuntime) (takeFromAll : Bool)
    (subWalletsToTakeFrom : List PublicKey) (mixin height : UInt64) (wallets : SubWallets) :
    Except Failure (List TxInputAndOwner × UInt64 × UInt64) := do
  wallets.throwIfViewWallet
  let available ← wallets.availableInputs runtime.now takeFromAll subWalletsToTakeFrom height
  let maxInputsToTake := getApproximateMaximumInputCount (UInt64.ofNat fusionTxMaxSize)
    (UInt64.ofNat fusionTxMinInOutCountRatio) mixin
  let buckets := fillBuckets runtime.log10 (runtime.shuffleInputs available)
  let fullBuckets := runtime.shuffleBuckets
    (buckets.filter fun bucket => bucket.length ≥ fusionTxMinInputCount)
  let bucketsToTakeFrom := match fullBuckets with
    | [] => buckets
    | first :: _ => [first]
  let inputsToUse := bucketsToTakeFrom.flatten.take (max 1 maxInputsToTake.toNat)
  return (inputsToUse, maxInputsToTake, (inputsToUse.map fun used => used.input.amount).sum)

end SubWallets
end Mevacoin
