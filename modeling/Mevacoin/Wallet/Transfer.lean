/-
Sending transactions. A transfer is validated, built, checked and relayed; only then the
wallet records what it has sent.
-/

import Mevacoin.Wallet.InputSelection
import Mevacoin.Wallet.Rings
import Mevacoin.Wallet.Validation

namespace Mevacoin
open WalletTypes Wallet Checked

/-- The daemon as a transfer sees it. -/
structure WalletNode where
  getRandomOuts : SendTransaction.GetRandomOuts
  nodeFee : UInt64 × Text
  networkBlockCount : UInt64
  /-- Whether the transaction was accepted, or nothing without a connection. -/
  sendTransaction : Transaction → Option Bool

structure TransferContext where
  crypto : WalletCrypto
  primitives : Primitives
  codec : AddressCodec

namespace SendTransaction

/-- Twenty rounds cover every 64 bit number; the multiplier of the round after the last
digit is not used. -/
def splitDigits : Nat → UInt64 → UInt64 → List UInt64
  | 0, _, _ => []
  | rounds + 1, multiplier, amount =>
    if amount = 0 then []
    else
      let denomination := multiplier * (amount % 10)
      (if denomination ≠ 0 then [denomination] else [])
        ++ splitDigits rounds (multiplier * 10) (amount / 10)

def splitAmountIntoDenominations (amount : UInt64) : List UInt64 := splitDigits 20 1 amount

def splitTransfer (account : AccountPublicAddress) (amount : UInt64) :
    List TransactionDestination :=
  (splitAmountIntoDenominations amount).map fun denomination =>
    { amount := denomination
      receiverPublicSpendKey := account.spendPublicKey
      receiverPublicViewKey := account.viewPublicKey }

def setupDestinations (codec : AddressCodec) (addressesAndAmounts : List (Text × UInt64))
    (changeRequired : UInt64) (changeAddress : Text) :
    Except Failure (List TransactionDestination) := do
  let addressesAndAmounts := if changeRequired ≠ 0 then
      addressesAndAmounts ++ [(changeAddress, changeRequired)]
    else addressesAndAmounts
  let transfers ← addressesAndAmounts.mapM fun (address, amount) => do
    let account ← codec.addressToKeys address
    return splitTransfer account amount
  return transfers.flatten

/-! ### Building the transaction -/

structure TransactionResult where
  transaction : Transaction
  outputs : List WalletTypes.KeyOutput
  txKeyPair : KeyPair

def sortDestinations (destinations : List TransactionDestination) :
    List TransactionDestination :=
  destinations.insertionSort fun left right => left.amount ≤ right.amount

def setupOutputs (crypto : WalletCrypto) (randomTxKey : KeyPair)
    (destinations : List TransactionDestination) : List WalletTypes.KeyOutput :=
  (sortDestinations destinations).zipIdx.map fun (destination, outputIndex) =>
    { key := crypto.derivePublicKey
        (crypto.generateKeyDerivation destination.receiverPublicViewKey randomTxKey.secretKey)
        (UInt64.ofNat outputIndex) destination.receiverPublicSpendKey
      amount := destination.amount }

/-- One ring signature per input, all of them checked again at the end. -/
def generateRingSignatures (context : TransferContext) (tx : Transaction)
    (inputsAndFakes : List ObscuredInput) (tmpSecretKeys : List SecretKey) :
    Except Failure Transaction := do
  let txPrefixHash := context.primitives.getTransactionPrefixHash tx
  let signed := (inputsAndFakes.zip (tx.keyInputs.zip tmpSecretKeys)).mapM
    fun (input, keyInput, tmpSecretKey) => do
      let publicKeys := input.outputs.map fun output => output.key
      let signatures ← context.crypto.generateRingSignatures txPrefixHash keyInput.keyImage
        publicKeys tmpSecretKey input.realOutput
      return (publicKeys, keyInput.keyImage, signatures)
  let signed ← orError (.ofCode .failedToCreateRingSignature) signed
  rejectIf (∃ entry ∈ signed, context.crypto.checkRingSignature txPrefixHash entry.2.1
    entry.1 entry.2.2 = false) (.ofCode .failedToCreateRingSignature)
  return { tx with signatures := signed.map fun entry => entry.2.2 }

/-- The extra field of a new transaction: the payment ID if there is one, then the public
key. Whether the payment ID could be written is not looked at. -/
def transactionExtra (paymentID : Text) (txPublicKey : PublicKey) : BinaryArray :=
  let extra := if paymentID ≠ [] then (createTxExtraWithPaymentId paymentID []).1 else []
  addTransactionPublicKeyToExtra extra txPublicKey

def makeTransaction (context : TransferContext) (node : WalletNode) (randomTxKey : KeyPair)
    (mixin : UInt64) (ourInputs : List TxInputAndOwner) (paymentID : Text)
    (destinations : List TransactionDestination) (privateViewKey : SecretKey)
    (unlockTime : UInt64) : Except Failure TransactionResult := do
  let inputsAndFakes ← prepareRingParticipants ourInputs mixin node.getRandomOuts
  let (transactionInputs, tmpSecretKeys) ← setupInputs context.crypto inputsAndFakes
    privateViewKey
  let outputs := setupOutputs context.crypto randomTxKey destinations
  let setupTX : Transaction :=
    { version := 1
      unlockTime := unlockTime
      inputs := transactionInputs.map Mevacoin.TransactionInput.key
      outputs := outputs.map fun output =>
        { amount := output.amount, target := { key := output.key } }
      extra := transactionExtra paymentID randomTxKey.publicKey
      signatures := [] }
  let transaction ← generateRingSignatures context setupTX inputsAndFakes tmpSecretKeys
  return { transaction := transaction, outputs := outputs, txKeyPair := randomTxKey }

/-- A whole number of hundredths, rounded to even. -/
def roundHundredths (numerator denominator : Nat) : Nat :=
  let quotient := numerator * 100 / denominator
  let remainder := numerator * 100 % denominator
  if 2 * remainder < denominator then quotient
  else if denominator < 2 * remainder then quotient + 1
  else quotient + quotient % 2

def prettyPrintBytes (size : Nat) : Text :=
  let scale := if size < 1024 then 0 else if size < 1024 ^ 2 then 1
    else if size < 1024 ^ 3 then 2 else if size < 1024 ^ 4 then 3 else 4
  let hundredths := roundHundredths size (1024 ^ scale)
  toText (hundredths / 100) ++ ascii "." ++ toText (hundredths % 100 / 10)
    ++ toText (hundredths % 10) ++ ascii " " ++ ascii (["B", "KB", "MB", "GB", "TB"].getD scale "")

def getMaxTxSize (currentHeight : UInt64) : UInt64 :=
  let growth := currentHeight * UInt64.ofNat Parameters.maxBlockSizeGrowthSpeedNumerator
    / UInt64.ofNat Parameters.maxBlockSizeGrowthSpeedDenominator
  min (UInt64.ofNat Parameters.maxBlockSizeInitial + growth) 125000 - 600

def isTransactionPayloadTooBig (primitives : Primitives) (tx : Transaction)
    (currentHeight : UInt64) : Except Failure Unit :=
  let txSize := (primitives.transactionToBinaryArray tx).length
  let maxTxSize := getMaxTxSize currentHeight
  rejectIf (txSize > maxTxSize.toNat)
    (.returned
      { code := .tooManyInputsToFitInBlock
        customMessage := ascii "Transaction is too large: (" ++ prettyPrintBytes txSize
          ++ ascii "). Max allowed size is " ++ prettyPrintBytes maxTxSize.toNat
          ++ ascii ". Decrease the amount you are sending, or perform some fusion transactions." })

/-- `Currency::PRETTY_AMOUNTS`: one digit followed by zeros. -/
def prettyAmounts : List UInt64 :=
  ((List.range 19).flatMap fun power => (List.range 9).map fun digit =>
    UInt64.ofNat ((digit + 1) * 10 ^ power)) ++ [10000000000000000000]

def verifyAmounts (amounts : List UInt64) : Bool :=
  amounts.all fun amount => prettyAmounts.contains amount

def verifyTransactionFee (expectedFee : UInt64) (tx : Transaction) : Bool :=
  expectedFee = (tx.keyInputs.map KeyInput.amount).sum
    - (tx.outputs.map TransactionOutput.amount).sum

def relayTransaction (primitives : Primitives) (node : WalletNode) (tx : Transaction) :
    Except Failure Hash :=
  match node.sendTransaction tx with
  | none => .error (.ofCode .daemonOffline)
  | some false => .error (.ofCode .daemonError)
  | some true => .ok (primitives.getBinaryArrayHash (primitives.transactionToBinaryArray tx))

/-! ### Bookkeeping -/

def storeSentTransaction (codec : AddressCodec) (hash : Hash) (fee : UInt64) (paymentID : Text)
    (ourInputs : List TxInputAndOwner) (changeAddress : Text) (changeRequired : UInt64)
    (wallets : SubWallets) : Except Failure SubWallets := do
  let sent := ourInputs.foldl (fun transfers input =>
    addToTransfer input.publicSpendKey (-input.input.amount.toInt64) transfers) []
  let account ← codec.addressToKeys changeAddress
  let transfers := if changeRequired ≠ 0 then
      addToTransfer account.spendPublicKey changeRequired.toInt64 sent
    else sent
  wallets.addUnconfirmedTransaction
    { transfers := transfers
      hash := hash
      fee := fee
      timestamp := 0
      blockHeight := 0
      paymentID := paymentID
      unlockTime := 0
      isCoinbaseTransaction := false }

def storeUnconfirmedIncomingInputs (crypto : WalletCrypto) (keyOutputs : List WalletTypes.KeyOutput)
    (txPublicKey : PublicKey) (txHash : Hash) (wallets : SubWallets) : SubWallets :=
  let derivation := crypto.generateKeyDerivation txPublicKey wallets.privateViewKey
  keyOutputs.zipIdx.foldl (fun wallets (output, outputIndex) =>
    let spendKey := crypto.underivePublicKey derivation (UInt64.ofNat outputIndex) output.key
    if spendKey ∈ wallets.publicSpendKeys then
      wallets.storeUnconfirmedIncomingInput
        { amount := output.amount, key := output.key, parentTransactionHash := txHash } spendKey
    else wallets) wallets

/-- A call that changes the wallet; an exception leaves the changes made before it. -/
abbrev Sending := EStateM Failure SubWallets

def Sending.step (change : SubWallets → Except Failure SubWallets) : Sending Unit :=
  fun wallets =>
    match change wallets with
    | .ok changed => .ok () changed
    | .error failure => .error failure wallets

def Sending.read {α : Type} (compute : SubWallets → Except Failure α) : Sending α :=
  fun wallets =>
    match compute wallets with
    | .ok value => .ok value wallets
    | .error failure => .error failure wallets

namespace Sending
variable {α β : Type} {wallets after : SubWallets}

theorem step_eq_ok {change : SubWallets → Except Failure SubWallets} {value : Unit} :
    step change wallets = .ok value after ↔ change wallets = .ok after := by
  unfold step
  cases change wallets with
  | ok changed => exact ⟨fun same => by cases same; rfl, fun same => by cases same; rfl⟩
  | error failure => exact ⟨nofun, nofun⟩

theorem read_eq_ok {compute : SubWallets → Except Failure α} {value : α} :
    read compute wallets = .ok value after ↔ compute wallets = .ok value ∧ after = wallets := by
  unfold read
  cases compute wallets with
  | ok computed =>
    exact ⟨fun same => by cases same; exact ⟨rfl, rfl⟩,
      fun ⟨same, isAfter⟩ => by cases same; rw [isAfter]⟩
  | error failure => exact ⟨nofun, nofun⟩

theorem bind_eq_ok {first : Sending α} {next : α → Sending β} {value : β} :
    (first >>= next) wallets = .ok value after ↔
      ∃ result middle, first wallets = .ok result middle ∧ next result middle = .ok value after := by
  change EStateM.bind first next wallets = _ ↔ _
  unfold EStateM.bind
  cases first wallets with
  | ok result middle =>
    refine ⟨fun ran => ⟨result, middle, rfl, ran⟩, ?_⟩
    intro ⟨_, _, same, ran⟩
    cases same
    exact ran
  | error failure middle => exact ⟨nofun, nofun⟩

theorem forM_step_eq_ok {change : α → SubWallets → Except Failure SubWallets} {items : List α}
    {value : PUnit} : (items.forM fun item => step (change item)) wallets = .ok value after ↔
      items.foldlM (fun wallets item => change item wallets) wallets = .ok after := by
  induction items generalizing wallets with
  | nil => exact ⟨fun same => by cases same; rfl, fun same => by cases same; rfl⟩
  | cons item items ih =>
    rw [foldlM_cons_eq_ok]
    refine (@bind_eq_ok _ _ wallets after (step (change item))
      (fun _ => items.forM fun item => step (change item)) value).trans ?_
    constructor
    · intro ⟨_, middle, first, rest⟩
      exact ⟨middle, step_eq_ok.mp first, ih.mp rest⟩
    · intro ⟨middle, first, rest⟩
      exact ⟨(), middle, step_eq_ok.mpr first, ih.mpr rest⟩

end Sending

/-- What a wallet records about a transaction that it has relayed. -/
def recordSent (context : TransferContext) (txHash : Hash) (fee : UInt64) (paymentID : Text)
    (ourInputs : List TxInputAndOwner) (changeAddress : Text) (changeRequired : UInt64)
    (outputs : List WalletTypes.KeyOutput) (txKeyPair : KeyPair) : Sending Unit := do
  Sending.step (storeSentTransaction context.codec txHash fee paymentID ourInputs changeAddress
    changeRequired)
  modify (storeUnconfirmedIncomingInputs context.crypto outputs txKeyPair.publicKey txHash)
  modify (SubWallets.storeTxPrivateKey txKeyPair.secretKey txHash)
  ourInputs.forM fun input =>
    Sending.step (SubWallets.markInputAsLocked input.input.keyImage input.publicSpendKey)

/-! ### A transfer -/

structure TransferRequest where
  addressesAndAmounts : List (Text × UInt64)
  mixin : UInt64
  fee : UInt64
  paymentID : Text
  addressesToTakeFrom : List Text
  changeAddress : Text
  unlockTime : UInt64

/-- Integrated addresses are replaced by the standard address and the payment ID in them. -/
def convertIntegrated (codec : AddressCodec) :
    List (Text × UInt64) → Text → Except Failure (List (Text × UInt64) × Text)
  | [], paymentID => .ok ([], paymentID)
  | (address, amount) :: rest, paymentID =>
    if address.length ≠ integratedAddressLength then do
      let (converted, paymentID) ← convertIntegrated codec rest paymentID
      return ((address, amount) :: converted, paymentID)
    else do
      let (extractedAddress, extractedPaymentID) ←
        orError (.thrown (ascii "basic_string::substr"))
          (codec.extractIntegratedAddressData address)
      let (converted, paymentID) ← convertIntegrated codec rest extractedPaymentID
      return ((extractedAddress, amount) :: converted, paymentID)

/-- A transaction that is ready to be relayed, with what the wallet has to record. -/
structure PreparedTransfer where
  result : TransactionResult
  ourInputs : List TxInputAndOwner
  paymentID : Text
  changeAddress : Text
  changeRequired : UInt64
  destinations : List (Text × UInt64)

def prepareTransfer (context : TransferContext) (runtime : WalletRuntime) (node : WalletNode)
    (request : TransferRequest) (wallets : SubWallets) : Except Failure PreparedTransfer := do
  let addressesAndAmounts := if node.nodeFee.1 ≠ 0 then
      request.addressesAndAmounts ++ [(node.nodeFee.2, node.nodeFee.1)]
    else request.addressesAndAmounts
  let changeAddress ← if request.changeAddress = [] then wallets.getPrimaryAddress
    else .ok request.changeAddress
  ValidateParameters.validateTransaction context.codec runtime.now addressesAndAmounts
    request.mixin request.fee request.paymentID request.addressesToTakeFrom changeAddress wallets
    node.networkBlockCount
  let (addressesAndAmounts, paymentID) ← convertIntegrated context.codec addressesAndAmounts
    request.paymentID
  let totalAmount := ValidateParameters.getTransactionSum addressesAndAmounts + request.fee
  let subWalletsToTakeFrom ← context.codec.addressesToSpendKeys request.addressesToTakeFrom
  let (ourInputs, sumOfInputs) ← wallets.getTransactionInputsForAmount runtime totalAmount
    request.addressesToTakeFrom.isEmpty subWalletsToTakeFrom node.networkBlockCount
  let changeRequired := sumOfInputs - totalAmount
  let destinations ← setupDestinations context.codec addressesAndAmounts changeRequired
    changeAddress
  let txResult ← makeTransaction context node (runtime.generateKeyPair 0) request.mixin ourInputs
    paymentID destinations wallets.privateViewKey request.unlockTime
  isTransactionPayloadTooBig context.primitives txResult.transaction node.networkBlockCount
  rejectIf
    (verifyAmounts (txResult.transaction.outputs.map TransactionOutput.amount) = false)
    (.ofCode .amountsNotPretty)
  rejectIf (verifyTransactionFee request.fee txResult.transaction = false)
    (.ofCode .unexpectedFee)
  return {
    result := txResult
    ourInputs := ourInputs
    paymentID := paymentID
    changeAddress := changeAddress
    changeRequired := changeRequired
    destinations := addressesAndAmounts }

def sendTransactionAdvanced (context : TransferContext) (runtime : WalletRuntime)
    (node : WalletNode) (request : TransferRequest) : Sending Hash := do
  let transfer ← Sending.read (prepareTransfer context runtime node request)
  let txHash ← Sending.read fun _ =>
    relayTransaction context.primitives node transfer.result.transaction
  recordSent context txHash request.fee transfer.paymentID transfer.ourInputs
    transfer.changeAddress transfer.changeRequired transfer.result.outputs
    transfer.result.txKeyPair
  return txHash

end SendTransaction
end Mevacoin
