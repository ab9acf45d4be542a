/-
The transfers container of one subscription: the transactions that concern it and the
outputs they pay to it, split into unconfirmed, available and spent ones. Outputs can
share a key image; of those with one key image at most one is visible, and the balance
counts visible outputs only.

The hash indexes are lists; a call that throws keeps what it changed before. All outputs
are key outputs. Where a loop of the source runs over a range of an index and erases what
it visits, the model makes one round per element of that range.
-/

import Mevacoin.Lib.FirstMatch
import Mevacoin.Lib.Stateful
import Mevacoin.Wallet.Types

namespace Mevacoin
namespace Transfers
open Wallet Parameters Stateful FirstMatch

/-! ### Records -/

def unconfirmedTransactionHeight : UInt32 := 0xFFFFFFFF

def unconfirmedTransactionGlobalOutputIndex : UInt32 := 0xFFFFFFFF

structure TransactionBlockInfo where
  height : UInt32
  timestamp : UInt64
  transactionIndex : UInt32
  deriving DecidableEq, Repr

structure TransactionInformation where
  transactionHash : Hash
  publicKey : PublicKey
  blockHeight : UInt32
  timestamp : UInt64
  unlockTime : UInt64
  totalAmountIn : UInt64
  totalAmountOut : UInt64
  extra : BinaryArray
  paymentId : Hash
  deriving DecidableEq, Repr

/-- An output that was found to belong to the subscription. -/
structure TransactionOutputInformationIn where
  amount : UInt64
  globalOutputIndex : UInt32
  outputInTransaction : UInt32
  transactionPublicKey : PublicKey
  outputKey : PublicKey
  keyImage : KeyImage
  deriving DecidableEq, Repr

structure TransactionOutputInformationEx extends TransactionOutputInformationIn where
  transactionHash : Hash
  unlockTime : UInt64
  blockHeight : UInt32
  transactionIndex : UInt32
  visible : Bool
  deriving DecidableEq, Repr

structure SpentTransactionOutput extends TransactionOutputInformationEx where
  spendingBlock : TransactionBlockInfo
  spendingTransactionHash : Hash
  inputInTransaction : UInt32
  deriving DecidableEq, Repr

structure TransactionReader where
  transactionHash : Hash
  publicKey : PublicKey
  unlockTime : UInt64
  inputs : List TransactionInput
  inputTotalAmount : UInt64
  outputTotalAmount : UInt64
  extra : BinaryArray
  paymentId : Option Hash
  deriving DecidableEq, Repr

/-- The transactions stand in the order of the block height index. -/
structure TransfersContainer where
  transactions : List TransactionInformation
  unconfirmedTransfers : List TransactionOutputInformationEx
  availableTransfers : List TransactionOutputInformationEx
  spentTransfers : List SpentTransactionOutput
  currentHeight : UInt32
  deriving DecidableEq, Repr

def TransactionInformation.isUnconfirmed (info : TransactionInformation) : Bool :=
  info.blockHeight = unconfirmedTransactionHeight

/-- An insertion goes behind all transactions of the same height. -/
def insertByHeight (info : TransactionInformation) :
    List TransactionInformation → List TransactionInformation
  | [] => [info]
  | first :: rest =>
    if info.blockHeight < first.blockHeight then info :: first :: rest
    else first :: insertByHeight info rest

/-- A replacement stays where it is if the order allows it, else it is inserted again. -/
def replaceByHeight (change : TransactionInformation → TransactionInformation) (hash : Hash) :
    List TransactionInformation → List TransactionInformation → List TransactionInformation
  | before, [] => before
  | before, info :: after =>
    if info.transactionHash = hash then
      let changed := change info
      if (∀ last ∈ before.getLast?, ¬ changed.blockHeight < last.blockHeight) ∧
          (∀ next ∈ after.head?, ¬ next.blockHeight < changed.blockHeight) then
        before ++ changed :: after
      else insertByHeight changed (before ++ after)
    else replaceByHeight change hash (before ++ [info]) after

namespace TransfersContainer

def empty : TransfersContainer := ⟨[], [], [], [], 0⟩

def findTransaction (container : TransfersContainer) (hash : Hash) : Option TransactionInformation :=
  container.transactions.find? fun info => info.transactionHash = hash

def less (first second : TransactionOutputInformationEx) : Bool :=
  first.blockHeight < second.blockHeight ∨
    (first.blockHeight = second.blockHeight ∧ first.transactionIndex < second.transactionIndex)

def updateVisibility (keyImage : KeyImage) (visible : Bool)
    (transfers : List TransactionOutputInformationEx) : List TransactionOutputInformationEx :=
  transfers.map fun transfer =>
    if transfer.keyImage = keyImage then { transfer with visible := visible } else transfer

def updateSpentVisibility (keyImage : KeyImage) (visible : Bool)
    (transfers : List SpentTransactionOutput) : List SpentTransactionOutput :=
  transfers.map fun transfer =>
    if transfer.keyImage = keyImage then
      { transfer with toTransactionOutputInformationEx.visible := visible }
    else transfer

/-- Whether a transfer is an earliest one with its key image and passes the test. -/
def isEarliest (transfers : List TransactionOutputInformationEx)
    (test : TransactionOutputInformationEx → Bool) (transfer : TransactionOutputInformationEx) : Bool :=
  test transfer ∧ ∀ other ∈ transfers, test other → less other transfer = false

def showFirst (test : TransactionOutputInformationEx → Bool) :
    List TransactionOutputInformationEx → List TransactionOutputInformationEx
  | [] => []
  | transfer :: transfers =>
    if test transfer then { transfer with visible := true } :: transfers
    else transfer :: showFirst test transfers

def updateTransfersVisibility (keyImage : KeyImage) (container : TransfersContainer) :
    TransfersContainer :=
  let hasImage := fun transfer : TransactionOutputInformationEx => transfer.keyImage = keyImage
  let unconfirmedCount := container.unconfirmedTransfers.countP hasImage
  let availableCount := container.availableTransfers.countP hasImage
  let spentCount := container.spentTransfers.countP fun transfer => transfer.keyImage = keyImage
  if spentCount > 0 then
    { container with
      unconfirmedTransfers := updateVisibility keyImage false container.unconfirmedTransfers
      availableTransfers := updateVisibility keyImage false container.availableTransfers
      spentTransfers := updateSpentVisibility keyImage true container.spentTransfers }
  else if availableCount > 0 then
    let hidden := updateVisibility keyImage false container.availableTransfers
    { container with
      unconfirmedTransfers := updateVisibility keyImage false container.unconfirmedTransfers
      availableTransfers := showFirst (isEarliest hidden hasImage) hidden }
  else
    { container with
      unconfirmedTransfers :=
        updateVisibility keyImage (unconfirmedCount = 1) container.unconfirmedTransfers }

end TransfersContainer

abbrev Call := EStateM Text TransfersContainer

open TransfersContainer

/-! ### Adding a transaction -/

def outputInformation (block : TransactionBlockInfo) (tx : TransactionReader)
    (transfer : TransactionOutputInformationIn) : TransactionOutputInformationEx where
  toTransactionOutputInformationIn := transfer
  transactionHash := tx.transactionHash
  unlockTime := tx.unlockTime
  blockHeight := block.height
  transactionIndex := block.transactionIndex
  visible := true

def isDuplicate (info other : TransactionOutputInformationEx) : Bool :=
  other.keyImage = info.keyImage ∧ other.transactionHash = info.transactionHash ∧
    other.outputInTransaction = info.outputInTransaction

def addTransactionOutput (block : TransactionBlockInfo) (tx : TransactionReader)
    (transfer : TransactionOutputInformationIn) : Call Unit := do
  let transactionIsUnconfirmed := block.height = unconfirmedTransactionHeight
  let transferIsUnconfirmed := transfer.globalOutputIndex = unconfirmedTransactionGlobalOutputIndex
  throwIf (¬ (transactionIsUnconfirmed ↔ transferIsUnconfirmed))
    (ascii "Failed to add transaction output: globalOutputIndex is invalid")
  let info := outputInformation block tx transfer
  let container ← get
  if transferIsUnconfirmed then
    set (updateTransfersVisibility info.keyImage
      { container with unconfirmedTransfers := container.unconfirmedTransfers ++ [info] })
  else
    throwIf (container.availableTransfers.any (isDuplicate info) ∨
        container.spentTransfers.any fun spent =>
          isDuplicate info spent.toTransactionOutputInformationEx)
      (ascii "Failed to add transaction output: key output already exists")
    set (updateTransfersVisibility info.keyImage
      { container with availableTransfers := container.availableTransfers ++ [info] })

def addTransactionOutputs (block : TransactionBlockInfo) (tx : TransactionReader)
    (transfers : List TransactionOutputInformationIn) : Call Bool := do
  transfers.forM (addTransactionOutput block tx)
  return !transfers.isEmpty

/-- The output that an input spends: the earliest available one of its key image and
amount. -/
def spendable (available : List TransactionOutputInformationEx) (input : KeyInput) :
    Option (TransactionOutputInformationEx × List TransactionOutputInformationEx) :=
  take (isEarliest available fun transfer =>
    transfer.keyImage = input.keyImage ∧ transfer.amount = input.amount) available

def spentOutput (block : TransactionBlockInfo) (tx : TransactionReader) (inputIndex : Nat)
    (output : TransactionOutputInformationEx) : SpentTransactionOutput where
  toTransactionOutputInformationEx := output
  spendingBlock := block
  spendingTransactionHash := tx.transactionHash
  inputInTransaction := UInt32.ofNat inputIndex

/-- Whether the input spends an output of the container. -/
def addKeyInput (block : TransactionBlockInfo) (tx : TransactionReader) (inputIndex : Nat)
    (input : KeyInput) : Call Bool := do
  let container ← get
  throwIf (container.spentTransfers.any fun transfer => transfer.keyImage = input.keyImage)
    (ascii "Failed add key input: key image already spent")
  if container.availableTransfers.any (fun transfer => transfer.keyImage = input.keyImage) then
    match spendable container.availableTransfers input with
    | none => throw (ascii "Failed to add key input: invalid amount")
    | some (output, rest) =>
      set (updateTransfersVisibility input.keyImage
        { container with
          availableTransfers := rest
          spentTransfers := container.spentTransfers ++ [spentOutput block tx inputIndex output] })
      return true
  else
    throwIf (container.unconfirmedTransfers.any fun transfer => transfer.keyImage = input.keyImage)
      (ascii "Failed to add key input: spend output of unconfirmed transaction")
    return false

def addTransactionInputs (block : TransactionBlockInfo) (tx : TransactionReader) :
    Nat → List TransactionInput → Call Bool
  | _, [] => return false
  | inputIndex, .base _ :: inputs => addTransactionInputs block tx (inputIndex + 1) inputs
  | inputIndex, .key input :: inputs => do
      let added ← addKeyInput block tx inputIndex input
      let addedLater ← addTransactionInputs block tx (inputIndex + 1) inputs
      return added || addedLater

def transactionInformation (block : TransactionBlockInfo) (tx : TransactionReader) :
    TransactionInformation where
  transactionHash := tx.transactionHash
  publicKey := tx.publicKey
  blockHeight := block.height
  timestamp := block.timestamp
  unlockTime := tx.unlockTime
  totalAmountIn := tx.inputTotalAmount
  totalAmountOut := tx.outputTotalAmount
  extra := tx.extra
  paymentId := tx.paymentId.getD { value := 0 }

/-! ### Removing the transfers of a transaction -/

/-- One output that the transaction had spent becomes available again. -/
def returnSpentTransfer (hash : Hash) (container : TransfersContainer) : TransfersContainer :=
  match take (fun transfer => transfer.spendingTransactionHash = hash)
      container.spentTransfers with
  | none => container
  | some (transfer, rest) =>
    updateTransfersVisibility transfer.keyImage
      { container with
        availableTransfers :=
          container.availableTransfers ++ [transfer.toTransactionOutputInformationEx]
        spentTransfers := rest }

def dropUnconfirmedTransfer (hash : Hash) (container : TransfersContainer) : TransfersContainer :=
  match take (fun transfer => transfer.transactionHash = hash)
      container.unconfirmedTransfers with
  | none => container
  | some (transfer, rest) =>
    updateTransfersVisibility transfer.keyImage { container with unconfirmedTransfers := rest }

def dropAvailableTransfer (hash : Hash) (container : TransfersContainer) : TransfersContainer :=
  match take (fun transfer => transfer.transactionHash = hash)
      container.availableTransfers with
  | none => container
  | some (transfer, rest) =>
    updateTransfersVisibility transfer.keyImage { container with availableTransfers := rest }

def deleteTransactionTransfers (hash : Hash) (container : TransfersContainer) : TransfersContainer :=
  let returned := Nat.repeat (returnSpentTransfer hash)
    (container.spentTransfers.countP fun transfer => transfer.spendingTransactionHash = hash) container
  let dropped := Nat.repeat (dropUnconfirmedTransfer hash)
    (returned.unconfirmedTransfers.countP fun transfer => transfer.transactionHash = hash) returned
  Nat.repeat (dropAvailableTransfer hash)
    (dropped.availableTransfers.countP fun transfer => transfer.transactionHash = hash) dropped

/-- The transaction is recorded if it concerns the container. -/
def recordTransaction (block : TransactionBlockInfo) (tx : TransactionReader) (added : Bool)
    (container : TransfersContainer) : TransfersContainer :=
  { container with
    transactions :=
      if added then insertByHeight (transactionInformation block tx) container.transactions
      else container.transactions
    currentHeight :=
      if block.height ≠ unconfirmedTransactionHeight then block.height
      else container.currentHeight }

/-- The part of `addTransaction` inside its try block. -/
def tryAddTransaction (block : TransactionBlockInfo) (tx : TransactionReader)
    (transfers : List TransactionOutputInformationIn) : Call Bool := do
  let container ← get
  throwIf (block.height < container.currentHeight)
    (ascii "Failed to add transaction: block index < m_currentHeight")
  throwIf (container.findTransaction tx.transactionHash).isSome
    (ascii "Transaction is already added")
  let outputsAdded ← addTransactionOutputs block tx transfers
  let inputsAdded ← addTransactionInputs block tx 0 tx.inputs
  let added := outputsAdded || inputsAdded
  modify (recordTransaction block tx added)
  return added

def addTransaction (block : TransactionBlockInfo) (tx : TransactionReader)
    (transfers : List TransactionOutputInformationIn) : Call Bool :=
  tryCatch (tryAddTransaction block tx transfers) fun message => do
    modify fun container =>
      if (container.findTransaction tx.transactionHash).isNone then
        deleteTransactionTransfers tx.transactionHash container
      else container
    throw message

def eraseTransaction (hash : Hash) (container : TransfersContainer) : TransfersContainer :=
  { container with
    transactions := container.transactions.filter fun info => info.transactionHash ≠ hash }

def deleteUnconfirmedTransaction (hash : Hash) : Call Bool := do
  let container ← get
  match container.findTransaction hash with
  | none => return false
  | some info =>
    if info.isUnconfirmed then
      set (eraseTransaction hash (deleteTransactionTransfers hash container))
      return true
    else return false

/-- One transaction from the end of the height index after the other; the first confirmed
one below the height ends the loop. -/
def detachFrom (height : UInt32) :
    List TransactionInformation → TransfersContainer × List Hash → TransfersContainer × List Hash
  | [], result => result
  | info :: rest, (container, deleted) =>
    let delete :=
      (eraseTransaction info.transactionHash
        (deleteTransactionTransfers info.transactionHash container),
        deleted ++ [info.transactionHash])
    if info.isUnconfirmed then
      if container.spentTransfers.any fun transfer =>
          transfer.spendingTransactionHash = info.transactionHash ∧ transfer.blockHeight ≥ height then
        detachFrom height rest delete
      else detachFrom height rest (container, deleted)
    else if info.blockHeight ≥ height then detachFrom height rest delete
    else (container, deleted)

def detach (height : UInt32) : Call (List Hash) := do
  let container ← get
  let (detached, deletedTransactions) :=
    detachFrom height container.transactions.reverse (container, [])
  set { detached with currentHeight := if height = 0 then 0 else height - 1 }
  return deletedTransactions

/-! ### Confirming a transaction -/

def setHeight (height : UInt32) (timestamp : UInt64) (info : TransactionInformation) :
    TransactionInformation :=
  { info with blockHeight := height, timestamp := timestamp }

def setSpendingBlock (hash : Hash) (block : TransactionBlockInfo) (container : TransfersContainer) :
    TransfersContainer :=
  { container with
    spentTransfers := container.spentTransfers.map fun transfer =>
      if transfer.spendingTransactionHash = hash then { transfer with spendingBlock := block }
      else transfer }

def replaceTransaction (change : TransactionInformation → TransactionInformation) (hash : Hash)
    (container : TransfersContainer) : TransfersContainer :=
  { container with transactions := replaceByHeight change hash [] container.transactions }

/-- The unconfirmed transfers of the transaction become available, one in each round. -/
def confirmTransfers (block : TransactionBlockInfo) (hash : Hash) (globalIndices : List UInt32) :
    Nat → Call Unit
  | 0 => return ()
  | rounds + 1 => do
      let container ← get
      match take (fun transfer => transfer.transactionHash = hash)
          container.unconfirmedTransfers with
      | none => return ()
      | some (transfer, rest) =>
        match globalIndices[transfer.outputInTransaction.toNat]? with
        | none =>
          throw (ascii "Failed to confirm transaction: not enough elements in globalIndices")
        | some globalOutputIndex =>
          let confirmed := { transfer with
            blockHeight := block.height
            transactionIndex := block.transactionIndex
            globalOutputIndex := globalOutputIndex }
          set (updateTransfersVisibility transfer.keyImage
            { container with
              unconfirmedTransfers := rest
              availableTransfers := container.availableTransfers ++ [confirmed] })
          confirmTransfers block hash globalIndices rounds

/-- One available transfer of the transaction becomes unconfirmed again. -/
def unconfirmTransfer (hash : Hash) (container : TransfersContainer) : TransfersContainer :=
  match take (fun transfer => transfer.transactionHash = hash)
      container.availableTransfers with
  | none => container
  | some (transfer, rest) =>
    let unconfirmed := { transfer with
      blockHeight := unconfirmedTransactionHeight
      transactionIndex := 0
      globalOutputIndex := unconfirmedTransactionGlobalOutputIndex }
    updateTransfersVisibility transfer.keyImage
      { container with
        availableTransfers := rest
        unconfirmedTransfers := container.unconfirmedTransfers ++ [unconfirmed] }

def rollbackConfirmation (hash : Hash) (container : TransfersContainer) : TransfersContainer :=
  let replaced := replaceTransaction (setHeight unconfirmedTransactionHeight 0) hash container
  let unconfirmed := Nat.repeat (unconfirmTransfer hash)
    (replaced.availableTransfers.countP fun transfer => transfer.transactionHash = hash) replaced
  setSpendingBlock hash ⟨unconfirmedTransactionHeight, 0, 0⟩ unconfirmed

/-- The part of `markTransactionConfirmed` inside its try block. -/
def tryConfirm (block : TransactionBlockInfo) (hash : Hash) (globalIndices : List UInt32) :
    Call Unit := do
  modify (replaceTransaction (setHeight block.height block.timestamp) hash)
  let container ← get
  confirmTransfers block hash globalIndices
    (container.unconfirmedTransfers.countP fun transfer => transfer.transactionHash = hash)
  modify (setSpendingBlock hash block)

def markTransactionConfirmed (block : TransactionBlockInfo) (hash : Hash)
    (globalIndices : List UInt32) : Call Bool := do
  throwIf (block.height = unconfirmedTransactionHeight)
    (ascii "Failed to confirm transaction: block height is unconfirmed")
  let container ← get
  match container.findTransaction hash with
  | none => return false
  | some info =>
    if info.isUnconfirmed then
      tryCatch (tryConfirm block hash globalIndices) fun message => do
        modify (rollbackConfirmation hash)
        throw message
      return true
    else return false

def advanceHeight (height : UInt32) : Call Bool := do
  let container ← get
  if container.currentHeight ≤ height then
    set { container with currentHeight := height }
    return true
  else return false

def includeStateUnlocked : UInt32 := 0x01
def includeStateLocked : UInt32 := 0x02
def includeStateSoftLocked : UInt32 := 0x04
def includeTypeKey : UInt32 := 0x100

structure BalanceContext where
  currentTime : UInt64
  transactionSpendableAge : Nat

def isSpendTimeUnlocked (context : BalanceContext) (container : TransfersContainer)
    (unlockTime : UInt64) : Bool :=
  if unlockTime.toNat < maxBlockNumber then
    container.currentHeight.toNat + lockedTxAllowedDeltaBlocks ≥ unlockTime.toNat
  else context.currentTime.toNat + lockedTxAllowedDeltaSeconds ≥ unlockTime.toNat

def isIncludedState (state flags : UInt32) : Bool :=
  flags &&& includeTypeKey ≠ 0 ∧ flags &&& state ≠ 0

def isIncluded (context : BalanceContext) (container : TransfersContainer)
    (info : TransactionOutputInformationEx) (flags : UInt32) : Bool :=
  let state :=
    if info.blockHeight = unconfirmedTransactionHeight ∨
        isSpendTimeUnlocked context container info.unlockTime = false then includeStateLocked
    else if container.currentHeight.toNat < info.blockHeight.toNat + context.transactionSpendableAge then
      includeStateSoftLocked
    else includeStateUnlocked
  isIncludedState state flags

def counted (context : BalanceContext) (container : TransfersContainer) (flags : UInt32) :
    List TransactionOutputInformationEx :=
  (container.availableTransfers.filter fun transfer =>
    transfer.visible ∧ isIncluded context container transfer flags) ++
  if flags &&& includeStateLocked ≠ 0 then
    container.unconfirmedTransfers.filter fun transfer =>
      transfer.visible ∧ isIncludedState includeStateLocked flags
  else []

def balance (context : BalanceContext) (container : TransfersContainer) (flags : UInt32) : UInt64 :=
  ((counted context container flags).map fun transfer => transfer.amount).sum

inductive Operation where
  | addTransaction (block : TransactionBlockInfo) (tx : TransactionReader)
      (transfers : List TransactionOutputInformationIn)
  | deleteUnconfirmedTransaction (hash : Hash)
  | markTransactionConfirmed (block : TransactionBlockInfo) (hash : Hash)
      (globalIndices : List UInt32)
  | detach (height : UInt32)
  | advanceHeight (height : UInt32)

/-- The container after the call, whether it returns or throws. -/
def Operation.apply (container : TransfersContainer) : Operation → TransfersContainer
  | .addTransaction block tx transfers =>
    final (Transfers.addTransaction block tx transfers container)
  | .deleteUnconfirmedTransaction hash =>
    final (Transfers.deleteUnconfirmedTransaction hash container)
  | .markTransactionConfirmed block hash globalIndices =>
    final (Transfers.markTransactionConfirmed block hash globalIndices container)
  | .detach height => final (Transfers.detach height container)
  | .advanceHeight height => final (Transfers.advanceHeight height container)

def afterCalls (calls : List Operation) : TransfersContainer :=
  calls.foldl Operation.apply TransfersContainer.empty

end Transfers
end Mevacoin
