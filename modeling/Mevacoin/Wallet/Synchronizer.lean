/-
How the wallet follows the daemon's chain. Each block is scanned for outputs and spends
of the wallet's own keys, and its hash is remembered to ask for the next ones. A block
at or below the last known height starts with a rollback to its height.
-/

import Mevacoin.Wallet.SubWallets

namespace Mevacoin
open WalletTypes Wallet

def lastKnownBlockHashesSize : Nat := 100

def blockHashCheckpointsInterval : UInt64 := 5000

def globalIndexesObscurity : UInt64 := 10

structure SynchronizationStatus where
  blockHashCheckpoints : List Hash := []
  lastKnownBlockHashes : List Hash := []
  lastKnownBlockHeight : UInt64 := 0
  deriving DecidableEq, Repr

namespace SynchronizationStatus

def missedBlocks (expected height : UInt64) : Failure :=
  .thrown (ascii "Blocks were missed in syncing process! Expected: " ++ toText expected.toNat
    ++ ascii ", Received: " ++ toText height.toNat
    ++ ascii ".\nPossibly malicious daemon. Terminating.")

def storeBlockHash (hash : Hash) (height : UInt64) (status : SynchronizationStatus) :
    Except Failure SynchronizationStatus := do
  Checked.rejectIf (height > status.lastKnownBlockHeight ∧ status.lastKnownBlockHeight ≠ 0 ∧
      height ≠ status.lastKnownBlockHeight + 1)
    (missedBlocks (status.lastKnownBlockHeight + 1) height)
  let recent := hash :: status.lastKnownBlockHashes
  return {
    lastKnownBlockHeight := height
    blockHashCheckpoints :=
      if height % blockHashCheckpointsInterval = 0 then hash :: status.blockHashCheckpoints
      else status.blockHashCheckpoints
    lastKnownBlockHashes :=
      if recent.length > lastKnownBlockHashesSize then recent.dropLast else recent }

def getBlockHashCheckpoints (status : SynchronizationStatus) : List Hash :=
  status.lastKnownBlockHashes ++ status.blockHashCheckpoints

end SynchronizationStatus

structure WalletSynchronizer where
  syncStatus : SynchronizationStatus
  startTimestamp : UInt64
  startHeight : UInt64
  privateViewKey : SecretKey
  deriving DecidableEq, Repr

/-- The state of a wallet: its subwallets and its synchronizer. -/
structure WalletBackend where
  subWallets : SubWallets
  walletSynchronizer : WalletSynchronizer
  deriving DecidableEq, Repr

/-- `getGlobalIndexesForRange`: the indexes of the outputs of each transaction in a range
of blocks, or nothing when the daemon does not answer. -/
abbrev GetGlobalIndexes := UInt64 → UInt64 → Option (List (Hash × List UInt64))

/-! ### Scanning one block -/

/-- An output that the wallet owns, under the public spend key it belongs to. -/
abbrev OwnedInput := PublicKey × WalletTypes.TransactionInput

def processOutput (crypto : WalletCrypto) (wallets : SubWallets) (derivation : KeyDerivation)
    (rawTX : RawCoinbaseTransaction) (blockHeight : UInt64) (output : WalletTypes.KeyOutput)
    (outputIndex : UInt64) : Except Failure (Option OwnedInput) :=
  let derivedSpendKey := crypto.underivePublicKey derivation outputIndex output.key
  if derivedSpendKey ∈ wallets.publicSpendKeys then do
    let keyImage ← wallets.getTxInputKeyImage crypto derivedSpendKey derivation outputIndex
    return some (derivedSpendKey,
      { keyImage := keyImage
        amount := output.amount
        blockHeight := blockHeight
        transactionPublicKey := rawTX.transactionPublicKey
        transactionIndex := outputIndex
        globalOutputIndex := output.globalOutputIndex
        key := output.key
        spendHeight := 0
        unlockTime := rawTX.unlockTime
        parentTransactionHash := rawTX.hash })
  else return none

def processTransactionOutputs (crypto : WalletCrypto) (wallets : SubWallets)
    (privateViewKey : SecretKey) (blockHeight : UInt64) (rawTX : RawCoinbaseTransaction) :
    Except Failure (List OwnedInput) := do
  let derivation := crypto.generateKeyDerivation rawTX.transactionPublicKey privateViewKey
  let found ← rawTX.keyOutputs.zipIdx.mapM fun (output, index) =>
    processOutput crypto wallets derivation rawTX blockHeight output (UInt64.ofNat index)
  return found.filterMap id

def scannedTransactions (block : WalletBlockInfo) : List RawCoinbaseTransaction :=
  block.coinbaseTransaction :: block.transactions.map RawTransaction.toRawCoinbaseTransaction

def processBlockOutputs (crypto : WalletCrypto) (wallets : SubWallets)
    (privateViewKey : SecretKey) (block : WalletBlockInfo) : Except Failure (List OwnedInput) := do
  let inputs ← (scannedTransactions block).mapM
    (processTransactionOutputs crypto wallets privateViewKey block.blockHeight)
  return inputs.flatten

/-- The indexes of a range of blocks around the height. An unanswered request leaves the
table empty. -/
def getGlobalIndexes (daemon : GetGlobalIndexes) (blockHeight : UInt64) :
    List (Hash × List UInt64) :=
  let startHeight := blockHeight - blockHeight % globalIndexesObscurity
  (daemon startHeight (startHeight + globalIndexesObscurity)).getD []

/-- Nothing when the daemon has no index for the output. -/
def fillGlobalIndex (isViewWallet : Bool) (globalIndexes : List (Hash × List UInt64))
    (input : OwnedInput) : Option OwnedInput :=
  if isViewWallet || input.2.globalOutputIndex.isSome then some input
  else do
    let entry ← globalIndexes.find? fun entry => entry.1 = input.2.parentTransactionHash
    let index ← entry.2[input.2.transactionIndex.toNat]?
    return (input.1, { input.2 with globalOutputIndex := some index })

def addReceived (inputs : List OwnedInput) (hash : Hash) : List (PublicKey × Int64) :=
  (inputs.filter fun input => input.2.parentTransactionHash = hash).foldl
    (fun transfers input => addToTransfer input.1 input.2.amount.toInt64 transfers) []

def processCoinbaseTransaction (block : WalletBlockInfo) (inputs : List OwnedInput) :
    Option WalletTypes.Transaction :=
  let tx := block.coinbaseTransaction
  let transfers := addReceived inputs tx.hash
  if transfers.isEmpty then none
  else some
    { transfers := transfers
      hash := tx.hash
      fee := 0
      timestamp := block.blockTimestamp
      blockHeight := block.blockHeight
      paymentID := []
      unlockTime := tx.unlockTime
      isCoinbaseTransaction := true }

/-- The inputs of a transaction that spend outputs of the wallet, with their owners. -/
def ownSpends (wallets : SubWallets) (tx : RawTransaction) : List (PublicKey × KeyInput) :=
  tx.keyInputs.filterMap fun input =>
    (wallets.getKeyImageOwner input.keyImage).map fun owner => (owner, input)

def processTransaction (wallets : SubWallets) (block : WalletBlockInfo) (inputs : List OwnedInput)
    (tx : RawTransaction) : Option WalletTypes.Transaction × List (PublicKey × KeyImage) :=
  let spends := ownSpends wallets tx
  let transfers := spends.foldl
    (fun transfers spend => addToTransfer spend.1 (-spend.2.amount.toInt64) transfers)
    (addReceived inputs tx.hash)
  if transfers.isEmpty then (none, [])
  else
    (some
      { transfers := transfers
        hash := tx.hash
        fee := (tx.keyInputs.map KeyInput.amount).sum
          - (tx.keyOutputs.map WalletTypes.KeyOutput.amount).sum
        timestamp := block.blockTimestamp
        blockHeight := block.blockHeight
        paymentID := tx.paymentID
        unlockTime := tx.unlockTime
        isCoinbaseTransaction := false },
      spends.map fun spend => (spend.1, spend.2.keyImage))

structure BlockScanTmpInfo where
  transactionsToAdd : List WalletTypes.Transaction
  inputsToAdd : List OwnedInput
  keyImagesToMarkSpent : List (PublicKey × KeyImage)

def processBlockTransactions (wallets : SubWallets) (block : WalletBlockInfo)
    (inputs : List OwnedInput) : BlockScanTmpInfo :=
  let processed := block.transactions.map (processTransaction wallets block inputs)
  { transactionsToAdd := (processCoinbaseTransaction block inputs).toList
      ++ processed.filterMap Prod.fst
    inputsToAdd := inputs
    keyImagesToMarkSpent := processed.flatMap Prod.snd }

def storeScanned (info : BlockScanTmpInfo) (blockHeight : UInt64) (wallets : SubWallets) :
    Except Failure SubWallets := do
  let wallets ← info.transactionsToAdd.foldlM (fun wallets tx => wallets.addTransaction tx) wallets
  let wallets ← info.inputsToAdd.foldlM
    (fun wallets input => wallets.storeTransactionInput input.1 input.2) wallets
  info.keyImagesToMarkSpent.foldlM
    (fun wallets spend => wallets.markInputAsSpent spend.2 spend.1 blockHeight) wallets

/-- What a block does to the subwallets. Nothing, not even a failure, when the daemon
lacks a global index. -/
def scanBlock (crypto : WalletCrypto) (privateViewKey : SecretKey) (daemon : GetGlobalIndexes)
    (block : WalletBlockInfo) (wallets : SubWallets) : Except Failure (Option SubWallets) := do
  let ourInputs ← processBlockOutputs crypto wallets privateViewKey block
  match ourInputs.mapM (fillGlobalIndex wallets.isViewWallet
      (getGlobalIndexes daemon block.blockHeight)) with
  | none => return none
  | some inputs => do
    let stored ← storeScanned (processBlockTransactions wallets block inputs) block.blockHeight
      wallets
    return some stored

/-- Blocks at or below the last known height are the first of another branch. -/
def rollBackFor (block : WalletBlockInfo) (backend : WalletBackend) : SubWallets :=
  if backend.walletSynchronizer.syncStatus.lastKnownBlockHeight ≥ block.blockHeight then
    backend.subWallets.removeForkedTransactions block.blockHeight
  else backend.subWallets

/-- Event handlers are left out. -/
def processBlock (crypto : WalletCrypto) (daemon : GetGlobalIndexes) (block : WalletBlockInfo)
    (backend : WalletBackend) : Except Failure WalletBackend := do
  let synchronizer := backend.walletSynchronizer
  let wallets := rollBackFor block backend
  match ← scanBlock crypto synchronizer.privateViewKey daemon block wallets with
  | none => return { backend with subWallets := wallets }
  | some scanned => do
    let status ← synchronizer.syncStatus.storeBlockHash block.blockHash block.blockHeight
    return {
      subWallets := scanned
      walletSynchronizer := { synchronizer with syncStatus := status } }

/-- What a daemon answers from: its main chain, the block at position `h` being that of
height `h`, and the first height at or after a timestamp. -/
structure SyncDaemon where
  chain : List WalletBlockInfo
  blockCount : Nat
  blockHeightForTimestamp : UInt64 → Option Nat

namespace SyncDaemon

/-- The height of the first hash that is on the main chain. -/
def findBlockchainSupplement (daemon : SyncDaemon) (knownBlockHashes : List Hash) : Option Nat :=
  knownBlockHashes.findSome? fun hash =>
    daemon.chain.findIdx? fun block => block.blockHash = hash

/-- `Core::getWalletSyncData`: nothing when the daemon knows none of the hashes. -/
def getWalletSyncData (daemon : SyncDaemon) (knownBlockHashes : List Hash)
    (startHeight startTimestamp : UInt64) : Option (List WalletBlockInfo) := do
  let timestampBlockHeight ← if startTimestamp = 0 then some 0
    else daemon.blockHeightForTimestamp startTimestamp
  let firstBlockHeight := if startHeight = 0 then timestampBlockHeight else startHeight.toNat
  let lastKnownBlockHashHeight ← if knownBlockHashes.isEmpty then some 0
    else daemon.findBlockchainSupplement knownBlockHashes
  let startIndex := max (if lastKnownBlockHashHeight = 0 then 0 else lastKnownBlockHashHeight + 1)
    firstBlockHeight
  return (daemon.chain.drop startIndex).take daemon.blockCount

end SyncDaemon

/-- `WalletSynchronizer::downloadBlocks`. The timestamp is replaced by the height of the
first block that it led to; the subwallets keep theirs, since the loop that would
convert them works on copies. -/
def downloadBlocks (daemon : SyncDaemon) (backend : WalletBackend) :
    WalletBackend × List WalletBlockInfo :=
  let synchronizer := backend.walletSynchronizer
  if daemon.chain.length - 1 < synchronizer.syncStatus.lastKnownBlockHeight.toNat then (backend, [])
  else
    let blockCheckpoints := synchronizer.syncStatus.getBlockHashCheckpoints
    match daemon.getWalletSyncData blockCheckpoints synchronizer.startHeight
        synchronizer.startTimestamp with
    | none | some [] => (backend, [])
    | some (first :: rest) =>
      let converted :=
        if synchronizer.startTimestamp ≠ 0 then
          { synchronizer with startTimestamp := 0, startHeight := first.blockHeight }
        else synchronizer
      let backend := { backend with walletSynchronizer := converted }
      if blockCheckpoints.isEmpty ∧ first.blockHeight ≠ converted.startHeight then (backend, [])
      else (backend, first :: rest)

def synchroniseOnce (crypto : WalletCrypto) (indexes : GetGlobalIndexes) (daemon : SyncDaemon)
    (backend : WalletBackend) : Except Failure WalletBackend :=
  let (backend, blocks) := downloadBlocks daemon backend
  blocks.foldlM (fun backend block => processBlock crypto indexes block backend) backend

end Mevacoin
