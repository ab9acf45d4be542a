/-
The protocol handler: what a node does with the notifications of one peer. Handlers
change the connection's context and the handler's own counters, call the core and post
notifications; calls and posts are recorded in the order in which they are made.

The core is the interface the handler is written against, over a state of its own.
Observers and logging are left out.
-/

import Mevacoin.Core.AddBlock

namespace Mevacoin

structure NewBlockRequest where
  block : RawBlock
  currentBlockchainHeight : UInt32
  hop : UInt32
  deriving DecidableEq, Repr

structure GetObjectsRequest where
  txs : List Hash
  blocks : List Hash
  deriving DecidableEq, Repr

structure GetObjectsResponse where
  blocks : List RawBlock
  missedIds : List Hash
  currentBlockchainHeight : UInt32
  deriving DecidableEq, Repr

structure ChainEntryResponse where
  startHeight : UInt32
  totalHeight : UInt32
  blockIds : List Hash
  deriving DecidableEq, Repr

structure NewLiteBlockRequest where
  blockTemplate : BinaryArray
  currentBlockchainHeight : UInt32
  hop : UInt32
  deriving DecidableEq, Repr

structure MissingTxsRequest where
  blockHash : Hash
  currentBlockchainHeight : UInt32
  missingTxs : List Hash
  deriving DecidableEq, Repr

inductive Notification where
  | newBlock (request : NewBlockRequest)
  | newTransactions (txs : List BinaryArray)
  | requestGetObjects (request : GetObjectsRequest)
  | responseGetObjects (response : GetObjectsResponse)
  | requestChain (blockIds : List Hash)
  | responseChainEntry (response : ChainEntryResponse)
  | requestTxPool (txs : List Hash)
  | newLiteBlock (request : NewLiteBlockRequest)
  | missingTxs (request : MissingTxsRequest)
  deriving DecidableEq, Repr

inductive ConnectionState where
  | beforHandshake
  | synchronizing
  | idle
  | normal
  | syncRequired
  | poolSyncRequired
  | shutdown
  deriving DecidableEq, Repr

structure PendingLiteBlock where
  request : NewLiteBlockRequest
  missedTransactions : List Hash
  deriving DecidableEq, Repr

structure ConnectionContext where
  version : UInt8
  isIncome : Bool
  state : ConnectionState := .beforHandshake
  pendingLiteBlock : Option PendingLiteBlock := none
  neededObjects : List Hash := []
  requestedObjects : List Hash := []
  remoteBlockchainHeight : UInt32 := 0
  lastResponseHeight : UInt32 := 0
  peerId : UInt64 := 0
  deriving DecidableEq, Repr

/-- What the handler reads of another connection. -/
structure Peer where
  version : UInt8
  remoteBlockchainHeight : UInt32
  deriving DecidableEq, Repr

/-- The handler's own state and the other connections of the node. -/
structure ProtocolNode where
  synchronized : Bool
  stop : Bool
  observedHeight : UInt32
  blockchainHeight : UInt32
  peersCount : UInt64
  peers : List Peer
  deriving DecidableEq, Repr

inductive Effect where
  | addedBlock (rawBlock : RawBlock)
  | addedTransaction (binary : BinaryArray)
  | posted (notification : Notification)
  | relayed (notification : Notification)
  | replied (command : UInt32) (returnCode : Int)
  deriving DecidableEq, Repr

structure Session (σ : Type) where
  core : σ
  node : ProtocolNode
  context : ConnectionContext
  effects : List Effect := []

/-- A block can change the core before an exception. `yield` is what other connections do
to the core while the handler waits for its next turn. -/
structure ICore (σ : Type) where
  hasBlock : σ → Hash → Bool
  addBlock : BlockTemplate → RawBlock → σ → Except Fault ErrorCode × σ
  addRawBlock : RawBlock → σ → Except Fault ErrorCode × σ
  addTransactionToPool : BinaryArray → σ → Bool × σ
  getTopBlockIndex : σ → UInt32
  getTopBlockHash : σ → Hash
  getBlockHashByIndex : σ → Nat → Hash
  buildSparseChain : σ → List Hash
  findBlockchainSupplement : σ → List Hash → Nat → ChainEntryResponse
  getBlocks : σ → List Hash → List RawBlock × List Hash
  getTransaction : σ → Hash → Option BinaryArray
  getTransactions : σ → List Hash → List BinaryArray × List Hash
  getPoolTransactionHashes : σ → List Hash
  getPoolChanges : σ → Hash → List Hash → List BinaryArray
  yield : σ → σ

def blocksIdsSynchronizingDefaultCount : Nat := 10000
def blocksSynchronizingDefaultCount : Nat := 100
def p2pLiteBlocksPropogationVersion : UInt8 := 4

/-! ### Conditions on the result of adding a block -/

namespace ErrorCode

def isBlockAdded (code : ErrorCode) : Bool :=
  code.accepted || code = .addBlock .alreadyExists

def isBlockRejected (code : ErrorCode) : Bool :=
  code = .addBlock .rejectedAsOrphaned

/-- One of the conditions for a failed block validation, a failed transaction validation
and a failed deserialisation. -/
def isFailed : ErrorCode → Bool
  | .block _ => true
  | .transaction _ => true
  | .addBlock code => code = .deserializationFailed

end ErrorCode

abbrev Handling (σ α : Type) := EStateM Fault (Session σ) α

variable {σ : Type}

namespace Handling

def onlyIf (condition : Prop) [Decidable condition] (action : Handling σ Unit) :
    Handling σ Unit :=
  if condition then action else pure ()

def record (effect : Effect) : Handling σ Unit :=
  modify fun session => { session with effects := session.effects ++ [effect] }

/-- The connection is listed for as long as its messages are handled, so the notification
always finds it. -/
def postNotify (notification : Notification) : Handling σ Bool := do
  record (.posted notification)
  return true

def relay (notification : Notification) : Handling σ Unit :=
  record (.relayed notification)

def modifyContext (change : ConnectionContext → ConnectionContext) : Handling σ Unit :=
  modify fun session => { session with context := change session.context }

def modifyNode (change : ProtocolNode → ProtocolNode) : Handling σ Unit :=
  modify fun session => { session with node := change session.node }

def setState (state : ConnectionState) : Handling σ Unit :=
  modifyContext fun context => { context with state := state }

/-- Runs a call that can change the core, and throws what the call throws. -/
def callCore (effect : Effect) (call : σ → Except Fault α × σ) : Handling σ α := do
  record effect
  let session ← get
  let (result, core) := call session.core
  set { session with core := core }
  match result with
  | .ok value => return value
  | .error fault => throw fault

end Handling

open Handling

namespace ProtocolHandler
variable (primitives : Primitives) (icore : ICore σ)

def addBlock (block : BlockTemplate) (rawBlock : RawBlock) : Handling σ ErrorCode :=
  callCore (.addedBlock rawBlock) (icore.addBlock block rawBlock)

def addRawBlock (rawBlock : RawBlock) : Handling σ ErrorCode :=
  callCore (.addedBlock rawBlock) (icore.addRawBlock rawBlock)

def addTransactionToPool (binary : BinaryArray) : Handling σ Bool :=
  callCore (.addedTransaction binary) fun core =>
    let (added, core) := icore.addTransactionToPool binary core
    (.ok added, core)

def recalculateMaxObservedHeight : Handling σ Unit := do
  let session ← get
  let peerHeight := (session.node.peers.map Peer.remoteBlockchainHeight).foldl max 0
  let topBlockIndex := icore.getTopBlockIndex session.core
  modifyNode fun node => { node with observedHeight := max peerHeight (topBlockIndex + 1) }
  onlyIf (session.context.state = .normal)
    (modifyNode fun node => { node with observedHeight := topBlockIndex })

def observeHeight (peerHeight : UInt32) : Handling σ Unit := do
  let session ← get
  let context := session.context
  if context.remoteBlockchainHeight ≠ 0 ∧
      context.lastResponseHeight ≤ context.remoteBlockchainHeight - 1 then
    modifyNode fun node => { node with observedHeight := context.remoteBlockchainHeight - 1 }
  else if peerHeight > context.remoteBlockchainHeight then
    modifyNode fun node => { node with observedHeight := max node.observedHeight peerHeight }
  else
    -- the peer switched to an alternative chain and had the maximum observed height
    onlyIf (peerHeight ≠ context.remoteBlockchainHeight ∧
        context.remoteBlockchainHeight = session.node.observedHeight)
      (recalculateMaxObservedHeight icore)

def updateObservedHeight (peerHeight : UInt32) : Handling σ Unit := do
  observeHeight icore peerHeight
  modifyNode fun node =>
    if peerHeight > node.blockchainHeight then { node with blockchainHeight := peerHeight }
    else node

def onConnectionSynchronized : Handling σ Unit :=
  modifyNode fun node => { node with synchronized := true }

def requestMissingPoolTransactions : Handling σ Unit := do
  let session ← get
  onlyIf (session.context.version ≥ 1) do
    let _ ← postNotify (.requestTxPool (icore.getPoolTransactionHashes session.core))

def requestChain : Handling σ Unit := do
  let session ← get
  let _ ← postNotify (.requestChain (icore.buildSparseChain session.core))

/-- The loop over the needed objects: which of them are requested and which remain. -/
def takeNeeded (checkHavingBlocks : Bool) (core : σ) : Nat → List Hash → List Hash × List Hash
  | _, [] => ([], [])
  | 0, needed => ([], needed)
  | count + 1, hash :: needed =>
    if checkHavingBlocks && icore.hasBlock core hash then
      takeNeeded checkHavingBlocks core (count + 1) needed
    else
      let (taken, remaining) := takeNeeded checkHavingBlocks core count needed
      (hash :: taken, remaining)

def requestMissingObjects (checkHavingBlocks : Bool) : Handling σ Bool := do
  let session ← get
  let context := session.context
  if context.neededObjects ≠ [] then
    let (blocks, needed) := takeNeeded icore checkHavingBlocks session.core
      blocksSynchronizingDefaultCount context.neededObjects
    modifyContext fun context => { context with
      neededObjects := needed
      requestedObjects := blocks.foldl (fun set hash => set.insert hash) context.requestedObjects }
    let _ ← postNotify (.requestGetObjects { txs := [], blocks := blocks })
    return true
  else if context.lastResponseHeight < context.remoteBlockchainHeight - 1 then
    requestChain icore
    return true
  else if ¬(context.lastResponseHeight = context.remoteBlockchainHeight - 1 ∧
      context.requestedObjects = []) then
    return false
  else
    requestMissingPoolTransactions icore
    setState .normal
    onConnectionSynchronized
    return true

def startSync : Handling σ Unit := do
  let session ← get
  onlyIf (session.context.state = .synchronizing) (requestChain icore)

/-! ### Blocks and transactions -/

/-- A block goes to every peer, as a lite block to those that support it. -/
def relayBlock (request : NewBlockRequest) : Handling σ Unit := do
  let session ← get
  let versions := session.context.version :: session.node.peers.map Peer.version
  onlyIf (versions.any (· ≥ p2pLiteBlocksPropogationVersion))
    (relay (.newLiteBlock {
      blockTemplate := request.block.block
      currentBlockchainHeight := request.currentBlockchainHeight
      hop := request.hop }))
  onlyIf (versions.any (· < p2pLiteBlocksPropogationVersion)) (relay (.newBlock request))

/-- What is done with the result of a block that a peer announced. -/
def afterAnnouncedBlock (result : ErrorCode) (relayed : Handling σ Unit) : Handling σ Unit := do
  if result.isBlockAdded then
    if result = .addBlock .addedToAlternativeAndSwitched then
      relayed
      requestMissingPoolTransactions icore
    else onlyIf (result = .addBlock .addedToMain) relayed
  else if result.isBlockRejected then
    setState .synchronizing
    requestChain icore
  else setState .shutdown

def handleNotifyNewBlock (request : NewBlockRequest) : Handling σ Int := do
  updateObservedHeight icore request.currentBlockchainHeight
  modifyContext fun context =>
    { context with remoteBlockchainHeight := request.currentBlockchainHeight }
  let session ← get
  if session.context.state ≠ .normal then return 1
  let result ← addRawBlock icore request.block
  afterAnnouncedBlock icore result (relayBlock { request with hop := request.hop + 1 })
  return 1

/-- The transactions by their hashes, a later one before an earlier one with the same hash;
reading a transaction that is not one throws. -/
def indexTransactions : List BinaryArray → Handling σ (List (Hash × BinaryArray))
  | [] => return []
  | binary :: rest => do
      if (primitives.transactionFromBinaryArray binary).isNone then throw .exception
      let provided ← indexTransactions rest
      return provided ++ [(primitives.getBinaryArrayHash binary, binary)]

/-- The transactions of the block that were provided or are known, and the hashes of the
others. -/
def collectTransactions (core : σ) (provided : List (Hash × BinaryArray)) :
    List Hash → List BinaryArray × List Hash
  | [] => ([], [])
  | hash :: rest =>
    let (have_, need) := collectTransactions core provided rest
    match provided.lookup hash with
    | some binary => (binary :: have_, need)
    | none =>
      match icore.getTransaction core hash with
      | some binary => (binary :: have_, need)
      | none => (have_, hash :: need)

/-- A lite block all of whose transactions are at hand is added; otherwise the missing
transactions are requested once. -/
def pushOrRequest (request : NewLiteBlockRequest) (newBlockTemplate : BlockTemplate)
    (haveTxs : List BinaryArray) (needTxs : List Hash) : Handling σ Unit := do
  let session ← get
  if needTxs = [] then
    modifyContext fun context => { context with pendingLiteBlock := none }
    let result ← addRawBlock icore { block := request.blockTemplate, transactions := haveTxs }
    afterAnnouncedBlock icore result
      (relay (.newLiteBlock { request with hop := request.hop + 1 }))
  else if session.context.pendingLiteBlock.isSome then
    modifyContext fun context => { context with pendingLiteBlock := none, state := .shutdown }
  else
    modifyContext fun context => { context with
      pendingLiteBlock := some { request := request, missedTransactions := needTxs.eraseDups } }
    let reached ← postNotify (.missingTxs {
      blockHash := primitives.getBlockHash newBlockTemplate
      currentBlockchainHeight := request.currentBlockchainHeight
      missingTxs := needTxs })
    onlyIf (reached = false) (setState .shutdown)

def doPushLiteBlock (request : NewLiteBlockRequest) (missingTxs : List BinaryArray) :
    Handling σ Int := do
  match primitives.blockFromBinaryArray request.blockTemplate with
  | none =>
    setState .shutdown
    return 1
  | some newBlockTemplate =>
    let provided ← indexTransactions primitives missingTxs
    let session ← get
    if session.context.pendingLiteBlock.any fun pending =>
        pending.missedTransactions.any fun hash => (provided.lookup hash).isNone then
      modifyContext fun context => { context with pendingLiteBlock := none, state := .shutdown }
      return 1
    let (haveTxs, needTxs) :=
      collectTransactions icore session.core provided newBlockTemplate.transactionHashes
    pushOrRequest primitives icore request newBlockTemplate haveTxs needTxs
    return 1

def addTransactionsToPool : List BinaryArray → Handling σ (List BinaryArray)
  | [] => return []
  | binary :: rest => do
      let added ← addTransactionToPool icore binary
      let kept ← addTransactionsToPool rest
      return if added then binary :: kept else kept

def handleNotifyNewTransactions (txs : List BinaryArray) : Handling σ Int := do
  let session ← get
  if session.context.state ≠ .normal then return 1
  match session.context.pendingLiteBlock with
  | some pending => doPushLiteBlock primitives icore pending.request txs
  | none =>
    let kept ← addTransactionsToPool icore txs
    onlyIf (kept ≠ []) (relay (.newTransactions kept))
    return 1

def handleNotifyNewLiteBlock (request : NewLiteBlockRequest) : Handling σ Int := do
  updateObservedHeight icore request.currentBlockchainHeight
  modifyContext fun context =>
    { context with remoteBlockchainHeight := request.currentBlockchainHeight }
  let session ← get
  if session.context.state ≠ .normal then return 1
  doPushLiteBlock primitives icore request []

def handleNotifyMissingTxs (request : MissingTxsRequest) : Handling σ Int := do
  let session ← get
  let (txs, missedHashes) := icore.getTransactions session.core request.missingTxs
  if missedHashes ≠ [] then
    setState .shutdown
    return 1
  let _ ← postNotify (.newTransactions txs)
  return 1

def handleRequestTxPool (txs : List Hash) : Handling σ Int := do
  let session ← get
  let added := icore.getPoolChanges session.core (icore.getTopBlockHash session.core) txs
  onlyIf (added ≠ []) do
    let _ ← postNotify (.newTransactions added)
  return 1

/-! ### Synchronisation -/

def handleRequestGetObjects (request : GetObjectsRequest) : Handling σ Int := do
  let session ← get
  let (blocks, missedIds) := icore.getBlocks session.core request.blocks
  let _ ← postNotify (.responseGetObjects {
    blocks := blocks
    missedIds := missedIds
    currentBlockchainHeight := icore.getTopBlockIndex session.core + 1 })
  return 1

/-- The checks of received blocks, from the block at the given index on. There is no
result when the handler returns at once. -/
def checkObjects : Nat → List RawBlock → Handling σ (Option (List BlockTemplate))
  | _, [] => return some []
  | index, rawBlock :: rest => do
      match primitives.blockFromBinaryArray rawBlock.block with
      | none =>
        setState .shutdown
        return none
      | some block =>
        let session ← get
        let blockHash := primitives.getBlockHash block
        if index = 1 ∧ icore.hasBlock session.core blockHash then
          modifyContext fun context =>
            { context with state := .idle, neededObjects := [], requestedObjects := [] }
          return none
        if blockHash ∉ session.context.requestedObjects then
          setState .shutdown
          return none
        if block.transactionHashes.length ≠ rawBlock.transactions.length then
          setState .shutdown
          return none
        modifyContext fun context =>
          { context with requestedObjects := context.requestedObjects.erase blockHash }
        let blocks ← checkObjects (index + 1) rest
        return blocks.map (block :: ·)

def processObjects : List (RawBlock × BlockTemplate) → Handling σ Int
  | [] => return 0
  | (rawBlock, block) :: rest => do
      let session ← get
      if session.node.stop then return 0
      let result ← addBlock icore block rawBlock
      if result.isFailed || result.isBlockRejected then
        setState .shutdown
        return 1
      if result = .addBlock .alreadyExists then
        modifyContext fun context =>
          { context with state := .idle, neededObjects := [], requestedObjects := [] }
        return 1
      modify fun session => { session with core := icore.yield session.core }
      processObjects rest

def handleResponseGetObjects (response : GetObjectsResponse) : Handling σ Int := do
  let session ← get
  if session.context.lastResponseHeight > response.currentBlockchainHeight then
    setState .shutdown
    return 1
  updateObservedHeight icore response.currentBlockchainHeight
  modifyContext fun context =>
    { context with remoteBlockchainHeight := response.currentBlockchainHeight }
  let checked ← checkObjects primitives icore 0 response.blocks
  match checked with
  | none => return 1
  | some blocks =>
    let session ← get
    if session.context.requestedObjects ≠ [] then
      setState .shutdown
      return 1
    let result ← processObjects icore (response.blocks.zip blocks)
    if result ≠ 0 then return result
    let session ← get
    onlyIf (¬session.node.stop ∧ session.context.state = .synchronizing) do
      let _ ← requestMissingObjects icore true
    return 1

def handleRequestChain (blockIds : List Hash) : Handling σ Int := do
  let session ← get
  if blockIds.getLast? ≠ some (icore.getBlockHashByIndex session.core 0) then
    setState .shutdown
    return 1
  let _ ← postNotify (.responseChainEntry
    (icore.findBlockchainSupplement session.core blockIds blocksIdsSynchronizingDefaultCount))
  return 1

/-- The heights of a chain entry, and its blocks from the first unknown one on. -/
def noteChainEntry (response : ChainEntryResponse) : Handling σ Unit := do
  let session ← get
  let lastResponseHeight := response.startHeight + UInt32.ofNat response.blockIds.length - 1
  modifyContext fun context => { context with
    remoteBlockchainHeight := response.totalHeight
    lastResponseHeight := lastResponseHeight
    -- the connection is to be closed, but the objects are still requested
    state := if lastResponseHeight > response.totalHeight then .shutdown else context.state
    neededObjects := context.neededObjects
      ++ response.blockIds.dropWhile (icore.hasBlock session.core) }

def handleResponseChainEntry (response : ChainEntryResponse) : Handling σ Int := do
  let session ← get
  match response.blockIds with
  | [] =>
    setState .shutdown
    return 1
  | first :: _ =>
    if ¬icore.hasBlock session.core first then
      setState .shutdown
      return 1
    noteChainEntry icore response
    let _ ← requestMissingObjects icore false
    return 1

structure CoreSyncData where
  currentHeight : UInt32
  topId : Hash
  deriving DecidableEq, Repr

/-- What a connection has to do that is not synchronising already. -/
def chooseState (data : CoreSyncData) (isInitial : Bool) : Handling σ Unit := do
  let session ← get
  if icore.hasBlock session.core data.topId then
    if isInitial then
      onConnectionSynchronized
      setState .poolSyncRequired
    else setState .normal
  else setState .syncRequired

def processPayloadSyncData (data : CoreSyncData) (isInitial : Bool) : Handling σ Unit := do
  let session ← get
  if session.context.state = .beforHandshake ∧ ¬isInitial then return
  onlyIf (session.context.state ≠ .synchronizing) (chooseState icore data isInitial)
  updateObservedHeight icore data.currentHeight
  modifyContext fun context => { context with remoteBlockchainHeight := data.currentHeight }
  onlyIf isInitial
    (modifyNode fun node => { node with peersCount := node.peersCount + 1 })

end ProtocolHandler
end Mevacoin
