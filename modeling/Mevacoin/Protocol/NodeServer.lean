/-
One connection of the node server: the commands of the peer-to-peer layer, the dispatch
of all others to the protocol handler and the loop that reads one command after another.
Between two commands other connections can change everything but the context.

The peer lists are left out except for the check that can close the connection, and so
are the contents of the replies.
-/

import Mevacoin.Protocol.Handler

namespace Mevacoin
open Handling
open ProtocolHandler

/-! ### Commands -/

structure BasicNodeData where
  networkId : BitVec 128
  version : UInt8
  peerId : UInt64
  deriving DecidableEq, Repr

structure HandshakeRequest where
  nodeData : BasicNodeData
  payloadData : CoreSyncData
  deriving DecidableEq, Repr

structure PeerlistEntry where
  lastSeen : UInt64
  deriving DecidableEq, Repr

structure HandshakeResponse where
  nodeData : BasicNodeData
  localTime : UInt64
  payloadData : CoreSyncData
  localPeerlist : List PeerlistEntry
  deriving DecidableEq, Repr

structure TimedSyncResponse where
  localTime : UInt64
  payloadData : CoreSyncData
  localPeerlist : List PeerlistEntry
  deriving DecidableEq, Repr

structure Command where
  command : UInt32
  isNotify : Bool
  isResponse : Bool
  buf : BinaryArray
  deriving DecidableEq, Repr

def Command.needReply (command : Command) : Bool :=
  !(command.isNotify || command.isResponse)

structure LevinProtocol where
  newBlock : BinaryArray → Option NewBlockRequest
  newTransactions : BinaryArray → Option (List BinaryArray)
  requestGetObjects : BinaryArray → Option GetObjectsRequest
  responseGetObjects : BinaryArray → Option GetObjectsResponse
  requestChain : BinaryArray → Option (List Hash)
  responseChainEntry : BinaryArray → Option ChainEntryResponse
  requestTxPool : BinaryArray → Option (List Hash)
  newLiteBlock : BinaryArray → Option NewLiteBlockRequest
  missingTxs : BinaryArray → Option MissingTxsRequest
  handshakeRequest : BinaryArray → Option HandshakeRequest
  timedSyncRequest : BinaryArray → Option CoreSyncData
  timedSyncResponse : BinaryArray → Option TimedSyncResponse
  pingRequest : BinaryArray → Option Unit

structure NodeServer (σ : Type) where
  primitives : Primitives
  core : ICore σ
  levin : LevinProtocol
  networkId : BitVec 128
  ownPeerId : UInt64

def p2pMinimumVersion : UInt8 := 4

def errorConnectionHandlerNotDefined : Int := -6

variable {σ : Type}

namespace NodeServer

/-- A request that cannot be read throws; `notifyAdaptor` and `invokeAdaptor`. -/
def adaptor (decode : BinaryArray → Option α) (handler : α → Handling σ Int)
    (buf : BinaryArray) : Handling σ Int :=
  match decode buf with
  | none => throw .exception
  | some request => handler request

variable (server : NodeServer σ)

/-- `CryptoNoteProtocolHandler::handleCommand`; there is no result when the command is not
handled. -/
def handlePayloadCommand (command : Command) : Handling σ (Option Int) :=
  if command.command = 2001 then
    some <$> adaptor server.levin.newBlock (handleNotifyNewBlock server.core) command.buf
  else if command.command = 2002 then
    some <$> adaptor server.levin.newTransactions
      (handleNotifyNewTransactions server.primitives server.core) command.buf
  else if command.command = 2003 then
    some <$> adaptor server.levin.requestGetObjects (handleRequestGetObjects server.core)
      command.buf
  else if command.command = 2004 then
    some <$> adaptor server.levin.responseGetObjects
      (handleResponseGetObjects server.primitives server.core) command.buf
  else if command.command = 2006 then
    some <$> adaptor server.levin.requestChain (handleRequestChain server.core) command.buf
  else if command.command = 2007 then
    some <$> adaptor server.levin.responseChainEntry (handleResponseChainEntry server.core)
      command.buf
  else if command.command = 2008 then
    some <$> adaptor server.levin.requestTxPool (handleRequestTxPool server.core) command.buf
  else if command.command = 2009 then
    some <$> adaptor server.levin.newLiteBlock
      (handleNotifyNewLiteBlock server.primitives server.core) command.buf
  else if command.command = 2010 then
    some <$> adaptor server.levin.missingTxs (handleNotifyMissingTxs server.core) command.buf
  else pure none

/-- `handle_remote_peerlist`: an entry from the future is refused. -/
def handleRemotePeerlist (peerlist : List PeerlistEntry) (localTime : UInt64) : Bool :=
  peerlist.all fun entry => entry.lastSeen ≤ localTime

def handleTimedSyncResponse (buf : BinaryArray) : Handling σ Bool := do
  match server.levin.timedSyncResponse buf with
  | none => return false
  | some response =>
    if ¬handleRemotePeerlist response.localPeerlist response.localTime then return false
    processPayloadSyncData server.core response.payloadData false
    return true

def handleTimedSync (data : CoreSyncData) : Handling σ Int := do
  processPayloadSyncData server.core data false
  return 1

def handlePing (_request : Unit) : Handling σ Int :=
  return 1

def handleHandshake (request : HandshakeRequest) : Handling σ Int := do
  modifyContext fun context => { context with version := request.nodeData.version }
  let session ← get
  if request.nodeData.networkId ≠ server.networkId ∨
      request.nodeData.version < p2pMinimumVersion ∨
      ¬session.context.isIncome ∨ session.context.peerId ≠ 0 then
    setState .shutdown
    return 1
  processPayloadSyncData server.core request.payloadData true
  modifyContext fun context => { context with peerId := request.nodeData.peerId }
  return 1

def handleCommand (command : Command) : Handling σ (Option Int) := do
  if command.isResponse ∧ command.command = 1002 then
    let valid ← handleTimedSyncResponse server command.buf
    onlyIf (valid = false) (setState .shutdown)
    return some 0
  if command.command = 1001 then
    some <$> adaptor server.levin.handshakeRequest (handleHandshake server) command.buf
  else if command.command = 1002 then
    some <$> adaptor server.levin.timedSyncRequest (handleTimedSync server) command.buf
  else if command.command = 1003 then
    some <$> adaptor server.levin.pingRequest handlePing command.buf
  else handlePayloadCommand server command

def prepare : Handling σ Unit := do
  let session ← get
  if session.context.state = .syncRequired then
    setState .synchronizing
    startSync server.core
  else if session.context.state = .poolSyncRequired then
    setState .normal
    requestMissingPoolTransactions server.core

def processCommand (command : Command) : Handling σ Unit := do
  let returnCode ← handleCommand server command
  onlyIf command.needReply
    (record (.replied command.command (returnCode.getD errorConnectionHandlerNotDefined)))
  let session ← get
  onlyIf (session.context.state ≠ .shutdown) (prepare server)

/-- The client side of a handshake, from the response on; no connection is made when the
result is false. -/
def handshake (response : HandshakeResponse) (justTakePeerlist : Bool) : Handling σ Bool := do
  modifyContext fun context => { context with version := response.nodeData.version }
  if response.nodeData.networkId ≠ server.networkId ∨
      response.nodeData.version < p2pMinimumVersion ∨
      ¬handleRemotePeerlist response.localPeerlist response.localTime then
    return false
  if justTakePeerlist then return true
  processPayloadSyncData server.core response.payloadData true
  modifyContext fun context => { context with peerId := response.nodeData.peerId }
  return response.nodeData.peerId ≠ server.ownPeerId

/-- A command arrives, or the rest of the node changes what is not the connection's own. -/
inductive Event (σ : Type) where
  | arrives (command : Command)
  | others (core : σ) (node : ProtocolNode)

/-- The session after the event, with the effects of this event only, and whether the
connection stays open. -/
def occur (session : Session σ) : Event σ → Session σ × Bool
  | .arrives command =>
    match processCommand server command { session with effects := [] } with
    | .ok _ result => (result, result.context.state ≠ .shutdown)
    | .error _ result => (result, false)
  | .others core node => ({ session with core := core, node := node, effects := [] }, true)

end NodeServer
end Mevacoin
