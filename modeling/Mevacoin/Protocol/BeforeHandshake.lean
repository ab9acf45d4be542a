/-
What a peer can make a node do before the handshake. Most handlers do nothing or close
the connection; but a chain entry is handled in every state, and its unknown blocks are
requested.
-/

import Mevacoin.Core.SparseChain
import Mevacoin.Lib.Stateful
import Mevacoin.Protocol.NodeServer

namespace Mevacoin
open List Stateful NodeServer
open Handling
open ProtocolHandler

/-- Calls that can change the chain or the pool, and requests for objects. -/
def Effect.actsOnChain : Effect → Bool
  | .addedBlock _ => true
  | .addedTransaction _ => true
  | .posted (.requestGetObjects _) => true
  | _ => false

variable {σ : Type}

namespace Session

/-- Nothing was done to the chain, and no object is awaited. -/
structure Quiet (session : Session σ) : Prop where
  effects : ∀ effect ∈ session.effects, effect.actsOnChain = false
  needed : session.context.neededObjects = []
  requested : session.context.requestedObjects = []

structure Waiting (session : Session σ) : Prop extends Quiet session where
  state : session.context.state = .beforHandshake

def Acted (session : Session σ) : Prop :=
  ∃ effect ∈ session.effects, effect.actsOnChain = true

end Session

open Session

/-! ### Steps of the handlers -/

section Steps
variable {before after : Session σ → Prop}

theorem leads_when {condition : Prop} [Decidable condition] {action : Handling σ Unit}
    (leads : Leads before action before) : Leads before (onlyIf condition action) before :=
  leads_ite (fun _ => leads) (fun _ => leads_pure ())

theorem quiet_record {effect : Effect} (harmless : effect.actsOnChain = false) :
    Leads Quiet (record effect : Handling σ Unit) Quiet := by
  intro session quiet
  refine { quiet with effects := ?_ }
  intro recorded member
  rcases mem_append.mp member with old | new
  · exact quiet.effects recorded old
  · rw [mem_singleton.mp new]
    exact harmless

theorem quiet_post {notification : Notification}
    (harmless : (Effect.posted notification).actsOnChain = false) :
    Leads Quiet (postNotify notification : Handling σ Bool) Quiet :=
  leads_return (quiet_record harmless) true

theorem quiet_context {change : ConnectionContext → ConnectionContext}
    (needed : ∀ context, (change context).neededObjects = context.neededObjects)
    (requested : ∀ context, (change context).requestedObjects = context.requestedObjects) :
    Leads Quiet (modifyContext change : Handling σ Unit) Quiet := by
  intro session quiet
  exact {
    effects := quiet.effects
    needed := (needed session.context).trans quiet.needed
    requested := (requested session.context).trans quiet.requested }

theorem quiet_setState (state : ConnectionState) :
    Leads Quiet (setState state : Handling σ Unit) Quiet :=
  quiet_context (fun _ => rfl) (fun _ => rfl)

theorem acted_record (effect : Effect) : Leads Acted (record effect : Handling σ Unit) Acted := by
  intro session ⟨effect, member, acts⟩
  exact ⟨effect, mem_append_left _ member, acts⟩

theorem leads_updateObservedHeight (icore : ICore σ) (peerHeight : UInt32)
    (keeps : ∀ session node, before session → before { session with node := node }) :
    Leads before (updateObservedHeight icore peerHeight) before := by
  have changes (change : ProtocolNode → ProtocolNode) :
      Leads before (modifyNode change) before :=
    leads_modify fun session holds => keeps session _ holds
  have recalculated : Leads before (recalculateMaxObservedHeight icore) before := by
    apply leads_read
    intro _ _
    exact leads_seq (changes _) (fun _ => leads_when (changes _))
  have observed : Leads before (observeHeight icore peerHeight) before := by
    apply leads_read
    intro _ _
    refine leads_ite (fun _ => changes _) (fun _ => ?_)
    refine leads_ite (fun _ => changes _) (fun _ => ?_)
    exact leads_when recalculated
  exact leads_seq observed (fun _ => changes _)

theorem quiet_requestChain (icore : ICore σ) : Leads Quiet (requestChain icore) Quiet := by
  apply leads_read
  intro _ _
  exact leads_return (quiet_post rfl) ()

theorem quiet_requestMissingPoolTransactions (icore : ICore σ) :
    Leads Quiet (requestMissingPoolTransactions icore) Quiet := by
  apply leads_read
  intro _ _
  refine leads_when ?_
  exact leads_return (quiet_post rfl) ()

theorem quiet_processPayloadSyncData (icore : ICore σ) (data : CoreSyncData) (isInitial : Bool) :
    Leads Quiet (processPayloadSyncData icore data isInitial) Quiet := by
  have chosen : Leads Quiet (chooseState icore data isInitial) Quiet := by
    apply leads_read
    intro _ _
    refine leads_ite (fun _ => leads_ite (fun _ => ?_) (fun _ => quiet_setState _))
      (fun _ => quiet_setState _)
    exact leads_seq (leads_modify fun _ held => { held with }) (fun _ => quiet_setState _)
  apply leads_read
  intro _ _
  refine leads_ite (fun _ => leads_pure ()) (fun _ => ?_)
  refine leads_seq (leads_when chosen) fun _ => ?_
  refine leads_seq (leads_updateObservedHeight icore _ fun _ _ held => { held with }) fun _ => ?_
  refine leads_seq (quiet_context (fun _ => rfl) (fun _ => rfl)) fun _ => ?_
  exact leads_when (leads_modify fun _ held => { held with })

theorem quiet_requestMissingObjects (icore : ICore σ) (checkHavingBlocks : Bool) :
    Leads Quiet (requestMissingObjects icore checkHavingBlocks) Quiet := by
  apply leads_read
  intro _ quiet
  refine leads_ite (fun some => absurd quiet.needed some) (fun _ => ?_)
  refine leads_ite (fun _ => ?_) (fun _ => ?_)
  · exact leads_return (quiet_requestChain icore) true
  refine leads_ite (fun _ => leads_pure false) (fun _ => ?_)
  refine leads_seq (quiet_requestMissingPoolTransactions icore) fun _ => ?_
  exact leads_return (leads_modify fun _ held => { held with }) true

end Steps

/-! ### Handlers in the initial state -/

variable {session : Session σ}

section Handlers
variable (primitives : Primitives) (icore : ICore σ)

private theorem waiting_heights (height : UInt32) {next : Unit → Handling σ Int}
    (leads : Leads Waiting (next ()) Quiet) :
    Leads Waiting (do
      updateObservedHeight icore height
      let done ← modifyContext fun context => { context with remoteBlockchainHeight := height }
      next done) Quiet := by
  refine leads_bind (leads_updateObservedHeight icore _ fun _ _ held => { held with })
    (fun _ held => held.toQuiet) fun _ => ?_
  have kept : Leads Waiting (modifyContext fun context =>
      { context with remoteBlockchainHeight := height } : Handling σ Unit) Waiting :=
    leads_modify fun _ held => { held with }
  exact leads_bind kept (fun _ held => held.toQuiet) fun _ => leads

theorem Session.Waiting.not_normal (waiting : session.Waiting) :
    session.context.state ≠ .normal := by
  rw [waiting.state]
  decide

theorem quiet_handleNotifyNewBlock (request : NewBlockRequest) :
    Leads Waiting (handleNotifyNewBlock icore request) Quiet := by
  refine waiting_heights icore request.currentBlockchainHeight ?_
  apply leads_get
  intro session waiting
  rw [if_pos waiting.not_normal]
  exact waiting.toQuiet

theorem quiet_handleNotifyNewLiteBlock (request : NewLiteBlockRequest) :
    Leads Waiting (handleNotifyNewLiteBlock primitives icore request) Quiet := by
  refine waiting_heights icore request.currentBlockchainHeight ?_
  apply leads_get
  intro session waiting
  rw [if_pos waiting.not_normal]
  exact waiting.toQuiet

theorem quiet_handleNotifyNewTransactions (txs : List BinaryArray) :
    Leads Waiting (handleNotifyNewTransactions primitives icore txs) Quiet := by
  apply leads_get
  intro session waiting
  rw [if_pos waiting.not_normal]
  exact waiting.toQuiet

theorem quiet_handleNotifyMissingTxs (request : MissingTxsRequest) :
    Leads Quiet (handleNotifyMissingTxs icore request) Quiet := by
  apply leads_read
  intro _ _
  refine leads_ite (fun _ => ?_) (fun _ => ?_)
  · exact leads_return (quiet_setState _) 1
  · exact leads_return (quiet_post rfl) 1

theorem quiet_handleRequestTxPool (txs : List Hash) :
    Leads Quiet (handleRequestTxPool icore txs) Quiet := by
  apply leads_read
  intro _ _
  refine leads_return (leads_when ?_) 1
  exact leads_return (quiet_post rfl) ()

theorem quiet_handleRequestGetObjects (request : GetObjectsRequest) :
    Leads Quiet (handleRequestGetObjects icore request) Quiet := by
  apply leads_read
  intro _ _
  exact leads_return (quiet_post rfl) 1

theorem quiet_handleRequestChain (blockIds : List Hash) :
    Leads Quiet (handleRequestChain icore blockIds) Quiet := by
  apply leads_read
  intro _ _
  refine leads_ite (fun _ => ?_) (fun _ => ?_)
  · exact leads_return (quiet_setState _) 1
  · exact leads_return (quiet_post rfl) 1

theorem checkObjects_of_quiet (quiet : session.Quiet) (rawBlock : RawBlock) (rest : List RawBlock) :
    ∃ later, checkObjects primitives icore 0 (rawBlock :: rest) session = .ok none later ∧
      later.Quiet := by
  have closed : Quiet { session with context := { session.context with state := .shutdown } } :=
    { quiet with }
  unfold checkObjects
  cases primitives.blockFromBinaryArray rawBlock.block with
  | none => exact ⟨_, rfl, closed⟩
  | some block =>
    have unrequested : primitives.getBlockHash block ∉ session.context.requestedObjects := by
      rw [quiet.requested]
      exact not_mem_nil
    refine ⟨_, ?_, closed⟩
    change (ite (primitives.getBlockHash block ∉ session.context.requestedObjects) _ _ :
      Handling σ (Option (List BlockTemplate))) session = _
    rw [if_pos unrequested]
    rfl

theorem quiet_handleResponseGetObjects (response : GetObjectsResponse) :
    Leads Waiting (handleResponseGetObjects primitives icore response) Quiet := by
  apply leads_read
  intro _ _
  refine leads_ite (fun _ => ?_) (fun _ => ?_)
  · exact leads_return ((quiet_setState _).weaken fun _ held => held.toQuiet) 1
  refine waiting_heights icore response.currentBlockchainHeight ?_
  intro session waiting
  cases blocks : response.blocks with
  | cons rawBlock rest =>
    obtain ⟨later, returns, quiet⟩ :=
      checkObjects_of_quiet primitives icore waiting.toQuiet rawBlock rest
    rw [final_bind_ok returns]
    exact quiet
  | nil =>
    change Quiet (final ((ite _ _ _ : Handling σ Int) session))
    rw [if_neg (not_not.mpr waiting.requested)]
    change Quiet (final ((onlyIf _ _ >>= fun _ => pure 1 : Handling σ Int) session))
    have skipped : ¬(¬session.node.stop = true ∧ session.context.state = .synchronizing) := by
      rw [waiting.state]
      exact fun both => absurd both.2 (by decide)
    rw [onlyIf, if_neg skipped]
    exact waiting.toQuiet

/-- A chain entry is taken up if its first block is known. -/
def ChainEntryResponse.NamesUnknown (response : ChainEntryResponse) (core : σ) : Prop :=
  (∃ first ∈ response.blockIds.head?, icore.hasBlock core first = true) ∧
    ∃ hash ∈ response.blockIds, icore.hasBlock core hash = false

theorem noteChainEntry_returns (response : ChainEntryResponse) (session : Session σ) :
    ∃ later, noteChainEntry icore response session = .ok () later ∧
      later.effects = session.effects ∧
      later.context.requestedObjects = session.context.requestedObjects ∧
      later.context.neededObjects = session.context.neededObjects
        ++ response.blockIds.dropWhile (icore.hasBlock session.core) :=
  ⟨_, rfl, rfl, rfl, rfl⟩

theorem quiet_handleResponseChainEntry {response : ChainEntryResponse}
    (quiet : session.Quiet) (known : ¬response.NamesUnknown icore session.core) :
    Quiet (final (handleResponseChainEntry icore response session)) := by
  have closed : Leads Quiet (do setState .shutdown; return 1 : Handling σ Int) Quiet :=
    leads_return (quiet_setState _) 1
  unfold handleResponseChainEntry
  cases blockIds : response.blockIds with
  | nil => exact closed session quiet
  | cons first rest =>
    by_cases isKnown : icore.hasBlock session.core first = true
    · have allKnown : response.blockIds.dropWhile (icore.hasBlock session.core) = [] := by
        rw [dropWhile_eq_nil_iff]
        intro hash member
        by_contra unknown
        exact known ⟨⟨first, by rw [blockIds]; rfl, isKnown⟩,
          hash, member, eq_false_of_ne_true unknown⟩
      obtain ⟨later, returns, effects, requested, needed⟩ :=
        noteChainEntry_returns icore response session
      have quietLater : later.Quiet := {
        effects := effects ▸ quiet.effects
        needed := by rw [needed, quiet.needed, allKnown]; rfl
        requested := requested.trans quiet.requested }
      change Quiet (final ((ite (¬icore.hasBlock session.core first = true) _ _ :
        Handling σ Int) session))
      rw [if_neg (not_not.mpr isKnown), final_bind_ok returns]
      exact leads_return (quiet_requestMissingObjects icore false) 1 later quietLater
    · change Quiet (final ((ite (¬icore.hasBlock session.core first = true) _ _ :
        Handling σ Int) session))
      rw [if_pos isKnown]
      exact closed session quiet

theorem quiet_handleHandshake (server : NodeServer σ) (request : HandshakeRequest) :
    Leads Quiet (server.handleHandshake request) Quiet := by
  refine leads_seq (quiet_context (fun _ => rfl) (fun _ => rfl)) fun _ => ?_
  apply leads_read
  intro _ _
  refine leads_ite (fun _ => ?_) (fun _ => ?_)
  · exact leads_return (quiet_setState _) 1
  · refine leads_seq (quiet_processPayloadSyncData server.core _ _) fun _ => ?_
    apply leads_return
    exact quiet_context (fun _ => rfl) (fun _ => rfl)

theorem quiet_handleTimedSyncResponse (server : NodeServer σ) (buf : BinaryArray) :
    Leads Quiet (server.handleTimedSyncResponse buf) Quiet := by
  unfold handleTimedSyncResponse
  cases server.levin.timedSyncResponse buf with
  | none => exact leads_pure false
  | some response =>
    refine leads_ite (fun _ => leads_pure false) (fun _ => ?_)
    exact leads_return (quiet_processPayloadSyncData server.core _ _) true

end Handlers

/-! ### Commands in the initial state -/

section Commands
variable (server : NodeServer σ)

theorem leads_adaptor {before after : Session σ → Prop} {decode : BinaryArray → Option α}
    {handler : α → Handling σ Int} {buf : BinaryArray}
    (implies : ∀ session, before session → after session)
    (leads : ∀ request, decode buf = some request → Leads before (handler request) after) :
    Leads before (adaptor decode handler buf) after := by
  unfold adaptor
  cases decoded : decode buf with
  | none => exact implies
  | some request => exact leads request decoded

/-- The command is a chain entry that names an unknown block above a known one. -/
def Command.AnnouncesUnknown (command : Command) (core : σ) : Prop :=
  command.command = 2007 ∧ ∃ response, server.levin.responseChainEntry command.buf = some response ∧
    response.NamesUnknown server.core core

variable {command : Command}

theorem quiet_handlePayloadCommand
    (waiting : session.Waiting) (harmless : ¬command.AnnouncesUnknown server session.core) :
    Quiet (final (server.handlePayloadCommand command session)) := by
  let before : Session σ → Prop := fun reached => reached.Waiting ∧ reached.core = session.core
  have implies (reached : Session σ) (held : before reached) : reached.Quiet := held.1.toQuiet
  have gated {computation : Handling σ Int} (leads : Leads Waiting computation Quiet) :
      Leads before computation Quiet := leads.weaken fun _ held => held.1
  have ungated {computation : Handling σ Int} (leads : Leads Quiet computation Quiet) :
      Leads before computation Quiet := leads.weaken implies
  suffices leads : Leads before (server.handlePayloadCommand command) Quiet from
    leads session ⟨waiting, rfl⟩
  refine leads_ite (fun _ => leads_map (leads_adaptor implies fun request _ =>
    gated (quiet_handleNotifyNewBlock _ request))) (fun _ => ?_)
  refine leads_ite (fun _ => leads_map (leads_adaptor implies fun txs _ =>
    gated (quiet_handleNotifyNewTransactions _ _ txs))) (fun _ => ?_)
  refine leads_ite (fun _ => leads_map (leads_adaptor implies fun request _ =>
    ungated (quiet_handleRequestGetObjects _ request))) (fun _ => ?_)
  refine leads_ite (fun _ => leads_map (leads_adaptor implies fun response _ =>
    gated (quiet_handleResponseGetObjects _ _ response))) (fun _ => ?_)
  refine leads_ite (fun _ => leads_map (leads_adaptor implies fun blockIds _ =>
    ungated (quiet_handleRequestChain _ blockIds))) (fun _ => ?_)
  refine leads_ite (fun isEntry => leads_map (leads_adaptor implies ?_)) (fun _ => ?_)
  · intro response decoded reached held
    apply quiet_handleResponseChainEntry server.core held.1.toQuiet
    rw [held.2]
    exact fun names => harmless ⟨isEntry, response, decoded, names⟩
  refine leads_ite (fun _ => leads_map (leads_adaptor implies fun txs _ =>
    ungated (quiet_handleRequestTxPool _ txs))) (fun _ => ?_)
  refine leads_ite (fun _ => leads_map (leads_adaptor implies fun request _ =>
    gated (quiet_handleNotifyNewLiteBlock _ _ request))) (fun _ => ?_)
  refine leads_ite (fun _ => leads_map (leads_adaptor implies fun request _ =>
    ungated (quiet_handleNotifyMissingTxs _ request))) (fun _ => ?_)
  exact (leads_pure none).weaken implies

theorem quiet_handleCommand
    (waiting : session.Waiting) (harmless : ¬command.AnnouncesUnknown server session.core) :
    Quiet (final (server.handleCommand command session)) := by
  have implies (reached : Session σ) (held : reached = session) : reached.Quiet := by
    rw [held]
    exact waiting.toQuiet
  suffices leads : Leads (· = session) (server.handleCommand command) Quiet from leads session rfl
  refine leads_ite (fun _ => ?_) (fun _ => ?_)
  · refine leads_seq ((quiet_handleTimedSyncResponse server _).weaken implies) fun _ => ?_
    exact leads_return (leads_when (quiet_setState _)) _
  refine leads_ite (fun _ => leads_map (leads_adaptor implies fun request _ =>
    (quiet_handleHandshake server request).weaken implies)) (fun _ => ?_)
  refine leads_ite (fun _ => leads_map (leads_adaptor implies fun data _ => ?_)) (fun _ => ?_)
  · exact leads_return ((quiet_processPayloadSyncData server.core data false).weaken implies) 1
  refine leads_ite (fun _ => leads_map (leads_adaptor implies fun _ _ => (leads_pure 1).weaken implies))
    (fun _ => ?_)
  exact leads_of_final (quiet_handlePayloadCommand server waiting harmless)

theorem leads_processCommand {before after : Session σ → Prop}
    (handled : Leads before (server.handleCommand command) after)
    (records : ∀ effect, effect.actsOnChain = false → Leads after (record effect) after)
    (sets : ∀ session state, session.context.state ≠ .beforHandshake → state ≠ .beforHandshake →
      after session → after { session with context := { session.context with state := state } }) :
    Leads before (server.processCommand command) after := by
  have posts (notification : Notification)
      (harmless : (Effect.posted notification).actsOnChain = false) :
      Leads after (do let _ ← postNotify notification : Handling σ Unit) after :=
    leads_return (leads_return (records _ harmless) true) ()
  have prepared : Leads after server.prepare after := by
    apply leads_get
    intro session holds
    split
    · rename_i isSync
      have started : Leads after (startSync server.core) after :=
        leads_read fun _ _ => leads_when (leads_get fun session held => posts _ rfl session held)
      exact started _ (sets session .synchronizing (by rw [isSync]; nofun) nofun holds)
    split
    · rename_i isPool
      have requested : Leads after (requestMissingPoolTransactions server.core) after :=
        leads_read fun _ _ => leads_when (posts _ rfl)
      exact requested _ (sets session .normal (by rw [isPool]; nofun) nofun holds)
    · exact holds
  refine leads_seq handled fun _ => ?_
  refine leads_seq (leads_when (records _ rfl)) fun _ => ?_
  exact leads_read fun _ _ => leads_when prepared

theorem quiet_processCommand
    (waiting : session.Waiting) (harmless : ¬command.AnnouncesUnknown server session.core) :
    Quiet (final (server.processCommand command session)) := by
  have handled : Leads (· = session) (server.handleCommand command) Quiet :=
    leads_of_final (quiet_handleCommand server waiting harmless)
  exact leads_processCommand server handled (fun _ harmless => quiet_record harmless)
    (fun _ _ _ _ quiet => { quiet with }) session rfl

/-! ### Unknown blocks are requested -/

theorem acted_requestMissingObjects {icore : ICore σ} {checkHavingBlocks : Bool} (needed : session.context.neededObjects ≠ []) :
    Acted (final (requestMissingObjects icore checkHavingBlocks session)) := by
  change Acted (final ((ite (session.context.neededObjects ≠ []) _ _ : Handling σ Bool) session))
  rw [if_pos needed]
  obtain ⟨blocks, remaining⟩ := takeNeeded icore checkHavingBlocks session.core
    blocksSynchronizingDefaultCount session.context.neededObjects
  exact ⟨.posted (.requestGetObjects { txs := [], blocks := blocks }),
    mem_append_right _ mem_cons_self, rfl⟩

theorem acted_handleResponseChainEntry {icore : ICore σ} {response : ChainEntryResponse} (names : response.NamesUnknown icore session.core) :
    Acted (final (handleResponseChainEntry icore response session)) := by
  obtain ⟨⟨first, isFirst, isKnown⟩, hash, member, unknown⟩ := names
  obtain ⟨rest, blockIds⟩ : ∃ rest, response.blockIds = first :: rest :=
    head?_eq_some_iff.mp isFirst
  have some : response.blockIds.dropWhile (icore.hasBlock session.core) ≠ [] := by
    rw [Ne, dropWhile_eq_nil_iff]
    intro allKnown
    have known := allKnown hash member
    rw [unknown] at known
    cases known
  obtain ⟨later, returns, _, _, needed⟩ := noteChainEntry_returns icore response session
  have needs : later.context.neededObjects ≠ [] := by
    rw [needed]
    exact append_ne_nil_of_right_ne_nil _ some
  unfold handleResponseChainEntry
  rw [blockIds]
  change Acted (final ((ite (¬icore.hasBlock session.core first = true) _ _ :
    Handling σ Int) session))
  rw [if_neg (not_not.mpr isKnown), final_bind_ok returns]
  have requested : Leads (· = later) (requestMissingObjects icore false) Acted :=
    leads_of_final (acted_requestMissingObjects needs)
  exact leads_return requested 1 later rfl

theorem acted_processCommand (announces : command.AnnouncesUnknown server session.core) :
    Acted (final (server.processCommand command session)) := by
  obtain ⟨isEntry, response, decoded, names⟩ := announces
  have handled : Leads (· = session) (server.handleCommand command) Acted := by
    have entered : Leads (· = session) (handleResponseChainEntry server.core response) Acted :=
      leads_of_final (acted_handleResponseChainEntry names)
    have dispatched : server.handleCommand command
        = some <$> handleResponseChainEntry server.core response := by
      simp [handleCommand, handlePayloadCommand, adaptor, isEntry, decoded]
    rw [dispatched]
    exact leads_map entered
  exact leads_processCommand server handled (fun effect _ => acted_record effect)
    (fun _ _ _ _ acted => acted) session rfl

end Commands

/-! ### Connections that have not completed a handshake -/

/-- An incoming connection; its version is not initialised. -/
def Session.opened (core : σ) (node : ProtocolNode) (version : UInt8) : Session σ :=
  { core := core, node := node, context := { version := version, isIncome := true } }

/-- A session, an event that occurs in it and what is done about the event. -/
structure Observation (σ : Type) where
  session : Session σ
  event : NodeServer.Event σ
  effects : List Effect

namespace NodeServer
variable (server : NodeServer σ)

/-- What happens on a connection for as long as its state is the initial one. -/
def beforeHandshake (session : Session σ) : List (Event σ) → List (Observation σ)
  | [] => []
  | event :: events =>
    if session.context.state = .beforHandshake then
      let (result, isOpen) := server.occur session event
      { session := session, event := event, effects := result.effects }
        :: if isOpen then beforeHandshake result events else []
    else []

/-- The event is a chain entry that names an unknown block above a known one. -/
def Event.AnnouncesUnknown (event : Event σ) (core : σ) : Prop :=
  match event with
  | .arrives command => command.AnnouncesUnknown server core
  | .others _ _ => False

variable {server}

theorem occur_arrives (session : Session σ) (command : Command) :
    (server.occur session (.arrives command)).1
      = final (server.processCommand command { session with effects := [] }) := by
  unfold occur
  dsimp only
  cases server.processCommand command { session with effects := [] } with
  | ok value later => rfl
  | error fault later => rfl

theorem occur_quiet (waiting : session.Waiting) {event : Event σ}
    (harmless : ¬event.AnnouncesUnknown server session.core) :
    (server.occur session event).1.Quiet := by
  have fresh : ∀ effect ∈ ([] : List Effect), effect.actsOnChain = false := nofun
  cases event with
  | arrives command =>
    have again : Waiting { session with effects := [] } := { waiting with effects := fresh }
    rw [occur_arrives]
    exact quiet_processCommand server again harmless
  | others core node => exact { waiting.toQuiet with effects := fresh }

theorem occur_acted {event : Event σ} (announces : event.AnnouncesUnknown server session.core) :
    (server.occur session event).1.Acted := by
  cases event with
  | arrives command =>
    rw [occur_arrives]
    exact acted_processCommand server announces
  | others core node => exact announces.elim

/-- Before the handshake a connection is without effect on chain and pool and without
requests for objects exactly as long as no chain entry arrives on it that starts with a
known block and names an unknown one. -/
theorem beforeHandshake_without_effect_iff (server : NodeServer σ) (core : σ)
    (node : ProtocolNode) (version : UInt8) (events : List (Event σ)) :
    (∀ observation ∈ server.beforeHandshake (opened core node version) events,
        ∀ effect ∈ observation.effects, effect.actsOnChain = false) ↔
      ∀ observation ∈ server.beforeHandshake (opened core node version) events,
        ¬observation.event.AnnouncesUnknown server observation.session.core := by
  have quiet : (opened core node version).Quiet :=
    { effects := nofun
      needed := rfl
      requested := rfl }
  generalize opened core node version = session at quiet ⊢
  induction events generalizing session with
  | nil =>
    unfold beforeHandshake
    simp
  | cons event events ih =>
    unfold beforeHandshake
    by_cases waits : session.context.state = .beforHandshake
    · rw [if_pos waits]
      by_cases announces : event.AnnouncesUnknown server session.core
      · obtain ⟨effect, member, acts⟩ := occur_acted announces
        constructor
        · intro silent
          have silentEffect := silent _ mem_cons_self effect member
          rw [acts] at silentEffect
          cases silentEffect
        · intro harmless
          exact absurd announces (harmless _ mem_cons_self)
      · have quietAfter := occur_quiet { quiet with state := waits } announces
        rw [forall_mem_cons, forall_mem_cons]
        apply and_congr (iff_of_true quietAfter.effects announces)
        by_cases isOpen : (server.occur session event).2 = true
        · rw [if_pos isOpen]
          exact ih _ quietAfter
        · rw [if_neg isOpen]
          simp
    · rw [if_neg waits]
      simp

end NodeServer

/-! ### A block added before the handshake -/

/-- The core with an empty pool; transactions are looked up in the main chain. -/
def Core.withoutPool (environment : Environment) (now : UInt64) : ICore Core :=
  let mainChain (core : Core) : List BlockEntry := core.chain (core.chainsLeaves.headD 0)
  let findTransaction (core : Core) (hash : Hash) : Option BinaryArray :=
    ((mainChain core).flatMap fun entry => entry.rawBlock.transactions).find? fun binary =>
      environment.primitives.getBinaryArrayHash binary = hash
  let returned (core : Core) : Except Fault (ErrorCode × Core) → Except Fault ErrorCode × Core
    | .ok (code, result) => (.ok code, result)
    | .error fault => (.error fault, core)
  { hasBlock := fun core hash => (core.findSegmentContainingBlock hash).isSome
    addBlock := fun block rawBlock core =>
      returned core (core.addCachedBlock environment now block rawBlock)
    addRawBlock := fun rawBlock core => returned core (core.addBlock environment now rawBlock)
    addTransactionToPool := fun _ core => (false, core)
    getTopBlockIndex := fun core => UInt32.ofNat (mainChain core).length - 1
    getTopBlockHash := fun core =>
      ((mainChain core).getLast?.map fun entry => entry.info.blockHash).getD { value := 0 }
    getBlockHashByIndex := fun core index =>
      ((mainChain core)[index]?.map fun entry => entry.info.blockHash).getD { value := 0 }
    buildSparseChain := fun core => (core.buildSparseChain 32).getD []
    findBlockchainSupplement := fun core blockIds maxCount =>
      let startHeight := (core.findBlockchainSupplement blockIds).getD 0
      { startHeight := UInt32.ofNat startHeight
        totalHeight := UInt32.ofNat (mainChain core).length
        blockIds := (((mainChain core).drop startHeight).take maxCount).map fun entry =>
          entry.info.blockHash }
    getBlocks := fun core hashes =>
      let find (hash : Hash) := (mainChain core).find? fun entry => entry.info.blockHash = hash
      ((hashes.filterMap find).map BlockEntry.rawBlock, hashes.filter fun hash => (find hash).isNone)
    getTransaction := findTransaction
    getTransactions := fun core hashes =>
      (hashes.filterMap (findTransaction core),
        hashes.filter fun hash => (findTransaction core hash).isNone)
    getPoolTransactionHashes := fun _ => []
    getPoolChanges := fun _ _ _ => []
    yield := fun core => core }

/-- A chain entry that starts with the genesis block and continues with the next one, and
that block itself. -/
def intruderServer : NodeServer Core :=
  { primitives := Core.forkEnvironment.primitives
    core := Core.withoutPool Core.forkEnvironment 0
    levin := {
      newBlock := fun _ => none
      newTransactions := fun _ => none
      requestGetObjects := fun _ => none
      responseGetObjects := fun _ => some {
        blocks := [codedBlock 1], missedIds := [], currentBlockchainHeight := 2 }
      requestChain := fun _ => none
      responseChainEntry := fun _ => some {
        startHeight := 0, totalHeight := 3, blockIds := [{ value := 0 }, { value := 1 }] }
      requestTxPool := fun _ => none
      newLiteBlock := fun _ => none
      missingTxs := fun _ => none
      handshakeRequest := fun _ => none
      timedSyncRequest := fun _ => none
      timedSyncResponse := fun _ => none
      pingRequest := fun _ => none }
    networkId := 0
    ownPeerId := 0 }

def intruderNotification (command : UInt32) : NodeServer.Event Core :=
  .arrives { command := command, isNotify := true, isResponse := false, buf := [] }

/-- The chain entry makes the node request the block, and the block is then added, although
no handshake was made. -/
theorem block_added_before_handshake :
    (intruderServer.beforeHandshake
        (opened (Core.initRootSegment Core.forkGenesis)
          { synchronized := false, stop := false, observedHeight := 0, blockchainHeight := 0,
            peersCount := 0, peers := [] } 0)
        [intruderNotification 2007, intruderNotification 2004]).map
        (fun observation => (observation.session.context.state, observation.effects))
      = [(.beforHandshake,
          [.posted (.requestGetObjects { txs := [], blocks := [{ value := 1 }] })]),
        (.beforHandshake, [.addedBlock (codedBlock 1)])] := by
  decide +kernel

end Mevacoin
