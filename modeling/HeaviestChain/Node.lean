import HeaviestChain.Metrics
import HeaviestChain.Outbox
import HeaviestChain.Settings

/-!
# A node

A participant with an outbox and metrics.  A message is handled in three steps: the participant
reacts, the reaction is posted, and requests for blocks that found no room in the outbox are
reopened, so that the peer's next status leads to them again.  Other messages may be handled
between these steps.
-/

namespace HeaviestChain

/-- Why a node does not do what it was asked to. -/
inductive NodeError where
  /-- The ledger did not take a block. -/
  | ledger (error : LedgerError)
  /-- A frame is of no use. -/
  | frame (error : FrameError)
  /-- The settings are of no use. -/
  | settings (error : SettingsError)
  /-- The first block is not a genesis block. -/
  | notGenesis (hash : BlockHash)
  /-- The genesis block is wrong, or another one is connected. -/
  | genesisRejected (hash : BlockHash)
  deriving DecidableEq

namespace NodeError

/-- What is reported about the error. -/
def message : NodeError → String
  | ledger error => s!"ledger error: {error.message}"
  | frame error => s!"protocol error: {error.message}"
  | settings error => s!"config error: {error.message}"
  | notGenesis hash => s!"block {hash.text} is not a genesis block"
  | genesisRejected hash => s!"genesis block {hash.text} was rejected"

end NodeError

/-- A node that runs. -/
structure Node (σ : Type) where
  /-- What it was told before it started. -/
  settings : Settings
  /-- Its chain and what it knows about peers. -/
  participant : Participant σ
  /-- The frames that wait for the transport. -/
  outbox : Outbox
  /-- What it counts, if it does. -/
  metrics : Option Metrics

/-- A message with the peer it came from; without one, it comes from the node's own user. -/
structure Inbound where
  /-- What it says. -/
  message : Message
  /-- Who sent it. -/
  sender : Option PeerId := none
  deriving DecidableEq

/-- The node after something it was asked to do. -/
structure NodeStep (σ α : Type) where
  /-- The answer. -/
  answer : α
  /-- What happened to the chain, in order. -/
  events : List ChainEvent
  /-- The node afterwards. -/
  node : Node σ

namespace Node

variable {σ : Type}

/-! ## Starting -/

/-- A node without blocks, if it can run with the settings. -/
def start (settings : Settings) (engine : σ) : Except NodeError (Node σ) :=
  match settings.flaw? with
  | some error => .error (.settings error)
  | none =>
      .ok
        { settings
          participant :=
            { ledger := .empty engine settings.maxOrphans.toNat
              network := settings.network
              syncLimit := .ofWord settings.maxSyncRequests }
          outbox := { capacity := settings.outboundCapacity.toNat }
          metrics := if settings.collectsMetrics then some {} else none }

/-! ## Metrics -/

/-- Counts what happened to the chain. -/
def countEvents (node : Node σ) (events : List ChainEvent) : Node σ :=
  { node with metrics := node.metrics.map (·.countEvents events) }

/-- Sets the gauges to the present state. -/
def refreshGauges (node : Node σ) : Node σ :=
  { node with
    metrics := node.metrics.map ({ · with gauges := .ofParticipant node.participant }) }

/-! ## Sending -/

/-- The second step: the reaction is posted. -/
def post (node : Node σ) (batch : List Outbound) : Node σ × PostReport :=
  let (outbox, report) := node.outbox.postAll batch
  ({ node with outbox }, report)

/-- The requests for numbered blocks at the given positions of a reaction. -/
def requestsAt (batch : List Outbound) (positions : List Nat) : List (PeerId × UInt64) :=
  positions.filterMap fun position => batch[position]?.bind Outbound.numberRequest?

/-- The third step: requests that were not posted are reopened. -/
def reopen (node : Node σ) (requests : List (PeerId × UInt64)) : Node σ :=
  { node with
    participant := requests.foldl
      (fun participant request => participant.reopenRequests request.1 request.2)
      node.participant }

/-! ## Upkeep -/

/-- Drops the orphans that have waited too long.  The answer is their number. -/
def upkeep (node : Node σ) (now : Timestamp) : Node σ × Nat :=
  let (participant, dropped) :=
    node.participant.expireOrphans node.settings.orphanLifetime now
  (refreshGauges { node with participant }, dropped)

/-- Forgets a peer whose connection is gone.  Says whether it was known. -/
def forgetPeer (node : Node σ) (peer : PeerId) : Node σ × Bool :=
  let (participant, wasKnown) := node.participant.forgetPeer peer
  (refreshGauges { node with participant }, wasKnown)

/-- Posts no more; what waits can still be sent. -/
def closeOutbox (node : Node σ) : Node σ := { node with outbox := node.outbox.close }

/-! ## Handling a message -/

variable [StateEngine σ]

/-- The first step: the participant reacts.  The answer is what is to be sent. -/
def react (node : Node σ) (inbound : Inbound) (now : Timestamp) : NodeStep σ (List Outbound) :=
  let metrics := node.metrics.map (·.countMessage inbound.message)
  let reaction := node.participant.receive inbound.message inbound.sender now
  let after : Node σ := { node with participant := reaction.participant, metrics }
  { answer := reaction.sent
    events := reaction.events
    node := (after.countEvents reaction.events).refreshGauges }

/-- Handles one message.  The answer says what became of the reaction. -/
def handle (node : Node σ) (inbound : Inbound) (now : Timestamp) : NodeStep σ PostReport :=
  let reacted := node.react inbound now
  let (posted, report) := reacted.node.post reacted.answer
  { answer := report
    events := reacted.events
    node := posted.reopen (requestsAt reacted.answer report.dropped) }

/-- Handles the message in a frame, if there is one. -/
def handleFrame (node : Node σ) (frame : Bytes) (sender : Option PeerId) (now : Timestamp) :
    NodeStep σ (Except NodeError PostReport) :=
  match Message.ofFrame frame with
  | .error error => { answer := .error (.frame error), events := [], node }
  | .ok message =>
      let handled := node.handle ⟨message, sender⟩ now
      { answer := .ok handled.answer, events := handled.events, node := handled.node }

/-- Handles messages until none is left. -/
def handleAll (node : Node σ) (now : Timestamp) : List Inbound → NodeStep σ Unit
  | [] => { answer := (), events := [], node }
  | inbound :: rest =>
      let first := node.handle inbound now
      let others := first.node.handleAll now rest
      { others with events := first.events ++ others.events }

/-- Serves a queue that takes no more messages.  A node that was told to stop leaves the queue as
it is. -/
def serve (node : Node σ) (queue : List Inbound) (isStopped : Bool) (now : Timestamp) :
    NodeStep σ Unit :=
  node.handleAll now (if isStopped then [] else queue)

/-! ## The first block -/

/-- Connects the genesis block, unless that has been done. -/
def seedGenesis (node : Node σ) (genesis : Block) (now : Timestamp) :
    NodeStep σ (Except NodeError Unit) :=
  let ledger := node.participant.ledger
  if ledger.tree.contains genesis.hash then { answer := .ok (), events := [], node }
  else if !genesis.isGenesis then
    { answer := .error (.notGenesis genesis.hash), events := [], node }
  else
    let delivery := ledger.deliver genesis now
    let after : Node σ :=
      { node with participant := { node.participant with ledger := delivery.ledger } }
    { answer := match delivery.outcome with
        | .error fault => .error (.ledger (.state fault))
        | .ok _ =>
            if delivery.ledger.tree.contains genesis.hash then .ok ()
            else .error (.genesisRejected genesis.hash)
      events := delivery.events
      node := after.countEvents delivery.events }

end Node

end HeaviestChain
