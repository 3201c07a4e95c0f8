import HeaviestChain.Ledger
import HeaviestChain.Message
import HeaviestChain.Peers

/-!
# A participant

A ledger with what is known about the peers, and how it answers a message.  New blocks and
transactions are passed on: the first of them back to the sender, which so learns that it arrived,
the others to everyone.  A block that cannot be connected yet makes the participant ask for the
first ancestor that it lacks.  A status makes it ask for the next numbers that the peer claims to
have, at most so many at a time, and none twice.
-/

namespace HeaviestChain

/-- How many blocks may be asked for after one status; at least one. -/
structure SyncLimit where
  /-- The number of blocks. -/
  count : UInt64
  /-- It is not zero. -/
  count_pos : 0 < count
  deriving DecidableEq

namespace SyncLimit

/-- The given number, or one if it is zero. -/
def ofWord (count : UInt64) : SyncLimit :=
  if positive : 0 < count then ⟨count, positive⟩ else ⟨1, by decide⟩

/-- The limit of a participant that is not told another one. -/
def standard : SyncLimit := ⟨512, by decide⟩

end SyncLimit

/-- A ledger with its peers. -/
structure Participant (σ : Type) where
  /-- The chain state. -/
  ledger : Ledger σ
  /-- What is known about peers. -/
  peers : Peers := .empty
  /-- The network it belongs to. -/
  network : NetworkId := .mainnet
  /-- How many blocks it asks for after one status. -/
  syncLimit : SyncLimit := .standard

/-- What handling one message leads to. -/
structure Reaction (σ : Type) where
  /-- The messages to send, in order. -/
  sent : List Outbound
  /-- What happened to the chain, in order. -/
  events : List ChainEvent
  /-- The participant afterwards. -/
  participant : Participant σ

namespace Participant

variable {σ : Type}

/-! ## Sending -/

/-- Addresses the first message to the sender and the others to everyone; without a sender, all to
everyone. -/
def fanOut (sender : Option PeerId) : List Message → List Outbound
  | [] => []
  | first :: others =>
      let recipient := match sender with
        | some peer => Recipient.peer peer
        | none => .everyone
      ⟨recipient, first⟩ :: others.map fun message => ⟨.everyone, message⟩

/-- Sends a block to the one who asked for it, if there is such a block and such a one. -/
def reply (block : Option Block) (sender : Option PeerId) : List Outbound :=
  match block, sender with
  | some block, some peer => [⟨.peer peer, .block block⟩]
  | _, _ => []

/-- Asks for the first ancestor of a block that is missing, unless it is the block itself. -/
def askForAncestor (ledger : Ledger σ) (hash : BlockHash) (peer : PeerId) : List Outbound :=
  match ledger.orphans.missingAncestor? hash with
  | some ancestor =>
      if ancestor = hash then [] else [⟨.peer peer, .blockByHash ancestor⟩]
  | none => []

/-- The numbers from `first` to `last`. -/
def numbers (first last : UInt64) : List UInt64 :=
  if first ≤ last then
    (List.range (last.toNat - first.toNat + 1)).map fun offset => first + UInt64.ofNat offset
  else []

/-! ## Statuses -/

/-- The number from which on a peer has something to offer: the one after the best number of the
ledger and after all that was asked for from the peer.  There is none after the largest number. -/
def firstWanted? (participant : Participant σ) (peer : PeerId) : Option UInt64 :=
  let best := participant.ledger.tree.bestNumber?
  let mark := participant.peers.requestedThrough? peer
  match best, mark with
  | none, none => some 0
  | some known, none => Word64.next? known
  | none, some known => Word64.next? known
  | some best, some mark => Word64.next? (max best mark)

/-- The last number to ask for, from `first` on, if the peer has blocks up to `announced`. -/
def lastWanted (limit : SyncLimit) (first announced : UInt64) : UInt64 :=
  min announced (Word64.addToTop first (limit.count - 1))

/-- Handles a status: takes note of it and asks for blocks. -/
def receiveStatus (participant : Participant σ) (status : Status) (sender : Option PeerId)
    (now : Timestamp) : Participant σ × List Outbound :=
  match sender with
  | none => (participant, [])
  | some peer =>
      if status.network ≠ participant.network then (participant, [])
      else
        let (peers, announced) :=
          participant.peers.announce peer status.network status.best now
        let participant := { participant with peers }
        match participant.firstWanted? peer with
        | none => (participant, [])
        | some first =>
            if announced < first then (participant, [])
            else
              let last := lastWanted participant.syncLimit first announced
              ({ participant with peers := peers.markRequested peer last },
                (numbers first last).map fun number => ⟨.peer peer, .blockByNumber number⟩)

/-! ## Upkeep -/

/-- Forgets a peer.  Says whether it was known. -/
def forgetPeer (participant : Participant σ) (peer : PeerId) : Participant σ × Bool :=
  let (peers, wasKnown) := participant.peers.forget peer
  ({ participant with peers }, wasKnown)

/-- Takes back requests to a peer that were not sent, from `firstUnsent` up. -/
def reopenRequests (participant : Participant σ) (peer : PeerId) (firstUnsent : UInt64) :
    Participant σ :=
  { participant with peers := participant.peers.reopenRequests peer firstUnsent }

/-- Drops old orphans.  Says how many. -/
def expireOrphans (participant : Participant σ) (maxAge : UInt64) (now : Timestamp) :
    Participant σ × Nat :=
  let (ledger, dropped) := participant.ledger.expireOrphans maxAge now
  ({ participant with ledger }, dropped)

/-! ## Messages -/

variable [StateEngine σ]

/-- Handles a block. -/
def receiveBlock (participant : Participant σ) (block : Block) (sender : Option PeerId)
    (now : Timestamp) : Reaction σ :=
  let delivery := participant.ledger.deliver block now
  let sent := match delivery.outcome, sender with
    | .error _, _ => []
    | .ok [], none => []
    | .ok [], some peer => askForAncestor delivery.ledger block.hash peer
    | .ok connected, sender => fanOut sender (connected.map .block)
  { sent
    events := delivery.events
    participant := { participant with ledger := delivery.ledger } }

/-- Handles a message at a given time; without a sender, it comes from the node's own user.  A
fault of the state engine is not passed on. -/
def receive (participant : Participant σ) (message : Message) (sender : Option PeerId)
    (now : Timestamp) : Reaction σ :=
  match message with
  | .block block => participant.receiveBlock block sender now
  | .transaction tx =>
      let (ledger, isNew) := participant.ledger.submit tx
      { sent := if isNew then fanOut sender [.transaction tx] else []
        events := []
        participant := { participant with ledger } }
  | .status status =>
      let (participant, sent) := participant.receiveStatus status sender now
      { sent, events := [], participant }
  | .blockByHash hash =>
      { sent := reply (participant.ledger.tree.block? hash) sender, events := [], participant }
  | .blockByNumber number =>
      { sent := reply (participant.ledger.tree.blockAt? number) sender, events := [], participant }

end Participant

end HeaviestChain
