import HeaviestChain.Identity
import HeaviestChain.Table
import HeaviestChain.Time

/-!
# Peers

What each peer has said about its chain, and how far its blocks have been asked for.  The number a
peer stands for never falls while the peer is known.  The best number of a network is remembered
even after the peers that announced it are gone.
-/

namespace HeaviestChain

/-- What is known about one peer. -/
structure PeerRecord where
  /-- The network of its last announcement. -/
  network : NetworkId
  /-- The highest block number it has announced. -/
  best : UInt64
  /-- The highest block number asked for, if any. -/
  requestedThrough : Option UInt64 := none
  /-- When it last made an announcement. -/
  lastSeen : Timestamp
  deriving DecidableEq

/-- The peers of a node. -/
structure Peers where
  /-- The known peers. -/
  records : Table PeerId PeerRecord := .empty
  /-- The highest number ever announced, by network. -/
  bestByNetwork : Table NetworkId UInt64 := .empty

namespace Peers

/-- Nobody is known. -/
def empty : Peers := {}

instance : Inhabited Peers := ⟨empty⟩

variable (peers : Peers)

/-! ## Looking things up -/

/-- What is known about a peer. -/
def record? (peer : PeerId) : Option PeerRecord := peers.records.get? peer

/-- The highest number a peer has announced. -/
def bestOf? (peer : PeerId) : Option UInt64 := (peers.record? peer).map (·.best)

/-- The highest number asked for from a peer. -/
def requestedThrough? (peer : PeerId) : Option UInt64 :=
  (peers.record? peer).bind (·.requestedThrough)

/-- The number of known peers. -/
def count : Nat := peers.records.size

/-- The highest number announced by a peer that is still known. -/
def best? : Option UInt64 := (peers.records.entries.map (·.2.best)).max?

/-- The highest number ever announced on a network. -/
def bestOn? (network : NetworkId) : Option UInt64 := peers.bestByNetwork.get? network

/-! ## Changes -/

/-- The record of a peer after an announcement. -/
def announced (old : Option PeerRecord) (network : NetworkId) (best : UInt64) (now : Timestamp) :
    PeerRecord :=
  match old with
  | none => { network, best, lastSeen := now }
  | some record => { record with network, best := max record.best best, lastSeen := now }

/-- Takes note of an announcement.  Gives the highest number the peer has announced. -/
def announce (peer : PeerId) (network : NetworkId) (best : UInt64) (now : Timestamp) :
    Peers × UInt64 :=
  let record := announced (peers.record? peer) network best now
  let onNetwork := match peers.bestOn? network with
    | none => record.best
    | some known => max known record.best
  ({ records := peers.records.set peer record
     bestByNetwork := peers.bestByNetwork.set network onNetwork }, record.best)

/-- Changes how far the blocks of a known peer have been asked for. -/
def modifyRequested (peer : PeerId) (change : Option UInt64 → Option UInt64) : Peers :=
  match peers.record? peer with
  | none => peers
  | some record =>
      { peers with
        records := peers.records.set peer
          { record with requestedThrough := change record.requestedThrough } }

/-- Takes note that all numbers up to `number` have been asked for; the mark does not move down. -/
def markRequested (peer : PeerId) (number : UInt64) : Peers :=
  peers.modifyRequested peer fun
    | none => some number
    | some mark => some (max mark number)

/-- Takes back the requests from `firstUnsent` up, so that they are made again. -/
def reopenRequests (peer : PeerId) (firstUnsent : UInt64) : Peers :=
  peers.modifyRequested peer fun
    | none => none
    | some mark => if firstUnsent ≤ mark then Word64.previous? firstUnsent else some mark

/-- Forgets a peer.  Says whether it was known. -/
def forget (peer : PeerId) : Peers × Bool :=
  ({ peers with records := peers.records.erase peer }, peers.records.contains peer)

/-! ## Reading after a change -/

variable (peer other : PeerId)

theorem record?_announce (network : NetworkId) (best : UInt64) (now : Timestamp) :
    (peers.announce peer network best now).1.record? other =
      if other = peer then some (announced (peers.record? peer) network best now)
      else peers.record? other :=
  Table.get?_set ..

theorem record?_modifyRequested (change : Option UInt64 → Option UInt64) :
    (peers.modifyRequested peer change).record? other =
      if other = peer then
        (peers.record? peer).map fun record =>
          { record with requestedThrough := change record.requestedThrough }
      else peers.record? other := by
  simp only [modifyRequested]
  cases known : peers.record? peer with
  | none =>
      by_cases same : other = peer
      · simp [same, known]
      · simp [same]
  | some record => exact Table.get?_set ..

theorem record?_forget :
    (peers.forget peer).1.record? other = if other = peer then none else peers.record? other :=
  Table.get?_erase ..

theorem requestedThrough?_announced (old : Option PeerRecord) (network : NetworkId) (best : UInt64)
    (now : Timestamp) :
    (announced old network best now).requestedThrough = old.bind (·.requestedThrough) := by
  cases old with
  | none => rfl
  | some record => rfl

theorem count_modifyRequested (change : Option UInt64 → Option UInt64) :
    (peers.modifyRequested peer change).count = peers.count := by
  simp only [modifyRequested]
  split
  case h_1 => rfl
  case h_2 record known =>
      have present : peers.records.contains peer = true := by
        rw [Table.contains, ← record?, known]
        rfl
      exact Table.size_set_of_contains present _

end Peers

end HeaviestChain
