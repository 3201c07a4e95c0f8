import HeaviestChain.Block

/-!
# Messages

What nodes say to each other.
-/

namespace HeaviestChain

/-- How far the chain of a peer reaches. -/
structure Status where
  /-- The peer. -/
  peer : PeerId
  /-- The network the peer belongs to. -/
  network : NetworkId
  /-- The number of the peer's best block. -/
  best : UInt64
  deriving DecidableEq

namespace Status

/-- The status with the name of its kind and fields. -/
def brief (status : Status) : String :=
  Text.fields "Status" [("peer_id", status.peer.brief), ("network_id", status.network.brief),
    ("best_block_number", toString status.best.toNat)]

end Status

/-- A message between nodes. -/
inductive Message where
  /-- A block, new or asked for. -/
  | block (block : Block)
  /-- A transaction that waits to be included. -/
  | transaction (tx : Transaction)
  /-- How far the sender's chain reaches. -/
  | status (status : Status)
  /-- A request for the block with this hash. -/
  | blockByHash (hash : BlockHash)
  /-- A request for the canonical block with this number. -/
  | blockByNumber (number : UInt64)
  deriving DecidableEq

namespace Message

/-- The name of the kind of message. -/
def kind : Message → String
  | block _ => "block"
  | transaction _ => "transaction"
  | status _ => "status"
  | blockByHash _ => "get_block_by_hash"
  | blockByNumber _ => "get_block_by_number"

/-- A line about the message for people. -/
def brief : Message → String
  | block content => s!"Block({content.brief})"
  | transaction content => s!"Transaction({content.brief})"
  | status content => s!"Status({content.brief})"
  | blockByHash hash => s!"GetBlockByHash({hash.brief})"
  | blockByNumber number => s!"GetBlockByNumber({number.toNat})"

/-- Whether two messages say the same, blocks and transactions being known by their hashes. -/
def agrees : Message → Message → Bool
  | block left, block right => decide (left.hash = right.hash)
  | transaction left, transaction right => decide (left.hash = right.hash)
  | status left, status right => decide (left = right)
  | blockByHash left, blockByHash right => decide (left = right)
  | blockByNumber left, blockByNumber right => decide (left = right)
  | _, _ => false

end Message

/-- Whom a message is for. -/
inductive Recipient where
  /-- One peer. -/
  | peer (peer : PeerId)
  /-- All peers. -/
  | everyone
  deriving DecidableEq

/-- A message that is to be sent. -/
structure Outbound where
  /-- Whom it is for. -/
  recipient : Recipient
  /-- What it says. -/
  message : Message
  deriving DecidableEq

namespace Outbound

/-- The peer and the number, if the message asks one peer for the block with a number. -/
def numberRequest? : Outbound → Option (PeerId × UInt64)
  | ⟨.peer peer, .blockByNumber number⟩ => some (peer, number)
  | _ => none

end Outbound

end HeaviestChain
