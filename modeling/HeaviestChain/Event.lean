import HeaviestChain.Block

/-!
# Chain events

What observers of a node are told, and who is told what.  Observers are told of each event in the
order in which they subscribed.
-/

namespace HeaviestChain

/-- Something that happened to the chain. -/
inductive ChainEvent where
  /-- The head is another block than before the call. -/
  | newBestBlock (block : Block)
  /-- A block is connected now, on the canonical chain or not. -/
  | blockConnected (hash : BlockHash) (number : UInt64)
  /-- The canonical chain went over to another branch. -/
  | reorganized (head : BlockHash) (joined left : Nat)
  /-- A block waits for its parent now. -/
  | orphanQueued (hash parent : BlockHash)
  /-- A block was found wrong and is gone. -/
  | blockRejected (hash : BlockHash) (reason : String)
  deriving DecidableEq

/-- What an observer asks to be told. -/
inductive Subscription where
  /-- Every event. -/
  | allEvents
  /-- New best blocks. -/
  | bestBlocks
  deriving DecidableEq

/-- What an observer is told. -/
inductive Notice where
  /-- An event, told to one who asked for all. -/
  | event (event : ChainEvent)
  /-- The new best block, told to one who asked for these. -/
  | bestBlock (block : Block)
  deriving DecidableEq

namespace Subscription

/-- What a subscriber is told about an event, if anything. -/
def notice? : Subscription → ChainEvent → Option Notice
  | allEvents, event => some (.event event)
  | bestBlocks, .newBestBlock block => some (.bestBlock block)
  | bestBlocks, _ => none

end Subscription

/-- The subscriptions of a node, oldest first. -/
structure EventBus where
  /-- What each observer asked for. -/
  subscriptions : List Subscription := []

namespace EventBus

/-- Adds an observer. -/
def subscribe (bus : EventBus) (subscription : Subscription) : EventBus :=
  ⟨bus.subscriptions ++ [subscription]⟩

/-- What is told about an event, with the position of the observer. -/
def emit (bus : EventBus) (event : ChainEvent) : List (Nat × Notice) :=
  bus.subscriptions.zipIdx.filterMap fun entry =>
    (entry.1.notice? event).map (entry.2, ·)

/-- What is told about several events, one after the other. -/
def emitAll (bus : EventBus) (events : List ChainEvent) : List (Nat × Notice) :=
  events.flatMap bus.emit

end EventBus

end HeaviestChain
