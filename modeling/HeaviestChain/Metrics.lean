import HeaviestChain.Participant

/-!
# Metrics

What a node counts for its operator.  Counters only grow; gauges show the state at the last moment
at which they were set.  All are zero before that.
-/

namespace HeaviestChain

/-- The sizes of what a participant holds. -/
structure Gauges where
  /-- The number of the best block as far as a gauge can show it, or -1 if there is none. -/
  bestNumber : Int := 0
  /-- How many blocks wait for their parents. -/
  orphans : Nat := 0
  /-- How many transactions wait to be included. -/
  pending : Nat := 0
  /-- How many peers are known. -/
  peers : Nat := 0
  deriving DecidableEq

namespace Gauges

/-- The largest number that a gauge can show. -/
def maxShown : Int := Int64.maxValue.toInt

/-- The sizes in the present state of a participant. -/
def ofParticipant {σ : Type} (participant : Participant σ) : Gauges where
  bestNumber := match participant.ledger.tree.bestNumber? with
    | some number => min number.toNat maxShown
    | none => -1
  orphans := participant.ledger.orphans.size
  pending := participant.ledger.pool.size
  peers := participant.peers.count

end Gauges

/-- What a node counts. -/
structure Metrics where
  /-- How many messages with a block came in. -/
  blocksProcessed : Nat := 0
  /-- How many blocks were connected. -/
  blocksConnected : Nat := 0
  /-- How often blocks left the canonical chain. -/
  reorganizations : Nat := 0
  /-- How many messages with a transaction came in. -/
  transactionsReceived : Nat := 0
  /-- The sizes when they were last looked at. -/
  gauges : Gauges := {}
  deriving DecidableEq

namespace Metrics

/-! ## Counting -/

/-- The metrics after a message came in. -/
def countMessage (metrics : Metrics) : Message → Metrics
  | .block _ => { metrics with blocksProcessed := metrics.blocksProcessed + 1 }
  | .transaction _ => { metrics with transactionsReceived := metrics.transactionsReceived + 1 }
  | _ => metrics

/-- The metrics after an event. -/
def countEvent (metrics : Metrics) : ChainEvent → Metrics
  | .blockConnected .. => { metrics with blocksConnected := metrics.blocksConnected + 1 }
  | .reorganized .. => { metrics with reorganizations := metrics.reorganizations + 1 }
  | _ => metrics

/-- The metrics after several events. -/
def countEvents (metrics : Metrics) (events : List ChainEvent) : Metrics :=
  events.foldl countEvent metrics

/-! ## Showing -/

/-- One metric as text: what it means, its kind, and its value. -/
def entry (name meaning kind : String) (value : Int) : String :=
  s!"# HELP corvid_{name} {meaning}\n# TYPE corvid_{name} {kind}\ncorvid_{name} {value}\n"

/-- All metrics as text, ordered by name. -/
def text (metrics : Metrics) : String :=
  String.join
    [entry "best_block_number" "Number of the best block" "gauge" metrics.gauges.bestNumber,
      entry "blocks_connected_total" "Total blocks connected to the chain" "counter"
        metrics.blocksConnected,
      entry "blocks_processed_total" "Total blocks processed by this node" "counter"
        metrics.blocksProcessed,
      entry "orphan_count" "Current number of orphan blocks" "gauge" metrics.gauges.orphans,
      entry "peer_count" "Current number of known peers" "gauge" metrics.gauges.peers,
      entry "pool_size" "Current number of pending transactions" "gauge" metrics.gauges.pending,
      entry "reorgs_total" "Total chain reorganisations" "counter" metrics.reorganizations,
      entry "transactions_received_total" "Total transactions received" "counter"
        metrics.transactionsReceived]

end Metrics

end HeaviestChain
