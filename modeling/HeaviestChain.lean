import HeaviestChain.Main
import HeaviestChain.Proofs.Commitment
import HeaviestChain.Proofs.Gossip.Ancestors
import HeaviestChain.Proofs.Gossip.CatchUp
import HeaviestChain.Proofs.Gossip.Settling
import HeaviestChain.Proofs.Ledger.Cascade
import HeaviestChain.Proofs.Ledger.Events
import HeaviestChain.Proofs.Ledger.Recovery
import HeaviestChain.Proofs.Ledger.Redelivery
import HeaviestChain.Proofs.Ledger.Restoring
import HeaviestChain.Proofs.Ledger.Supply
import HeaviestChain.Proofs.Mempool.FreeNonce
import HeaviestChain.Proofs.Mempool.Views
import HeaviestChain.Proofs.Metrics.Gauges
import HeaviestChain.Proofs.Orphans.Search
import HeaviestChain.Proofs.Peers
import HeaviestChain.Proofs.Requests.LowerStatus
import HeaviestChain.Proofs.Requests.Order
import HeaviestChain.Proofs.Requests.Reopening
import HeaviestChain.Proofs.Wire.Relay
