import HeaviestChain.Proofs.Requests.Batch
import HeaviestChain.RootEngine

/-!
# Statuses below the highest one

A peer stands for the highest number that it has announced.  So a status with a lower number is heard
as if the highest one had been announced again: it changes neither that number nor what is remembered
of the network, and the next batch up to the highest number is asked for.  Nothing is asked for only
if no number up to the highest one is left.
-/

namespace HeaviestChain

namespace Peers

variable {peers : Peers} {peer : PeerId} {record : PeerRecord} {best : UInt64}

theorem announced_of_le (lower : best ≤ record.best) (network : NetworkId) (now : Timestamp) :
    announced (some record) network best now = { record with network, lastSeen := now } := by
  have stays : max record.best best = record.best := by
    rw [UInt64.le_iff_toNat_le] at lower
    rw [← UInt64.toNat_inj, UInt64.toNat_max]
    omega
  simp only [announced, stays]

theorem announce_of_le (known : peers.record? peer = some record) (lower : best ≤ record.best)
    (network : NetworkId) (now : Timestamp) :
    peers.announce peer network best now = peers.announce peer network record.best now := by
  simp only [announce, known, announced_of_le lower, announced_of_le (UInt64.le_refl _)]

end Peers

namespace Participant

variable {σ : Type} {participant : Participant σ} {peer : PeerId}

theorem batchLength_eq_zero_iff {announced : UInt64} :
    participant.batchLength peer announced = 0 ↔
      announced.toNat < participant.nextWanted peer := by
  have positive := UInt64.lt_iff_toNat_lt.mp participant.syncLimit.count_pos
  rw [UInt64.toNat_zero] at positive
  simp only [batchLength]
  omega

section Known

variable {record : PeerRecord} (known : participant.peers.record? peer = some record)
  {status : Status} (lower : status.best ≤ record.best) (now : Timestamp)

include known lower

theorem receiveStatus_of_le :
    participant.receiveStatus status (some peer) now =
      participant.receiveStatus { status with best := record.best } (some peer) now := by
  simp only [receiveStatus, Peers.announce_of_le known lower]

variable (sameNetwork : status.network = participant.network)

include sameNetwork

theorem sent_receiveStatus_of_le :
    (participant.receiveStatus status (some peer) now).2 =
      (List.range' (participant.nextWanted peer) (participant.batchLength peer record.best)).map
        fun number => ⟨.peer peer, .blockByNumber (.ofNat number)⟩ := by
  have sent := (participant.receiveStatus_eq peer status now sameNetwork).1
  simpa only [known, Peers.announced_of_le lower] using sent

theorem record?_receiveStatus_of_le :
    (participant.receiveStatus status (some peer) now).1.peers.record? peer =
      some
        { record with
          network := status.network
          requestedThrough :=
            if participant.batchLength peer record.best = 0 then record.requestedThrough
            else some (.ofNat
              (participant.nextWanted peer + participant.batchLength peer record.best - 1))
          lastSeen := now } := by
  have records := (participant.receiveStatus_eq peer status now sameNetwork).2 peer
  simpa only [known, Peers.announced_of_le lower, if_true] using records

/-- The mark stays if and only if no number up to the highest one is left. -/
theorem requestedThrough?_receiveStatus_of_le :
    (participant.receiveStatus status (some peer) now).1.peers.requestedThrough? peer =
        participant.peers.requestedThrough? peer ↔
      record.best.toNat < participant.nextWanted peer := by
  rw [← batchLength_eq_zero_iff]
  simp only [Peers.requestedThrough?, known,
    record?_receiveStatus_of_le known lower now sameNetwork, Option.bind_some]
  have marked : Word64.above record.requestedThrough ≤ participant.nextWanted peer := by
    have isMark : participant.peers.requestedThrough? peer = record.requestedThrough := by
      simp only [Peers.requestedThrough?, known, Option.bind_some]
    rw [← isMark]
    exact Nat.le_max_right ..
  have fits := participant.batch_le_size peer record.best
  constructor
  · intro stays
    by_contra nonempty
    rw [if_neg nonempty] at stays
    rw [← stays, Word64.above_some, UInt64.toNat_ofNat_of_lt' (by omega)] at marked
    omega
  · exact fun empty => if_pos empty

end Known

/-- A status with a lower number than the highest one is heard as that one again.  It asks for the
next batch of numbers up to the highest one, and the mark moves, unless there is no such number. -/
theorem lower_status_continues {record : PeerRecord}
    (known : participant.peers.record? peer = some record) {status : Status}
    (sameNetwork : status.network = participant.network) (lower : status.best < record.best)
    (now : Timestamp) :
    let answer := participant.receiveStatus status (some peer) now
    let first := participant.nextWanted peer
    answer = participant.receiveStatus { status with best := record.best } (some peer) now ∧
      answer.1.peers.bestOf? peer = some record.best ∧
      answer.2 = (List.range' first (participant.batchLength peer record.best)).map
        (fun number => ⟨.peer peer, .blockByNumber (.ofNat number)⟩) ∧
      (answer.2 = [] ↔ record.best.toNat < first) ∧
      (answer.1.peers.requestedThrough? peer = participant.peers.requestedThrough? peer ↔
        record.best.toNat < first) := by
  intro answer first
  have atMost : status.best ≤ record.best := UInt64.le_of_lt lower
  have sent := sent_receiveStatus_of_le known atMost now sameNetwork
  refine ⟨receiveStatus_of_le known atMost now, ?_, sent, ?_,
    requestedThrough?_receiveStatus_of_le known atMost now sameNetwork⟩
  · simp only [answer, Peers.bestOf?, record?_receiveStatus_of_le known atMost now sameNetwork,
      Option.map_some]
  · rw [sent, List.map_eq_nil_iff, List.range'_eq_nil_iff, batchLength_eq_zero_iff]

def laterPeer : PeerId := ⟨.zero 32⟩

def laterStatus (best : UInt64) : Status := ⟨laterPeer, .mainnet, best⟩

/-- Asks for two numbers at a time, has no blocks, and has heard of the number 10. -/
def laterParticipant : Participant RootEngine :=
  let participant : Participant RootEngine :=
    { ledger := .empty (RootEngine.seeded .zero) 4, syncLimit := .ofWord 2 }
  (participant.receiveStatus (laterStatus 10) (some laterPeer) .epoch).1

theorem laterParticipant_continues :
    let answer := laterParticipant.receiveStatus (laterStatus 5) (some laterPeer) .epoch
    (laterParticipant.peers.record? laterPeer = some ⟨.mainnet, 10, some 1, .epoch⟩ ∧
        laterParticipant.nextWanted laterPeer = 2) ∧
      answer = laterParticipant.receiveStatus (laterStatus 10) (some laterPeer) .epoch ∧
      answer.1.peers.bestOf? laterPeer = some 10 := by
  intro answer
  have evaluated : laterParticipant.peers.record? laterPeer = some ⟨.mainnet, 10, some 1, .epoch⟩ ∧
      laterParticipant.nextWanted laterPeer = 2 := by
    decide +kernel
  have lower : (laterStatus 5).best < 10 := by decide
  have continues := lower_status_continues evaluated.1 rfl lower .epoch
  exact ⟨evaluated, continues.1, continues.2.1⟩

/-- The lower number leads to requests, and the mark moves. -/
theorem laterParticipant_sends :
    let answer := laterParticipant.receiveStatus (laterStatus 5) (some laterPeer) .epoch
    laterParticipant.peers.bestOf? laterPeer = some 10 ∧
      laterParticipant.peers.requestedThrough? laterPeer = some 1 ∧
      answer.2 = [⟨.peer laterPeer, .blockByNumber 2⟩, ⟨.peer laterPeer, .blockByNumber 3⟩] ∧
      answer.1.peers.requestedThrough? laterPeer = some 3 := by
  decide +kernel

end Participant

end HeaviestChain
