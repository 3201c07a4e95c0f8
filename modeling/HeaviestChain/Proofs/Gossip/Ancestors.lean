import HeaviestChain.Proofs.Gossip.Network
import HeaviestChain.Proofs.Ledger.Interruption
import HeaviestChain.Proofs.Ledger.Waiting

/-!
# Requests for missing ancestors

Who cannot connect a block asks for the first ancestor that it lacks: it follows the parents of
orphans from the block and asks for the hash at which the line of orphans ends.  That hash is not an
orphan's, short of a block that is its own ancestor.

The stored blocks are not consulted on the way.  Nevertheless the hash is not that of a stored block,
because no block waits for a stored parent, as long as no delivery has ended with a fault.  After a
fault the request may ask for a block that is stored: the parent of one that waits again.
-/

namespace HeaviestChain

namespace Participant

open Ledger (Command haltedBase haltedLeft haltedParent haltedRight)
open OrphanBuffer (Leads lineStart)

variable {σ : Type} [StateEngine σ]

theorem blockByHash_not_mem_fanOut {sender : Option PeerId} {blocks : List Block}
    {recipient : Recipient} {hash : BlockHash} :
    ⟨recipient, .blockByHash hash⟩ ∉ fanOut sender (blocks.map .block) := by
  intro mem
  have listed := List.mem_map_of_mem (f := Outbound.message) mem
  rw [messages_fanOut, List.mem_map] at listed
  rcases listed with ⟨_, _, isBlock⟩
  cases isBlock

section Request

variable {participant : Participant σ} {block : Block} {sender : Option PeerId} {now : Timestamp}
  {recipient : Recipient} {ancestor : BlockHash}

/-- A block leads to a request only if nothing is connected and no fault occurs.  The request asks for
the start of the block's line, if that is elsewhere. -/
theorem ancestor_eq
    (sent : ⟨recipient, .blockByHash ancestor⟩ ∈ (participant.receiveBlock block sender now).sent) :
    (participant.ledger.deliver block now).outcome = .ok [] ∧ ancestor ≠ block.hash ∧
      ancestor =
        lineStart (participant.ledger.deliver block now).ledger.orphans.parents block.hash := by
  cases outcome : (participant.ledger.deliver block now).outcome with
  | error fault =>
      simp only [receiveBlock, outcome] at sent
      cases sent
  | ok connected =>
      cases connected with
      | cons first others =>
          simp only [receiveBlock, outcome] at sent
          exact absurd sent blockByHash_not_mem_fanOut
      | nil =>
          cases sender with
          | none =>
              simp only [receiveBlock, outcome] at sent
              cases sent
          | some peer =>
              simp only [receiveBlock, outcome, askForAncestor_eq] at sent
              split at sent
              case isTrue => cases sent
              case isFalse elsewhere =>
                  simp only [List.mem_singleton, Outbound.mk.injEq, Message.blockByHash.injEq] at sent
                  rw [sent.2]
                  exact ⟨rfl, (not_or.mp elsewhere).2, rfl⟩

/-- A request that a block leads to names the parent of a waiting block: of the block itself or of one
that it descends from by waiting blocks.  No block with the requested hash waits, unless it is its own
ancestor, and none is stored, unless a delivery of the run was stopped by a fault.  The ledger of every
reachable participant comes from a run (`Reachable.exists_run`). -/
theorem requested_ancestor {engine : σ} {capacity : Nat} {commands : List (Command σ)}
    (isRun : participant.ledger = (Ledger.empty engine capacity).run commands)
    (sent : ⟨recipient, .blockByHash ancestor⟩ ∈
      (participant.receive (.block block) sender now).sent) :
    let ledger := (participant.receive (.block block) sender now).participant.ledger
    (∃ orphan ∈ ledger.orphans.filedUnder ancestor,
      Relation.ReflTransGen (Leads ledger.orphans.parents) block.hash orphan.block.hash) ∧
    (ledger.orphans.contains ancestor = true →
      Relation.TransGen (Leads ledger.orphans.parents) ancestor ancestor) ∧
    (ledger.tree.contains ancestor = true → (Ledger.empty engine capacity).Fails commands) := by
  intro ledger
  have custody : Ledger.Custody participant.ledger [] := by
    rw [isRun]
    exact Ledger.custody_onward (Ledger.onward_run _ _) (Ledger.custody_empty engine capacity)
  have wellFormed : ledger.orphans.WellFormed :=
    Ledger.wellFormed_deliver custody.wellFormed block now
  rcases ancestor_eq sent with ⟨outcome, elsewhere, isStart⟩
  have search : Relation.ReflTransGen (Leads ledger.orphans.parents) block.hash ancestor ∧
      (ledger.orphans.parents.get? ancestor = none ∨
        Relation.TransGen (Leads ledger.orphans.parents) ancestor ancestor) := by
    rw [isStart]
    exact OrphanBuffer.line_lineStart ledger.orphans.parents block.hash
  rcases search with ⟨line, start⟩
  have waits : ∃ orphan ∈ ledger.orphans.filedUnder ancestor,
      Relation.ReflTransGen (Leads ledger.orphans.parents) block.hash orphan.block.hash := by
    rcases line.cases_tail with same | ⟨child, above, leads⟩
    · exact absurd same elsewhere
    · rcases wellFormed.exists_of_leads leads with ⟨orphan, filed, rfl, _⟩
      exact ⟨orphan, filed, above⟩
  refine ⟨waits, ?_, ?_⟩
  · intro held
    rcases start with missing | back
    · rw [OrphanBuffer.contains, Table.contains, missing] at held
      cases held
    · exact back
  · intro stored
    by_contra undisturbed
    have parentless : participant.ledger.Parentless := by
      rw [isRun]
      exact Ledger.parentless_run (Ledger.custody_empty engine capacity)
        (Ledger.parentless_empty engine capacity) undisturbed
    have still : ledger.Parentless :=
      Ledger.parentless_deliver outcome custody.wellFormed parentless
    rcases waits with ⟨orphan, filed, _⟩
    have absent := still ancestor orphan filed
    rw [stored] at absent
    cases absent

end Request

/-- A block on the second of two siblings. -/
def haltedTip : Block :=
  .build 3 haltedRight.hash [] [] haltedRight.stateRoot .epoch .zero .one

/-- Nothing has failed: the block on which the request insists is neither stored nor waits. -/
theorem haltedLeft_requests_missing :
    let participant : Participant RootEngine :=
      { ledger := (Ledger.empty (RootEngine.seeded .zero) 4).run [.deliver haltedBase .epoch] }
    let reaction := participant.receive (.block haltedLeft) (some ⟨.zero 32⟩) .epoch
    let ledger := reaction.participant.ledger
    (⟨.peer ⟨.zero 32⟩, .blockByHash haltedParent.hash⟩ ∈ reaction.sent ∧
        ledger.orphans.contains haltedParent.hash = false ∧
        ledger.tree.contains haltedParent.hash = false) ∧
      ∃ orphan ∈ ledger.orphans.filedUnder haltedParent.hash,
        Relation.ReflTransGen (Leads ledger.orphans.parents) haltedLeft.hash orphan.block.hash := by
  intro participant reaction ledger
  have evaluated : ⟨.peer ⟨.zero 32⟩, .blockByHash haltedParent.hash⟩ ∈ reaction.sent ∧
      ledger.orphans.contains haltedParent.hash = false ∧
      ledger.tree.contains haltedParent.hash = false := by
    decide +kernel
  exact ⟨evaluated, (requested_ancestor rfl evaluated.1).1⟩

/-- The engine has failed on the first of two siblings, so that the second one waits for the stored
parent; a block on it leads to a request for that parent. -/
theorem haltedTip_requests_stored :
    let participant : Participant RootEngine :=
      { ledger := (Ledger.empty (RootEngine.seeded .zero) 4).run
          [.deliver haltedBase .epoch, .deliver haltedLeft .epoch, .deliver haltedRight .epoch,
            .alter ((RootEngine.seeded .zero).spoil haltedParent.stateRoot),
            .deliver haltedParent .epoch] }
    let reaction := participant.receive (.block haltedTip) (some ⟨.zero 32⟩) .epoch
    reaction.sent = [⟨.peer ⟨.zero 32⟩, .blockByHash haltedParent.hash⟩] ∧
      reaction.participant.ledger.tree.contains haltedParent.hash = true := by
  decide +kernel

end Participant

end HeaviestChain
