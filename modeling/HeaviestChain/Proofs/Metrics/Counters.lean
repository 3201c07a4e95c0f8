import HeaviestChain.Node
import HeaviestChain.Proofs.Gossip.Network
import HeaviestChain.Proofs.Ledger.Events

/-!
# What is counted

Counters follow the events of the chain.  A look at a block tells of a connected block exactly if
the block joins the tree, and of a reorganization exactly if blocks leave the canonical chain then.
So the counters agree with the tree after every look (`Tally`), also in a delivery that a fault
stops: what is told of its looks is counted before the fault is reported.
-/

namespace HeaviestChain

/-! ## The history of a tree -/

namespace BlockTree

/-- The stored blocks in the order in which they were connected. -/
def arrivals (tree : BlockTree) : List Block := tree.stored.reverse.map (·.block)

/-- How often blocks left the canonical chain while the stored blocks were connected. -/
def switches (tree : BlockTree) : Nat :=
  ((empty.headChanges tree.arrivals).filter fun change => !change.left.isEmpty).length

/-- The tree is what its blocks make of an empty one. -/
def Replayed (tree : BlockTree) : Prop := tree = empty.attachAll tree.arrivals

theorem Replayed.headed {tree : BlockTree} (replayed : tree.Replayed) : tree.Headed := by
  rw [replayed]
  exact headed_attachAll headed_empty _

theorem Replayed.eq_empty {tree : BlockTree} (replayed : tree.Replayed)
    (isEmpty : tree.isEmpty = true) : tree = empty := by
  rw [BlockTree.isEmpty, List.isEmpty_iff] at isEmpty
  rw [replayed, arrivals, isEmpty]
  rfl

section Attach

variable {tree : BlockTree} {block : Block} {weight : Difficulty}
  (added : (tree.attach block).1.stored = ⟨block, weight⟩ :: tree.stored)

include added

theorem arrivals_attach : (tree.attach block).1.arrivals = tree.arrivals ++ [block] := by
  rw [arrivals, added, List.reverse_cons, List.map_append]
  rfl

variable (replayed : tree.Replayed)

include replayed

theorem Replayed.attach : (tree.attach block).1.Replayed := by
  rw [Replayed, arrivals_attach added, attachAll_append, ← replayed]
  rfl

theorem switches_attach :
    (tree.attach block).1.switches =
      tree.switches +
        ((tree.attach block).2.change?.toList.filter
          fun change => !change.left.isEmpty).length := by
  rw [switches, arrivals_attach added, headChanges_append, ← replayed, List.filter_append,
    List.length_append, headChanges, headChanges, List.append_nil]
  rfl

end Attach

end BlockTree

/-! ## Counters -/

namespace Metrics

/-- The counters agree with the tree. -/
structure Tally (metrics : Metrics) (tree : BlockTree) : Prop where
  /-- The tree is what its blocks have made of an empty one. -/
  replayed : tree.Replayed
  /-- All connected blocks have been counted. -/
  connected : metrics.blocksConnected = tree.count
  /-- So has every change of the head at which blocks left the canonical chain. -/
  switched : metrics.reorganizations = tree.switches

theorem countEvents_append (metrics : Metrics) (events more : List ChainEvent) :
    metrics.countEvents (events ++ more) = (metrics.countEvents events).countEvents more :=
  List.foldl_append

theorem countEvents_announcement (metrics : Metrics) (before : Option BlockHash)
    (tree : BlockTree) :
    metrics.countEvents (Ledger.announcement before tree) = metrics := by
  simp only [Ledger.announcement]
  split
  case isTrue => rfl
  case isFalse =>
      split
      case h_1 => rfl
      case h_2 => rfl

/-- What is told of a connected block counts once, and once more if blocks left the canonical chain. -/
theorem countEvents_settle {σ : Type} (metrics : Metrics) (ledger : Ledger σ) (block : Block)
    (change : Option HeadChange) :
    metrics.countEvents (ledger.settle block change).events =
      { metrics with
        blocksConnected := metrics.blocksConnected + 1
        reorganizations := metrics.reorganizations +
          (change.toList.filter fun change => !change.left.isEmpty).length } := by
  cases change with
  | none => rfl
  | some change =>
      cases left : change.left.isEmpty with
      | true => simp [Ledger.settle, left, countEvents, countEvent]
      | false => simp [Ledger.settle, left, countEvents, countEvent]

theorem tally_empty : Tally {} .empty := ⟨rfl, rfl, rfl⟩

namespace Tally

open Ledger (Joins Trail told)

variable {σ : Type} {metrics : Metrics}

theorem settle {ledger : Ledger σ} {block : Block} {tree : BlockTree} (tally : Tally metrics tree)
    (joins : Joins tree block) :
    Tally (metrics.countEvents (ledger.settle block (tree.attach block).2.change?).events)
      (tree.attach block).1 := by
  rcases joins.exists_stored_attach with ⟨weight, added⟩
  have counted : (tree.attach block).1.count = tree.count + 1 := by
    rw [BlockTree.count, added, List.length_cons]
    rfl
  rw [countEvents_settle]
  refine ⟨tally.replayed.attach added, ?_, ?_⟩
  · rw [counted, ← tally.connected]
  · rw [BlockTree.switches_attach added tally.replayed, ← tally.switched]

variable [StateEngine σ] {ledger : Ledger σ}

/-- What is told of a look is counted right. -/
theorem examine (tally : Tally metrics ledger.tree) (block : Block) (now : Timestamp) :
    Tally (metrics.countEvents (ledger.examine block now).events)
      (ledger.examine block now).ledger.tree := by
  have inspection := ledger.inspection block now
  generalize ledger.examine block now = admission at inspection ⊢
  cases inspection with
  | known _ => exact tally
  | rejected _ => exact tally
  | faulted _ => exact tally
  | parked _ _ =>
      simp only [Ledger.park]
      split
      case isTrue => exact tally
      case isFalse => exact tally
  | joined joins => exact tally.settle joins

theorem trail {now : Timestamp} {work last : Ledger σ × List Block}
    {looks : List (Ledger σ × Block)} (trail : Trail now work looks last)
    (tally : Tally metrics work.1.tree) :
    Tally (metrics.countEvents (told now looks)) last.1.tree := by
  induction trail generalizing metrics with
  | refl _ => exact tally
  | @look ledger block _ _ _ _ turn _ ih =>
      have looked := tally.examine block now
      rw [← turn.tree_eq] at looked
      rw [told, List.flatMap_cons, countEvents_append]
      exact ih looked

theorem deliver (tally : Tally metrics ledger.tree) (block : Block) (now : Timestamp) :
    Tally (metrics.countEvents (ledger.deliver block now).events)
      (ledger.deliver block now).ledger.tree := by
  rcases ledger.exists_trail_deliver block now with ⟨looks, trail, events⟩
  rw [events, countEvents_append, countEvents_announcement]
  exact tally.trail trail

/-- Only a delivered block changes the tree, and it tells of it. -/
theorem receive {participant : Participant σ} (tally : Tally metrics participant.ledger.tree)
    (message : Message) (sender : Option PeerId) (now : Timestamp) :
    Tally (metrics.countEvents (participant.receive message sender now).events)
      (participant.receive message sender now).participant.ledger.tree := by
  cases message with
  | block block => exact tally.deliver block now
  | status status =>
      simp only [Participant.receive, (participant.receiveStatus_frame status sender now).1]
      exact tally
  | transaction _ => exact tally
  | blockByHash _ => exact tally
  | blockByNumber _ => exact tally

end Tally

theorem gauges_countEvents (metrics : Metrics) (events : List ChainEvent) :
    (metrics.countEvents events).gauges = metrics.gauges := by
  induction events generalizing metrics with
  | nil => rfl
  | cons event rest ih =>
      refine (ih (metrics.countEvent event)).trans ?_
      cases event with
      | blockConnected _ _ => rfl
      | newBestBlock _ => rfl
      | orphanQueued _ _ => rfl
      | reorganized _ _ _ => rfl
      | blockRejected _ _ => rfl

/-- Counters that agree with the tree still do when other metrics change. -/
theorem Tally.congr {metrics other : Metrics} {tree : BlockTree} (tally : Tally metrics tree)
    (connected : other.blocksConnected = metrics.blocksConnected)
    (switched : other.reorganizations = metrics.reorganizations) : Tally other tree :=
  ⟨tally.replayed, connected.trans tally.connected, switched.trans tally.switched⟩

theorem Tally.countMessage {metrics : Metrics} {tree : BlockTree} (tally : Tally metrics tree)
    (message : Message) : Tally (metrics.countMessage message) tree := by
  cases message with
  | block _ => exact tally.congr rfl rfl
  | transaction _ => exact tally.congr rfl rfl
  | status _ => exact tally
  | blockByHash _ => exact tally
  | blockByNumber _ => exact tally

end Metrics

end HeaviestChain
