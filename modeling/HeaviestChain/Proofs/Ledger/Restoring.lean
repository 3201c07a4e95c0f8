import HeaviestChain.Proofs.BlockTree.HeadChanges
import HeaviestChain.Proofs.Ledger.Course
import HeaviestChain.Proofs.Ledger.Transactions

/-!
# Transactions that come back

When the head moves, the transactions of the blocks that leave the canonical chain become pending again,
except those that the joining blocks have as well.  Only the joining blocks are asked: nothing keeps a
transaction from standing in several blocks of one chain, and what stands in a block that leaves may also
stand in a block that stays below the fork.  So a transaction that comes back is in no block above the
fork, and it is in a canonical block exactly if a block up to the fork has it.
-/

namespace HeaviestChain

namespace Ledger

variable {σ : Type} [StateEngine σ] {ledger : Ledger σ} {block : Block} {now : Timestamp}

theorem includes_iff_canonicalChain {tree : BlockTree} (canonical : tree.Canonical) {hash : TxHash} :
    tree.Includes hash ↔ Block.Carried tree.canonicalChain hash := by
  rw [canonical.includes_iff, canonical.canonicalChain_eq, Block.carried_reverse]

/-- Whenever a look at a block makes it the head, in the middle of a delivery or not, the mempool takes
back only transactions of blocks that leave the canonical chain.  None of them is in a block that joins
it, and a canonical block has one of them exactly if a block that stays has it, as long as the blocks can
be counted in a word. -/
theorem restored_above_fork {engine : σ} {capacity : Nat} {queue : List Block} {change : HeadChange}
    (reached : Onward (empty engine capacity, []) (ledger, block :: queue))
    (connected : (ledger.examine block now).verdict = .connected)
    (moved : (ledger.tree.attach block).2 = .newHead change)
    (fits : (ledger.examine block now).ledger.tree.count ≤ UInt64.size) :
    let next := (ledger.examine block now).ledger
    next.pool = (ledger.pool.reconcile change).1 ∧
      ∃ common, BlockTree.HeadMove ledger.tree next.tree block change common ∧
        ∀ tx ∈ (ledger.pool.reconcile change).2,
          (∃ other ∈ change.left, tx ∈ other.transactions) ∧
            ¬Block.Carried change.joined tx.hash ∧
            (next.tree.Includes tx.hash ↔ Block.Carried common tx.hash) := by
  intro next
  rcases examine_of_connected connected with ⟨joins, after, examined⟩
  have sound : ledger.tree.Sound := sound_onward reached BlockTree.sound_empty
  have sameTree : next.tree = (ledger.tree.attach block).1 := by simp only [next, examined]; rfl
  have followed : next.pool = (ledger.pool.reconcile change).1 := by
    simp only [next, examined, moved]
    rfl
  rw [examined] at fits
  have canonical := sound.canonical_before joins fits
  have canonicalAfter := (sound.attach joins).canonical fits
  rcases canonical.headMove (sound.follows joins fits) moved with ⟨common, move⟩
  refine ⟨followed, common, sameTree ▸ move, ?_⟩
  intro tx back
  rcases Mempool.carried_of_mem_reconcile back with ⟨left, notJoined⟩
  refine ⟨left, notJoined, ?_⟩
  rw [sameTree, includes_iff_canonicalChain canonicalAfter, move.after, Block.carried_append]
  simp [notJoined]

/-- Two payments.  The lower block on a genesis block has the first one, the upper block has both, and a
heavier block beside the upper one has none. -/
def recurringPayment : Transaction :=
  .ofContent ⟨.zero, .zero, .zero, 0, [], 0, .zero⟩

def singlePayment : Transaction :=
  .ofContent ⟨.zero, .zero, .zero, 1, [], 0, .zero⟩

def recurringBase : Block := ({} : GenesisSpec).block

def recurringLow : Block :=
  .build 1 recurringBase.hash [] [recurringPayment]
    (recurringBase.stateRoot.after [recurringPayment]) .epoch .zero .one

def recurringHigh : Block :=
  .build 2 recurringLow.hash [] [recurringPayment, singlePayment]
    (recurringLow.stateRoot.after [recurringPayment, singlePayment]) .epoch .zero .one

def recurringRival : Block :=
  .build 2 recurringLow.hash [] [] recurringLow.stateRoot .epoch .zero (.ofWord 5)

/-- The ledger with the two blocks on the genesis block. -/
def recurringLedger : Ledger RootEngine :=
  (empty (RootEngine.seeded .zero) 2).run
    [.deliver recurringBase .epoch, .deliver recurringLow .epoch, .deliver recurringHigh .epoch]

/-- How its canonical chain changes when the heavier block comes. -/
def recurringChange : HeadChange := ⟨[recurringRival], [recurringHigh]⟩

theorem recurringRival_moves :
    (recurringLedger.examine recurringRival .epoch).verdict = .connected ∧
      (recurringLedger.tree.attach recurringRival).2 = .newHead recurringChange ∧
      (recurringLedger.examine recurringRival .epoch).ledger.tree.count ≤ UInt64.size ∧
      recurringLedger.tree.canonicalChain = [recurringBase, recurringLow, recurringHigh] ∧
      (recurringLedger.pool.reconcile recurringChange).2 = [recurringPayment, singlePayment] ∧
      (recurringLedger.deliver recurringRival .epoch).ledger.pool.contains recurringPayment.hash =
        true ∧
      (recurringLedger.deliver recurringRival .epoch).ledger.tree.isCanonical recurringLow.hash =
        true ∧
      (recurringLedger.deliver recurringRival .epoch).ledger.tree.block? recurringLow.hash =
        some recurringLow := by
  decide +kernel

/-- Both payments come back when the upper block leaves.  The lower block is still canonical and has one
of them. -/
theorem recurringHigh_restored :
    let next := (recurringLedger.examine recurringRival .epoch).ledger
    ((recurringLedger.examine recurringRival .epoch).verdict = .connected ∧
        (recurringLedger.tree.attach recurringRival).2 = .newHead recurringChange ∧
        next.tree.count ≤ UInt64.size ∧
        (recurringLedger.pool.reconcile recurringChange).2 = [recurringPayment, singlePayment]) ∧
      next.tree.Includes recurringPayment.hash ∧ ¬next.tree.Includes singlePayment.hash := by
  intro next
  rcases recurringRival_moves with ⟨connected, moved, fits, chain, given, _⟩
  have reached : Onward (empty (RootEngine.seeded .zero) 2, []) (recurringLedger, [recurringRival]) :=
    (onward_run _ _).tail (.delivered recurringLedger recurringRival)
  rcases restored_above_fork reached connected moved fits with ⟨_, common, move, restored⟩
  have isCommon : [recurringBase, recurringLow] = common :=
    List.append_cancel_right (chain.symm.trans move.before)
  subst isCommon
  have kept : Block.Carried [recurringBase, recurringLow] recurringPayment.hash ∧
      ¬Block.Carried [recurringBase, recurringLow] singlePayment.hash := by
    decide +kernel
  refine ⟨⟨connected, moved, fits, given⟩, ?_, ?_⟩
  · refine (restored recurringPayment ?_).2.2.mpr kept.1
    simp [given]
  · rw [(restored singlePayment ?_).2.2]
    · exact kept.2
    · simp [given]

/-- A transaction that comes back may be in a block that is canonical afterwards. -/
theorem recurringPayment_still_canonical :
    let after := (recurringLedger.deliver recurringRival .epoch).ledger
    (recurringLedger.tree.attach recurringRival).2 = .newHead recurringChange ∧
      recurringPayment ∈ (recurringLedger.pool.reconcile recurringChange).2 ∧
      after.pool.contains recurringPayment.hash = true ∧
      after.tree.Includes recurringPayment.hash := by
  intro after
  rcases recurringRival_moves with ⟨_, moved, _, _, given, pending, canonical, stored⟩
  refine ⟨moved, by simp [given], pending, recurringLow.hash, recurringLow, canonical, stored,
    recurringPayment, ?_, rfl⟩
  exact List.mem_singleton_self _

end Ledger

end HeaviestChain
