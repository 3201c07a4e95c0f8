import HeaviestChain.Proofs.Ledger.CanonicalChain
import HeaviestChain.Proofs.Mempool
import HeaviestChain.RootEngine

/-!
# Where transactions are kept

A transaction that was accepted, be it into the mempool or with a block of the canonical chain, is
kept from then on: it is pending, or a canonical block has it.  A change of the canonical chain
names exactly the blocks that leave and join it (`BlockTree.Turns`), and the mempool follows the
change, so what leaves the one side arrives at the other.
-/

namespace HeaviestChain

namespace BlockTree

/-- Whether a block of the canonical chain has a transaction with this hash. -/
def Includes (tree : BlockTree) (hash : TxHash) : Prop :=
  ∃ blockHash block, tree.isCanonical blockHash = true ∧ tree.block? blockHash = some block ∧
    Transaction.Among block.transactions hash

theorem Canonical.includes_iff {tree : BlockTree} (canonical : tree.Canonical) {hash : TxHash} :
    tree.Includes hash ↔ Block.Carried tree.bestLine hash := by
  constructor
  · rintro ⟨blockHash, block, isCanonical, found, among⟩
    rcases canonical.isCanonical_iff.mp isCanonical with ⟨other, onLine, rfl⟩
    rw [canonical.block?_of_mem onLine] at found
    cases found
    exact ⟨block, onLine, among⟩
  · rintro ⟨block, onLine, among⟩
    exact ⟨block.hash, block, canonical.isCanonical_iff.mpr ⟨block, onLine, rfl⟩,
      canonical.block?_of_mem onLine, among⟩

namespace Turns

variable {change : HeadChange} {old new : List Block} {hash : TxHash}

theorem carried_of_joined (turns : Turns change old new)
    (joined : Block.Carried change.joined hash) : Block.Carried new hash := by
  rcases turns with ⟨common, _, split, _⟩
  rw [split, Block.carried_append, Block.carried_reverse]
  exact .inl joined

theorem left_or_carried (turns : Turns change old new) (carried : Block.Carried old hash) :
    Block.Carried change.left hash ∨ Block.Carried new hash := by
  rcases turns with ⟨common, split, split', _⟩
  rw [split, Block.carried_append, Block.carried_reverse] at carried
  rw [split', Block.carried_append]
  exact carried.imp_right .inr

end Turns

end BlockTree

namespace Ledger

variable {σ : Type}

/-- A transaction is kept: it is pending, or a canonical block has it. -/
def Keeps (ledger : Ledger σ) (hash : TxHash) : Prop :=
  ledger.pool.contains hash = true ∨ ledger.tree.Includes hash

theorem keeps_submit {ledger : Ledger σ} {hash : TxHash} (tx : Transaction)
    (kept : tx.hash = hash ∨ ledger.Keeps hash) : (ledger.submit tx).1.Keeps hash := by
  rcases kept with submitted | pending | included
  · exact .inl ((Mempool.contains_add tx).mpr (.inl submitted))
  · exact .inl ((Mempool.contains_add tx).mpr (.inr pending))
  · exact .inr included

/-- Whatever an offer does to the canonical chain, following it in the mempool keeps every
transaction. -/
theorem kept_of_attach {tree : BlockTree} {pool : Mempool} {block : Block} {hash : TxHash}
    (canonical : tree.Canonical)
    (follows : ∀ parent, BlockTree.lookup tree.stored block.parentHash = some parent →
      BlockTree.Follows block parent.block)
    (kept : pool.contains hash = true ∨ Block.Carried tree.bestLine hash) :
    (pool.follow (tree.attach block).2.change?).contains hash = true ∨
      Block.Carried (tree.attach block).1.bestLine hash := by
  have changed := (canonical.attach follows).2
  cases isChange : (tree.attach block).2.change? with
  | none =>
      rw [isChange] at changed
      simpa only [Mempool.follow, changed] using kept
  | some change =>
      rw [isChange] at changed
      simp only [Mempool.follow, Mempool.contains_reconcile]
      by_cases joined : Block.Carried change.joined hash
      · exact .inr (changed.carried_of_joined joined)
      · rcases kept with pending | carried
        · exact .inl ⟨joined, .inr pending⟩
        · rcases changed.left_or_carried carried with left | stays
          · exact .inl ⟨joined, .inl left⟩
          · exact .inr stays

variable [StateEngine σ]

theorem count_le_examine (ledger : Ledger σ) (block : Block) (now : Timestamp) :
    ledger.tree.count ≤ (ledger.examine block now).ledger.tree.count := by
  rcases ledger.examine_tree_pool block now with ⟨same, _⟩ | ⟨joins, attached, _⟩
  · exact Nat.le_of_eq (congrArg BlockTree.count same.symm)
  · rw [attached, BlockTree.count_attach joins]
    exact Nat.le_succ _

theorem keeps_examine {ledger : Ledger σ} {block : Block} {now : Timestamp} {hash : TxHash}
    (sound : ledger.tree.Sound)
    (fits : (ledger.examine block now).ledger.tree.count ≤ UInt64.size)
    (keeps : ledger.Keeps hash) : (ledger.examine block now).ledger.Keeps hash := by
  rcases ledger.examine_tree_pool block now with ⟨sameTree, samePool⟩ | ⟨joins, attached, followed⟩
  · rw [Keeps, sameTree, samePool]
    exact keeps
  · rw [attached] at fits
    have before := sound.canonical_before joins fits
    have after := (sound.attach joins).canonical fits
    rw [Keeps, before.includes_iff] at keeps
    rw [Keeps, attached, followed, after.includes_iff]
    exact kept_of_attach before (sound.follows joins fits) keeps

/-- What is kept at one moment is kept at every later one at which the blocks can be counted in a
word. -/
theorem keeps_onward {before after : Ledger σ × List Block} (onward : Onward before after)
    (sound : before.1.tree.Sound) (fits : after.1.tree.count ≤ UInt64.size) {hash : TxHash}
    (keeps : before.1.Keeps hash) : after.1.Keeps hash := by
  have kept := onward_induction
    (P := fun ledger => ledger.tree.Sound ∧ (ledger.tree.count ≤ UInt64.size → ledger.Keeps hash))
    ?examined ?rebuffered ?submitted ?altered onward ⟨sound, fun _ => keeps⟩
  · exact kept.2 fits
  case examined =>
      rintro ledger block now ⟨sound, kept⟩
      have soundAfter : (ledger.examine block now).ledger.tree.Sound :=
        sound_examine block now sound
      refine ⟨soundAfter, fun fits => ?_⟩
      have fitsBefore := Nat.le_trans (ledger.count_le_examine block now) fits
      exact keeps_examine sound fits (kept fitsBefore)
  case rebuffered => exact fun _ _ kept => kept
  case submitted =>
      rintro ledger tx ⟨sound, kept⟩
      exact ⟨sound, fun fits => keeps_submit tx (.inr (kept fits))⟩
  case altered => exact fun _ _ kept => kept

/-- No accepted transaction is lost.  At every moment of every run, in the middle of a delivery or
after a fault of the state engine, a transaction that was submitted before, or that a block had
while the block was canonical, is pending or a canonical block has it, as long as the blocks can be
counted in a word. -/
theorem accepted_transactions_kept {engine : σ} {capacity : Nat}
    {before after : Ledger σ × List Block}
    (reached : Onward (empty engine capacity, []) before)
    (fits : after.1.tree.count ≤ UInt64.size) :
    (∀ tx, Onward ((before.1.submit tx).1, before.2) after →
      after.1.pool.contains tx.hash = true ∨ after.1.tree.Includes tx.hash) ∧
    ∀ hash, before.1.tree.Includes hash → Onward before after →
      after.1.pool.contains hash = true ∨ after.1.tree.Includes hash := by
  have sound : before.1.tree.Sound := sound_onward reached BlockTree.sound_empty
  constructor
  · intro tx onward
    exact keeps_onward onward sound fits (keeps_submit tx (.inl rfl))
  · intro hash included onward
    exact keeps_onward onward sound fits (.inr included)

/-- A payment, and two blocks on one genesis block: one that carries the payment and a heavier
one. -/
def forkPayment : Transaction :=
  .ofContent ⟨.zero, .zero, .zero, 0, [], 0, .zero⟩

def forkBase : Block := ({} : GenesisSpec).block

def forkCarrier : Block :=
  .build 1 forkBase.hash [] [forkPayment] (forkBase.stateRoot.after [forkPayment]) .epoch .zero .one

def forkRival : Block :=
  .build 1 forkBase.hash [] [] forkBase.stateRoot .epoch .zero (.ofWord 5)

/-- The payment leaves the canonical chain with its block and is pending again. -/
theorem forkPayment_kept :
    let before := (empty (RootEngine.seeded .zero) 2).run
      [.deliver forkBase .epoch, .deliver forkCarrier .epoch]
    let after := before.run [.deliver forkRival .epoch]
    before.tree.Includes forkPayment.hash ∧ after.tree.isCanonical forkCarrier.hash = false ∧
      (after.pool.contains forkPayment.hash = true ∨ after.tree.Includes forkPayment.hash) := by
  intro before after
  have reached : Onward (empty (RootEngine.seeded .zero) 2, []) (before, []) := onward_run _ _
  have onward : Onward (before, []) (after, []) := onward_run _ _
  have evaluated : (before.tree.isCanonical forkCarrier.hash = true ∧
      before.tree.block? forkCarrier.hash = some forkCarrier) ∧
      after.tree.isCanonical forkCarrier.hash = false ∧ after.tree.count ≤ UInt64.size := by
    decide +kernel
  have included : before.tree.Includes forkPayment.hash :=
    ⟨forkCarrier.hash, forkCarrier, evaluated.1.1, evaluated.1.2, forkPayment,
      List.mem_singleton_self _, rfl⟩
  exact ⟨included, evaluated.2.1,
    (accepted_transactions_kept reached evaluated.2.2).2 forkPayment.hash included onward⟩

end Ledger

end HeaviestChain
