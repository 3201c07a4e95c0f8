import HeaviestChain.Mempool

/-!
# What is pending

Whether a transaction is pending after a change of the mempool, said exactly for every operation.
After a change of the canonical chain the pending transactions are those that were pending or left
the chain, without those that joined it.
-/

namespace HeaviestChain

/-- Whether a transaction of the list has this hash. -/
def Transaction.Among (transactions : List Transaction) (hash : TxHash) : Prop :=
  ∃ tx ∈ transactions, tx.hash = hash

/-- Whether one of the blocks has a transaction with this hash. -/
def Block.Carried (blocks : List Block) (hash : TxHash) : Prop :=
  ∃ block ∈ blocks, Transaction.Among block.transactions hash

namespace Transaction

variable {transactions others : List Transaction} {hash : TxHash}

instance : Decidable (Among transactions hash) :=
  inferInstanceAs (Decidable (∃ tx ∈ transactions, tx.hash = hash))

theorem among_cons {tx : Transaction} :
    Among (tx :: transactions) hash ↔ tx.hash = hash ∨ Among transactions hash := by
  simp [Among]

theorem among_singleton {tx : Transaction} : Among [tx] hash ↔ tx.hash = hash := by
  simp [Among]

theorem among_append : Among (transactions ++ others) hash ↔
    Among transactions hash ∨ Among others hash := by
  simp [Among, or_and_right, exists_or]

theorem among_filter (keep : TxHash → Prop) [DecidablePred keep] :
    Among (transactions.filter fun tx => decide (keep tx.hash)) hash ↔
      Among transactions hash ∧ keep hash := by
  simp only [Among, List.mem_filter, decide_eq_true_eq]
  constructor
  · rintro ⟨tx, ⟨mem, kept⟩, rfl⟩
    exact ⟨⟨tx, mem, rfl⟩, kept⟩
  · rintro ⟨⟨tx, mem, rfl⟩, kept⟩
    exact ⟨tx, ⟨mem, kept⟩, rfl⟩

theorem among_flatMap {blocks : List Block} :
    Among (blocks.flatMap (·.transactions)) hash ↔ Block.Carried blocks hash := by
  simp only [Among, Block.Carried, List.mem_flatMap]
  constructor
  · rintro ⟨tx, ⟨block, mem, carries⟩, same⟩
    exact ⟨block, mem, tx, carries, same⟩
  · rintro ⟨block, mem, tx, carries, same⟩
    exact ⟨tx, ⟨block, mem, carries⟩, same⟩

end Transaction

namespace Block

variable {blocks others : List Block} {hash : TxHash}

instance : Decidable (Carried blocks hash) :=
  inferInstanceAs (Decidable (∃ block ∈ blocks, Transaction.Among block.transactions hash))

theorem carried_append :
    Carried (blocks ++ others) hash ↔ Carried blocks hash ∨ Carried others hash := by
  simp only [Carried, List.mem_append, or_and_right, exists_or]

theorem carried_reverse : Carried blocks.reverse hash ↔ Carried blocks hash := by
  simp only [Carried, List.mem_reverse]

theorem any_hash_eq (blocks : List Block) (hash : TxHash) :
    (blocks.flatMap (·.transactions)).any (fun tx => decide (tx.hash = hash)) =
      decide (Carried blocks hash) := by
  rw [Bool.eq_iff_iff, decide_eq_true_iff, ← Transaction.among_flatMap]
  simp only [List.any_eq_true, decide_eq_true_eq, Transaction.Among]

end Block

namespace Mempool

open Transaction (Among among_cons among_filter among_flatMap)

variable {pool : Mempool} {hash : TxHash}

/-! ## One transaction -/

theorem contains_add (tx : Transaction) :
    (pool.add tx).1.contains hash = true ↔ tx.hash = hash ∨ pool.contains hash = true := by
  simp only [add]
  split
  case isTrue pending =>
      constructor
      · exact .inr
      · rintro (rfl | contained)
        · exact pending
        · exact contained
  case isFalse =>
      simp only [contains, Table.contains, Table.get?_set]
      by_cases here : hash = tx.hash
      · simp [here]
      · simp [here, Ne.symm here]

theorem contains_remove (tx : Transaction) :
    (pool.remove tx).1.contains hash = true ↔ tx.hash ≠ hash ∧ pool.contains hash = true := by
  simp only [remove]
  split
  case h_1 missing =>
      constructor
      · intro contained
        refine ⟨?_, contained⟩
        rintro rfl
        rw [contains, Table.contains, missing] at contained
        cases contained
      · exact And.right
  case h_2 =>
      simp only [contains, Table.contains, Table.get?_erase]
      by_cases here : hash = tx.hash
      · simp [here]
      · simp [here, Ne.symm here]

/-! ## Several transactions -/

theorem contains_addAll (added : List Transaction) :
    (pool.addAll added).1.contains hash = true ↔ Among added hash ∨ pool.contains hash = true := by
  induction added generalizing pool with
  | nil => simp [addAll, Among]
  | cons tx rest ih =>
      simp only [addAll, ih, contains_add, among_cons, or_assoc]
      exact or_left_comm

theorem contains_removeAll (removed : List Transaction) :
    (removed.foldl (fun pool tx => (pool.remove tx).1) pool).contains hash = true ↔
      ¬Among removed hash ∧ pool.contains hash = true := by
  induction removed generalizing pool with
  | nil => simp [Among]
  | cons tx rest ih =>
      simp only [List.foldl_cons, ih, contains_remove, among_cons, not_or, and_assoc]
      exact and_left_comm

theorem contains_update (removed added : List Transaction) :
    (pool.update removed added).1.contains hash = true ↔
      Among added hash ∨ ¬Among removed hash ∧ pool.contains hash = true := by
  simp only [update, contains_addAll, contains_removeAll]

/-- After a change of the canonical chain exactly those transactions are pending that were pending
or left the chain, and did not join it. -/
theorem contains_reconcile (change : HeadChange) :
    (pool.reconcile change).1.contains hash = true ↔
      ¬Block.Carried change.joined hash ∧
        (Block.Carried change.left hash ∨ pool.contains hash = true) := by
  have displaced : Among ((change.left.flatMap (·.transactions)).filter fun tx =>
      decide (¬Block.Carried change.joined tx.hash)) hash ↔
        ¬Block.Carried change.joined hash ∧ Block.Carried change.left hash := by
    rw [among_filter fun hash => ¬Block.Carried change.joined hash, among_flatMap, and_comm]
  simp only [reconcile, Block.any_hash_eq, ← decide_not, contains_update, displaced, among_flatMap,
    ← and_or_left]

/-- Only transactions that were offered are given as new. -/
theorem mem_of_mem_addAll {pool : Mempool} {added : List Transaction} {tx : Transaction}
    (new : tx ∈ (pool.addAll added).2) : tx ∈ added := by
  induction added generalizing pool with
  | nil => exact new
  | cons first rest ih =>
      simp only [addAll] at new
      split at new
      case isTrue =>
          rcases List.mem_cons.mp new with rfl | later
          · exact List.mem_cons_self
          · exact List.mem_cons_of_mem _ (ih later)
      case isFalse => exact List.mem_cons_of_mem _ (ih new)

/-- What comes back was in a block that leaves and is in none that joins. -/
theorem carried_of_mem_reconcile {pool : Mempool} {change : HeadChange} {tx : Transaction}
    (back : tx ∈ (pool.reconcile change).2) :
    (∃ block ∈ change.left, tx ∈ block.transactions) ∧ ¬Block.Carried change.joined tx.hash := by
  have displaced := mem_of_mem_addAll back
  rw [List.mem_filter, List.mem_flatMap, Block.any_hash_eq] at displaced
  simpa using displaced

/-- An empty mempool stays empty if no block leaves the canonical chain. -/
theorem reconcile_empty {change : HeadChange} (stays : change.left = []) :
    (empty.reconcile change).1 = .empty := by
  simp only [reconcile, update, stays, List.flatMap_nil, List.filter_nil, addAll]
  induction change.joined.flatMap (·.transactions) with
  | nil => rfl
  | cons tx rest ih => exact ih

end Mempool

end HeaviestChain
