import HeaviestChain.Proofs.Mempool.Listing

/-!
# The views of a mempool

The questions to a mempool are answered from different tables: all transactions from the order of
arrival, those of one sender from what is filed under the sender, and both by looking up hashes
without a word about those that are missing.  After any changes all tables tell the same list, so
nothing is missing and the answers agree (`Coherent`).  The transactions of a sender are given by
nonce, and those with one nonce in the order of their arrival (`StablySorted`).
-/

namespace HeaviestChain

/-- A list in a new order: ascending by a key, and entries with the same key as they were. -/
structure StablySorted {α κ : Type} [LE κ] [DecidableEq κ] (key : α → κ) (list sorted : List α) :
    Prop where
  ascending : sorted.Pairwise fun earlier later => key earlier ≤ key later
  stable : ∀ value, sorted.filter (fun entry => decide (key entry = value)) =
    list.filter fun entry => decide (key entry = value)

theorem stablySorted_mergeSort {α : Type} (key : α → UInt64) (list : List α) :
    StablySorted key list
      (list.mergeSort fun earlier later => decide (key earlier ≤ key later)) := by
  have trans (a b c : α) : decide (key a ≤ key b) = true → decide (key b ≤ key c) = true →
      decide (key a ≤ key c) = true := by
    simpa using UInt64.le_trans
  have total (a b : α) : (decide (key a ≤ key b) || decide (key b ≤ key a)) = true := by
    simpa using UInt64.le_total _ _
  constructor
  case ascending => simpa using List.pairwise_mergeSort trans total list
  case stable =>
      intro value
      -- Entries with one key are in order whatever their places, so sorting keeps them as a sublist.
      have equal : (list.filter fun entry => decide (key entry = value)).Pairwise
          fun a b => decide (key a ≤ key b) = true := by
        apply List.Pairwise.imp_of_mem (R := fun _ _ => True)
        · intro a b memA memB _
          simp only [List.mem_filter, decide_eq_true_eq] at memA memB
          simp [memA.2, memB.2]
        · exact List.pairwise_of_forall fun _ _ => trivial
      have sublist := List.sublist_mergeSort trans total equal List.filter_sublist
      have filtered := sublist.filter fun entry => decide (key entry = value)
      simp only [List.filter_filter, Bool.and_self] at filtered
      have sameLength := ((List.mergeSort_perm list fun a b => decide (key a ≤ key b)).filter
        fun entry => decide (key entry = value)).length_eq
      exact (filtered.eq_of_length sameLength.symm).symm

namespace Mempool

/-- The tables of a pool agree with each other and with the list of all transactions. -/
structure Coherent (pool : Mempool) : Prop where
  /-- No hash is listed twice. -/
  nodup_order : pool.order.Nodup
  /-- Listed are the hashes under which there are transactions. -/
  mem_order_iff : ∀ hash, hash ∈ pool.order ↔ ∃ tx, pool.byHash.get? hash = some tx
  /-- A transaction is under its own hash. -/
  hash_eq : ∀ hash tx, pool.byHash.get? hash = some tx → tx.hash = hash
  /-- No listed hash is missing when the transactions are looked up. -/
  hash_transactions : pool.transactions.map (·.hash) = pool.order
  /-- What is filed under a sender is the list of all, as far as it is the sender's. -/
  filedUnder_eq : ∀ sender, pool.filedUnder sender = pool.order.filter fun hash =>
    (pool.byHash.get? hash).any fun tx => decide (tx.sender = sender)
  /-- A sender without transactions is not filed. -/
  filed_ne_nil : ∀ sender, pool.bySender.get? sender ≠ some []
  /-- Each transaction is filed under its own sender only. -/
  mem_filedUnder_iff : ∀ hash tx, pool.byHash.get? hash = some tx →
    ∀ sender, hash ∈ pool.filedUnder sender ↔ sender = tx.sender
  /-- All transactions are counted. -/
  size_eq : pool.size = pool.transactions.length

theorem Lists.coherent {pool : Mempool} {pending : List Transaction} (lists : pool.Lists pending) :
    Coherent pool where
  nodup_order := lists.order ▸ lists.nodup
  mem_order_iff := by simp [lists.order, lists.get?_eq_some_iff]
  hash_eq := fun _ _ found => (lists.get?_eq_some_iff.mp found).2
  hash_transactions := by rw [lists.transactions_eq, lists.order]
  filedUnder_eq := by
    intro sender
    rw [lists.filedUnder_eq, lists.order, List.filter_map]
    congr 1
    apply List.filter_congr
    intro tx mem
    simp [lists.get?_eq_some_iff.mpr ⟨mem, rfl⟩]
  filed_ne_nil := lists.filed_ne_nil
  mem_filedUnder_iff := by
    intro hash tx found sender
    simp only [lists.filedUnder_eq, List.mem_map, List.mem_filter, decide_eq_true_eq]
    constructor
    · rintro ⟨other, ⟨mem, rfl⟩, same⟩
      have found' := lists.get?_eq_some_iff.mpr ⟨mem, same⟩
      rw [found] at found'
      cases found'
      rfl
    · rintro rfl
      rcases lists.get?_eq_some_iff.mp found with ⟨mem, same⟩
      exact ⟨tx, ⟨mem, rfl⟩, same⟩
  size_eq := by rw [lists.size_eq, lists.transactions_eq]

/-- After any changes the tables agree.  The transactions of a sender from a nonce up are those of the
list of all that have this sender and such a nonce, in a stable order by nonce. -/
theorem coherent_applyAll (changes : List Change) :
    let pool := empty.applyAll changes
    pool.Coherent ∧ ∀ sender nonce,
      let asked := pool.transactions.filter fun tx => decide (tx.sender = sender ∧ nonce ≤ tx.nonce)
      pool.sentByFrom sender nonce =
          asked.mergeSort (fun earlier later => decide (earlier.nonce ≤ later.nonce)) ∧
        StablySorted (·.nonce) asked (pool.sentByFrom sender nonce) := by
  intro pool
  have lists : pool.Lists pool.transactions := lists_applyAll changes
  refine ⟨lists.coherent, ?_⟩
  intro sender nonce asked
  have sorted : pool.sentByFrom sender nonce =
      asked.mergeSort fun earlier later => decide (earlier.nonce ≤ later.nonce) := by
    rw [sentByFrom, lists.sentBy_eq, List.filter_filter]
    congr 1
    apply List.filter_congr
    intro tx _
    simp [Bool.and_comm]
  refine ⟨sorted, ?_⟩
  rw [sorted]
  exact stablySorted_mergeSort (·.nonce) asked

end Mempool

end HeaviestChain
