import HeaviestChain.Proofs.Mempool
import Mathlib.Data.List.Perm.Basic

/-!
# The list of what is pending

A mempool keeps three tables, but it stands for one list: the pending transactions in order of
arrival, no two of them with the same hash.  `Lists` says that all three tables tell the same list.
Every change of the pool is a change of that list: an arrival is put at the end, a removal leaves
the others in their order.  So after any changes it can be said exactly what is pending when some
transactions have been replaced by others, and in which order.
-/

namespace HeaviestChain

namespace Transaction

/-- The transactions of a list without those whose hash has occurred before. -/
def firstOfEach (transactions : List Transaction) : List Transaction :=
  transactions.eraseDupsBy fun later earlier => decide (later.hash = earlier.hash)

theorem firstOfEach_cons (tx : Transaction) (rest : List Transaction) :
    firstOfEach (tx :: rest) =
      tx :: firstOfEach (rest.filter fun other => decide (other.hash ≠ tx.hash)) := by
  simp [firstOfEach, List.eraseDupsBy_cons]

end Transaction

namespace Mempool

open Transaction (Among among_append among_cons among_filter among_flatMap among_singleton
  firstOfEach firstOfEach_cons)

open Block (Carried any_hash_eq)

/-! ## One list -/

/-- The tables of a pool tell this list of pending transactions, in order of arrival. -/
structure Lists (pool : Mempool) (pending : List Transaction) : Prop where
  nodup : (pending.map (·.hash)).Nodup
  order : pool.order = pending.map (·.hash)
  get?_eq_some_iff : ∀ {hash tx}, pool.byHash.get? hash = some tx ↔ tx ∈ pending ∧ tx.hash = hash
  filedUnder_eq : ∀ sender, pool.filedUnder sender =
    (pending.filter fun tx => decide (tx.sender = sender)).map (·.hash)
  filed_ne_nil : ∀ sender, pool.bySender.get? sender ≠ some []

variable {pool : Mempool} {pending : List Transaction}

theorem getD_refile (sender other : Address) (hashes : List TxHash) :
    ((pool.refile sender hashes).get? other).getD [] =
      if other = sender then hashes else pool.filedUnder other := by
  rw [refile]
  split
  case isTrue empty =>
      rw [List.isEmpty_iff] at empty
      rw [Table.get?_erase]
      split
      case isTrue => simp [empty]
      case isFalse => rfl
  case isFalse =>
      rw [Table.get?_set]
      split
      case isTrue => rfl
      case isFalse => rfl

theorem refile_ne_nil {sender : Address} {hashes : List TxHash}
    (nonempty : ∀ other, pool.bySender.get? other ≠ some []) (other : Address) :
    (pool.refile sender hashes).get? other ≠ some [] := by
  rw [refile]
  split
  case isTrue =>
      rw [Table.get?_erase]
      split
      case isTrue => simp
      case isFalse => exact nonempty other
  case isFalse full =>
      rw [Table.get?_set]
      split
      case isTrue => simpa using full
      case isFalse => exact nonempty other

theorem lists_empty : empty.Lists [] where
  nodup := List.nodup_nil
  order := rfl
  get?_eq_some_iff := by simp [empty]
  filedUnder_eq := fun _ => rfl
  filed_ne_nil := fun _ => nofun

namespace Lists

theorem contains_iff (lists : pool.Lists pending) {hash : TxHash} :
    pool.contains hash = true ↔ Among pending hash := by
  simp only [contains, Table.contains, Option.isSome_iff_exists, lists.get?_eq_some_iff, Among]

theorem filterMap_get? (lists : pool.Lists pending) {some : List Transaction}
    (known : ∀ tx ∈ some, tx ∈ pending) :
    (some.map (·.hash)).filterMap pool.byHash.get? = some := by
  rw [List.filterMap_map]
  calc some.filterMap (pool.byHash.get? ∘ (·.hash))
      = some.filterMap Option.some := by
        apply List.filterMap_congr
        intro tx mem
        exact lists.get?_eq_some_iff.mpr ⟨known tx mem, rfl⟩
    _ = some := List.filterMap_some

theorem transactions_eq (lists : pool.Lists pending) : pool.transactions = pending := by
  rw [transactions, lists.order]
  exact lists.filterMap_get? fun _ mem => mem

theorem sentBy_eq (lists : pool.Lists pending) (sender : Address) :
    pool.sentBy sender = pending.filter fun tx => decide (tx.sender = sender) := by
  rw [sentBy, lists.filedUnder_eq]
  exact lists.filterMap_get? fun _ mem => List.mem_of_mem_filter mem

/-- Both sides list every hash once. -/
theorem size_eq (lists : pool.Lists pending) : pool.size = pending.length := by
  have same : pool.byHash.keys.Perm (pending.map (·.hash)) := by
    apply (List.perm_ext_iff_of_nodup pool.byHash.nodup_keys lists.nodup).mpr
    intro hash
    rw [← Table.keys, ← Table.contains_iff, ← contains, lists.contains_iff]
    simp [Among]
  simpa [size, Table.size, Table.keys] using same.length_eq

/-! ## One change -/

theorem add_of_pending (lists : pool.Lists pending) {tx : Transaction}
    (known : Among pending tx.hash) : pool.add tx = (pool, false) := by
  simp [add, lists.contains_iff.mpr known]

theorem add (lists : pool.Lists pending) {tx : Transaction} (new : ¬Among pending tx.hash) :
    (pool.add tx).2 = true ∧ (pool.add tx).1.Lists (pending ++ [tx]) := by
  have absent : ¬pool.contains tx.hash = true := fun known => new (lists.contains_iff.mp known)
  rw [Mempool.add, if_neg absent]
  refine ⟨rfl, ?_⟩
  constructor
  case nodup =>
      simp only [List.map_append, List.nodup_append, lists.nodup, true_and]
      simp only [Among, not_exists, not_and] at new
      simpa using new
  case order => simp [lists.order]
  case get?_eq_some_iff =>
      intro hash other
      simp only [Table.get?_set, List.mem_append, List.mem_singleton]
      split
      case isTrue here =>
          subst here
          simp only [Option.some.injEq]
          constructor
          · rintro rfl
            exact ⟨.inr rfl, rfl⟩
          · rintro ⟨old | rfl, same⟩
            · exact absurd ⟨other, old, same⟩ new
            · rfl
      case isFalse elsewhere =>
          rw [lists.get?_eq_some_iff]
          constructor
          · rintro ⟨mem, same⟩
            exact ⟨.inl mem, same⟩
          · rintro ⟨old | rfl, same⟩
            · exact ⟨old, same⟩
            · exact absurd same.symm elsewhere
  case filedUnder_eq =>
      intro sender
      change ((pool.bySender.set tx.sender _).get? sender).getD [] = _
      rw [Table.get?_set, List.filter_append, List.map_append, ← lists.filedUnder_eq]
      split
      case isTrue here => simp [here]
      case isFalse elsewhere =>
          have other : tx.sender ≠ sender := Ne.symm elsewhere
          simp [other, filedUnder]
  case filed_ne_nil =>
      intro sender
      simp only [Table.get?_set]
      split
      case isTrue => simp
      case isFalse => exact lists.filed_ne_nil sender

theorem remove (lists : pool.Lists pending) (tx : Transaction) :
    (pool.remove tx).1.Lists (pending.filter fun other => decide (other.hash ≠ tx.hash)) := by
  have keep (some : List Transaction) :
      (some.map (·.hash)).filter (fun hash => decide (hash ≠ tx.hash)) =
        (some.filter fun other => decide (other.hash ≠ tx.hash)).map (·.hash) := by
    rw [List.filter_map]
    rfl
  simp only [Mempool.remove]
  split
  case h_1 missing =>
      have absent : ∀ other ∈ pending, other.hash ≠ tx.hash := by
        intro other mem same
        simp [lists.get?_eq_some_iff.mpr ⟨mem, same⟩] at missing
      have untouched : (pending.filter fun other => decide (other.hash ≠ tx.hash)) = pending := by
        simpa using absent
      rw [untouched]
      exact lists
  case h_2 old found =>
      rw [lists.get?_eq_some_iff] at found
      constructor
      case nodup => exact (List.filter_sublist.map _).nodup lists.nodup
      case order => rw [lists.order, keep]
      case get?_eq_some_iff =>
          intro hash other
          rw [Table.get?_erase]
          split
          case isTrue here => simp [here]
          case isFalse elsewhere =>
              rw [lists.get?_eq_some_iff, List.mem_filter, decide_eq_true_eq]
              constructor
              · rintro ⟨mem, rfl⟩
                exact ⟨⟨mem, elsewhere⟩, rfl⟩
              · rintro ⟨⟨mem, _⟩, same⟩
                exact ⟨mem, same⟩
      case filedUnder_eq =>
          intro sender
          change ((pool.refile old.sender _).get? sender).getD [] = _
          rw [getD_refile]
          split
          case isTrue here =>
              rw [lists.filedUnder_eq, keep, here]
              simp only [List.filter_filter, Bool.and_comm]
          case isFalse elsewhere =>
              rw [lists.filedUnder_eq, List.filter_filter]
              congr 1
              apply List.filter_congr
              intro other mem
              by_cases own : other.sender = sender
              · have apart : other.hash ≠ tx.hash := by
                  intro same
                  have found' := lists.get?_eq_some_iff.mpr ⟨mem, same⟩
                  rw [lists.get?_eq_some_iff.mpr found] at found'
                  cases found'
                  exact elsewhere own.symm
                simp [apart]
              · simp [own]
      case filed_ne_nil => exact refile_ne_nil lists.filed_ne_nil

/-! ## Several changes -/

/-- What arrives is put at the end, unless its hash is pending or has arrived before. -/
theorem addAll (lists : pool.Lists pending) (added : List Transaction) :
    let fresh := firstOfEach (added.filter fun tx => decide (¬Among pending tx.hash))
    (pool.addAll added).1.Lists (pending ++ fresh) ∧ (pool.addAll added).2 = fresh := by
  induction added generalizing pool pending with
  | nil => simpa [Mempool.addAll, firstOfEach] using lists
  | cons tx rest ih =>
      simp only [Mempool.addAll, List.filter_cons]
      by_cases known : Among pending tx.hash
      · simpa [lists.add_of_pending known, known] using ih lists
      · rcases lists.add known with ⟨isNew, grown⟩
        have later : (rest.filter fun other => decide (¬Among (pending ++ [tx]) other.hash)) =
            (rest.filter fun other => decide (¬Among pending other.hash)).filter
              fun other => decide (other.hash ≠ tx.hash) := by
          rw [List.filter_filter]
          apply List.filter_congr
          intro other _
          simp [among_append, among_singleton, Bool.and_comm, eq_comm]
        rcases ih grown with ⟨last, given⟩
        rw [later] at last given
        simp only [isNew, if_true, known, not_false_eq_true, decide_true, firstOfEach_cons]
        rw [given]
        exact ⟨by simpa using last, rfl⟩

theorem removeAll (lists : pool.Lists pending) (removed : List Transaction) :
    (removed.foldl (fun pool tx => (pool.remove tx).1) pool).Lists
      (pending.filter fun tx => decide (¬Among removed tx.hash)) := by
  induction removed generalizing pool pending with
  | nil => simpa [Among] using lists
  | cons tx rest ih =>
      have both : (pending.filter fun other => decide (¬Among (tx :: rest) other.hash)) =
          (pending.filter fun other => decide (other.hash ≠ tx.hash)).filter
            fun other => decide (¬Among rest other.hash) := by
        rw [List.filter_filter]
        apply List.filter_congr
        intro other _
        simp [among_cons, Bool.and_comm, eq_comm]
      rw [both]
      exact ih (lists.remove tx)

theorem update (lists : pool.Lists pending) (removed added : List Transaction) :
    let stay := pending.filter fun tx => decide (¬Among removed tx.hash)
    let fresh := firstOfEach (added.filter fun tx => decide (¬Among stay tx.hash))
    (pool.update removed added).1.Lists (stay ++ fresh) ∧ (pool.update removed added).2 = fresh :=
  (lists.removeAll removed).addAll added

theorem reconcile (lists : pool.Lists pending) (change : HeadChange) :
    let stay := pending.filter fun tx => decide (¬Carried change.joined tx.hash)
    let back := firstOfEach ((change.left.flatMap (·.transactions)).filter fun tx =>
      decide (¬Carried change.joined tx.hash ∧ ¬Among pending tx.hash))
    (pool.reconcile change).1.Lists (stay ++ back) ∧ (pool.reconcile change).2 = back := by
  intro stay back
  have updated := lists.update (change.joined.flatMap (·.transactions))
    ((change.left.flatMap (·.transactions)).filter fun tx => !decide (Carried change.joined tx.hash))
  have staying : (pending.filter fun tx =>
      decide (¬Among (change.joined.flatMap (·.transactions)) tx.hash)) = stay := by
    simp only [stay, among_flatMap]
  have amongStay {hash : TxHash} :
      Among stay hash ↔ Among pending hash ∧ ¬Carried change.joined hash :=
    among_filter fun hash => ¬Carried change.joined hash
  have returning : (((change.left.flatMap (·.transactions)).filter fun tx =>
      !decide (Carried change.joined tx.hash)).filter fun tx => decide (¬Among stay tx.hash)) =
        (change.left.flatMap (·.transactions)).filter fun tx =>
          decide (¬Carried change.joined tx.hash ∧ ¬Among pending tx.hash) := by
    rw [List.filter_filter]
    apply List.filter_congr
    intro tx _
    by_cases joined : Carried change.joined tx.hash
    · simp [joined]
    · simp [joined, amongStay]
  simp only [staying, returning] at updated
  simpa only [Mempool.reconcile, any_hash_eq] using updated

end Lists

/-! ## Runs of changes -/

/-- What can be done to a pool. -/
inductive Change where
  | add (tx : Transaction)
  | remove (tx : Transaction)
  | update (removed added : List Transaction)
  | reconcile (change : HeadChange)

/-- The pool after a change. -/
def apply (pool : Mempool) : Change → Mempool
  | .add tx => (pool.add tx).1
  | .remove tx => (pool.remove tx).1
  | .update removed added => (pool.update removed added).1
  | .reconcile change => (pool.reconcile change).1

/-- The pool after changes in a row. -/
def applyAll (pool : Mempool) (changes : List Change) : Mempool :=
  changes.foldl apply pool

theorem Lists.exists_apply (lists : pool.Lists pending) (change : Change) :
    ∃ next, (pool.apply change).Lists next := by
  cases change with
  | add tx =>
      by_cases known : Among pending tx.hash
      · exact ⟨pending, by simpa [apply, lists.add_of_pending known] using lists⟩
      · exact ⟨_, (lists.add known).2⟩
  | remove tx => exact ⟨_, lists.remove tx⟩
  | update removed added => exact ⟨_, (lists.update removed added).1⟩
  | reconcile change => exact ⟨_, (lists.reconcile change).1⟩

theorem Lists.exists_applyAll (lists : pool.Lists pending) (changes : List Change) :
    ∃ last, (pool.applyAll changes).Lists last := by
  induction changes generalizing pool pending with
  | nil => exact ⟨pending, lists⟩
  | cons change rest ih =>
      rcases lists.exists_apply change with ⟨next, applied⟩
      exact ih applied

/-- After any changes the tables tell one list. -/
theorem lists_applyAll (changes : List Change) :
    (empty.applyAll changes).Lists (empty.applyAll changes).transactions := by
  suffices one : ∃ pending, (empty.applyAll changes).Lists pending by
    rcases one with ⟨pending, lists⟩
    rwa [lists.transactions_eq]
  exact lists_empty.exists_applyAll changes

/-- What is pending, and in which order, when a pool after any changes follows a change of the
canonical chain or replaces some transactions by others.  Those that stay keep their order; behind
them come those that are new, each where its hash occurs first, and these are what is given. -/
theorem transactions_reconcile_update (changes : List Change) :
    let pool := empty.applyAll changes
    (∀ change : HeadChange,
      let stay := pool.transactions.filter fun tx => decide (¬Carried change.joined tx.hash)
      let back := firstOfEach ((change.left.flatMap (·.transactions)).filter fun tx =>
        decide (¬Carried change.joined tx.hash ∧ ¬Among pool.transactions tx.hash))
      (pool.reconcile change).1.transactions = stay ++ back ∧ (pool.reconcile change).2 = back) ∧
    ∀ removed added : List Transaction,
      let stay := pool.transactions.filter fun tx => decide (¬Among removed tx.hash)
      let fresh := firstOfEach (added.filter fun tx => decide (¬Among stay tx.hash))
      (pool.update removed added).1.transactions = stay ++ fresh ∧
        (pool.update removed added).2 = fresh := by
  intro pool
  have lists : pool.Lists pool.transactions := lists_applyAll changes
  constructor
  · intro change stay back
    rcases lists.reconcile change with ⟨after, given⟩
    exact ⟨after.transactions_eq, given⟩
  · intro removed added stay fresh
    rcases lists.update removed added with ⟨after, given⟩
    exact ⟨after.transactions_eq, given⟩

end Mempool

end HeaviestChain
