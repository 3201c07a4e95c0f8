import HeaviestChain.BlockTree
import HeaviestChain.Table

/-!
# The mempool

Transactions that wait to be included in a block.  A transaction is known by its hash and pending
at most once.  Three tables are kept in step: the transactions by hash, their hashes in order of
arrival, and their hashes by sender.  Nonces are not judged: several pending transactions of one
sender may carry the same nonce.
-/

namespace HeaviestChain

/-- The pending transactions. -/
structure Mempool where
  /-- The transactions by hash. -/
  byHash : Table TxHash Transaction := .empty
  /-- Their hashes, in order of arrival. -/
  order : List TxHash := []
  /-- Their hashes by sender, in order of arrival. -/
  bySender : Table Address (List TxHash) := .empty

namespace Mempool

/-- The pool without transactions. -/
def empty : Mempool := {}

instance : Inhabited Mempool := ⟨empty⟩

variable (pool : Mempool)

/-! ## Looking things up -/

/-- Whether a transaction with this hash is pending. -/
def contains (hash : TxHash) : Bool := pool.byHash.contains hash

/-- The number of pending transactions. -/
def size : Nat := pool.byHash.size

/-- Whether nothing is pending. -/
def isEmpty : Bool := pool.size == 0

/-- All pending transactions, in order of arrival. -/
def transactions : List Transaction := pool.order.filterMap pool.byHash.get?

/-- The hashes filed under a sender, in order of arrival. -/
def filedUnder (sender : Address) : List TxHash := (pool.bySender.get? sender).getD []

/-- The pending transactions of a sender, in order of arrival. -/
def sentBy (sender : Address) : List Transaction :=
  (pool.filedUnder sender).filterMap pool.byHash.get?

/-- The pending transactions of a sender from a nonce up, by nonce; those that share a nonce are in
order of arrival. -/
def sentByFrom (sender : Address) (nonce : UInt64) : List Transaction :=
  ((pool.sentBy sender).filter fun tx => decide (nonce ≤ tx.nonce)).mergeSort
    fun earlier later => decide (earlier.nonce ≤ later.nonce)

/-- The nonces other than a given one. -/
def without (nonces : List UInt64) (nonce : UInt64) : List UInt64 :=
  nonces.filter fun other => decide (other ≠ nonce)

theorem length_without_lt {nonces : List UInt64} {nonce : UInt64} (occurs : nonce ∈ nonces) :
    (without nonces nonce).length < nonces.length :=
  List.length_filter_lt_length_iff_exists.mpr ⟨nonce, occurs, by simp⟩

/-- The first nonce from `nonce` up that does not occur; the largest nonce has none after it. -/
def firstGap (nonces : List UInt64) (nonce : UInt64) : UInt64 :=
  if _occurs : nonce ∈ nonces then
    match Word64.next? nonce with
    | none => nonce
    | some next => firstGap (without nonces nonce) next
  else nonce
termination_by nonces.length
decreasing_by exact length_without_lt _occurs

/-- The first nonce from `nonce` up under which no transaction of the sender is pending. -/
def nextNonce (sender : Address) (nonce : UInt64) : UInt64 :=
  firstGap ((pool.sentBy sender).map (·.nonce)) nonce

/-! ## Changes -/

/-- Adds a transaction, unless it is pending already.  Says whether it did. -/
def add (tx : Transaction) : Mempool × Bool :=
  if pool.contains tx.hash then (pool, false)
  else
    ({ byHash := pool.byHash.set tx.hash tx
       order := pool.order ++ [tx.hash]
       bySender := pool.bySender.set tx.sender (pool.filedUnder tx.sender ++ [tx.hash]) }, true)

/-- Adds transactions in turn.  Gives those that were not pending. -/
def addAll : Mempool → List Transaction → Mempool × List Transaction
  | pool, [] => (pool, [])
  | pool, tx :: rest =>
      let (pool, isNew) := pool.add tx
      let (pool, added) := addAll pool rest
      (pool, if isNew then tx :: added else added)

/-- What is filed under a sender after the hashes have become `hashes`; a sender without hashes is
not filed. -/
def refile (sender : Address) (hashes : List TxHash) : Table Address (List TxHash) :=
  if hashes.isEmpty then pool.bySender.erase sender else pool.bySender.set sender hashes

/-- Removes the transaction with the same hash.  Says whether there was one. -/
def remove (tx : Transaction) : Mempool × Bool :=
  match pool.byHash.get? tx.hash with
  | none => (pool, false)
  | some pending =>
      let keep (hashes : List TxHash) := hashes.filter fun hash => decide (hash ≠ tx.hash)
      ({ byHash := pool.byHash.erase tx.hash
         order := keep pool.order
         bySender := pool.refile pending.sender (keep (pool.filedUnder pending.sender)) }, true)

/-- Removes some transactions, then adds others.  Gives those that were added. -/
def update (removed added : List Transaction) : Mempool × List Transaction :=
  (removed.foldl (fun pool tx => (pool.remove tx).1) pool).addAll added

/-- Follows a change of the canonical chain: what joined it is no longer pending, and what left it
is pending again unless it joined at the same time.  Gives the transactions that came back. -/
def reconcile (change : HeadChange) : Mempool × List Transaction :=
  let included := change.joined.flatMap (·.transactions)
  let displaced := (change.left.flatMap (·.transactions)).filter fun tx =>
    !(included.any fun other => decide (other.hash = tx.hash))
  pool.update included displaced

end Mempool

end HeaviestChain
