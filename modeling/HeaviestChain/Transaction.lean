import HeaviestChain.Amount
import HeaviestChain.Blake2b
import HeaviestChain.Identity
import HeaviestChain.Text.Shown

/-!
# Transactions

A transaction is its content together with the hash of that content, by which it is known.  The
hash cannot be set apart from the content.
-/

namespace HeaviestChain

/-- What a transaction says. -/
structure TransactionContent where
  /-- The paying account. -/
  sender : Address
  /-- The paid account. -/
  receiver : Address
  /-- The amount that changes hands. -/
  value : Coin
  /-- The sender's count of its own transactions. -/
  nonce : UInt64
  /-- The input of a call. -/
  data : Bytes
  /-- The most gas the execution may use. -/
  gas : UInt64
  /-- The price of a unit of gas. -/
  gasPrice : Coin
  deriving DecidableEq

namespace TransactionContent

/-- The bytes that are hashed: every field in order, numbers with the most significant byte first,
and the data preceded by its length. -/
def preimage (content : TransactionContent) : Bytes :=
  content.sender.bytes.toList ++ content.receiver.bytes.toList ++
    Bytes.bigEndian 32 content.value.units.toNat ++ Bytes.bigEndian 8 content.nonce.toNat ++
    Bytes.bigEndian 8 content.data.length ++ (content.data ++
      (Bytes.bigEndian 8 content.gas.toNat ++ Bytes.bigEndian 32 content.gasPrice.units.toNat))

/-- The hash of all fields. -/
def digest (content : TransactionContent) : TxHash :=
  ⟨Blake2b.hash content.preimage⟩

end TransactionContent

/-- A transaction with its hash. -/
structure Transaction extends TransactionContent where
  /-- The hash by which the transaction is known. -/
  hash : TxHash
  /-- It is the hash of the content. -/
  hash_eq : hash = toTransactionContent.digest
  deriving DecidableEq

namespace Transaction

/-- The transaction that says `content`. -/
def ofContent (content : TransactionContent) : Transaction :=
  { content with hash := content.digest, hash_eq := rfl }

@[simp] theorem toTransactionContent_ofContent (content : TransactionContent) :
    (ofContent content).toTransactionContent = content := rfl

@[ext] theorem ext {left right : Transaction}
    (same : left.toTransactionContent = right.toTransactionContent) : left = right := by
  rcases left with ⟨content, hash, hash_eq⟩
  rcases right with ⟨_, hash', hash_eq'⟩
  cases same
  cases hash_eq
  cases hash_eq'
  rfl

@[simp] theorem ofContent_toTransactionContent (tx : Transaction) :
    ofContent tx.toTransactionContent = tx :=
  ext rfl

/-- The same transaction under another nonce. -/
def withNonce (tx : Transaction) (nonce : UInt64) : Transaction :=
  ofContent { tx.toTransactionContent with nonce }

/-- A line about the transaction for people. -/
def brief (tx : Transaction) : String :=
  Text.fields "Transaction" [("hash", tx.hash.brief), ("sender", tx.sender.brief),
    ("nonce", toString tx.nonce.toNat), ("value", tx.value.brief)]

end Transaction

end HeaviestChain
