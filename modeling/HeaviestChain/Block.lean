import HeaviestChain.Execution

/-!
# Blocks

A block is a header with a list of uncle headers and a list of transactions.  The header names its
parent by hash and commits to both lists by a root each; whether the roots fit the lists is not
part of the type, because blocks arrive from peers.  A header carries its own hash, which cannot be
set apart from its content.
-/

namespace HeaviestChain

/-- What a block header says. -/
structure HeaderContent where
  /-- The number of the block. -/
  number : UInt64
  /-- The hash of the block before. -/
  parentHash : BlockHash
  /-- The root over the block's transactions. -/
  transactionsRoot : Root
  /-- The root over the block's uncles. -/
  unclesRoot : Root
  /-- The state after the block. -/
  stateRoot : Root
  /-- When the block was made. -/
  timestamp : Timestamp
  /-- The account paid for the block. -/
  coinbase : Address
  /-- The work the block claims. -/
  difficulty : Difficulty
  deriving DecidableEq

namespace HeaderContent

/-- The bytes that are hashed: every field in order, numbers with the most significant byte
first. -/
def preimage (content : HeaderContent) : Bytes :=
  Bytes.bigEndian 8 content.number.toNat ++ content.parentHash.bytes.toList ++
    content.transactionsRoot.bytes.toList ++ content.unclesRoot.bytes.toList ++
    content.stateRoot.bytes.toList ++ Bytes.bigEndian 8 content.timestamp.seconds.toNat ++
    content.coinbase.bytes.toList ++ Bytes.bigEndian 32 content.difficulty.work.toNat

/-- The hash of all fields. -/
def digest (content : HeaderContent) : BlockHash :=
  ⟨Blake2b.hash content.preimage⟩

end HeaderContent

/-- A header with its hash. -/
structure Header extends HeaderContent where
  /-- The hash by which the block is known. -/
  hash : BlockHash
  /-- It is the hash of the content. -/
  hash_eq : hash = toHeaderContent.digest
  deriving DecidableEq

namespace Header

/-- The header that says `content`. -/
def ofContent (content : HeaderContent) : Header :=
  { content with hash := content.digest, hash_eq := rfl }

@[simp] theorem toHeaderContent_ofContent (content : HeaderContent) :
    (ofContent content).toHeaderContent = content := rfl

@[ext] theorem ext {left right : Header}
    (same : left.toHeaderContent = right.toHeaderContent) : left = right := by
  rcases left with ⟨content, hash, hash_eq⟩
  rcases right with ⟨_, hash', hash_eq'⟩
  cases same
  cases hash_eq
  cases hash_eq'
  rfl

@[simp] theorem ofContent_toHeaderContent (header : Header) :
    ofContent header.toHeaderContent = header :=
  ext rfl

/-- A line about the header for people. -/
def brief (header : Header) : String :=
  Text.fields "BlockHeader" [("hash", header.hash.brief),
    ("number", toString header.number.toNat), ("parent_hash", header.parentHash.brief),
    ("difficulty", header.difficulty.brief)]

end Header

namespace Root

/-- The root over a list of 32-byte hashes: the hash of all of them in a row. -/
def ofHashes (hashes : List (FixedBytes 32)) : Root :=
  ⟨Blake2b.hash (hashes.flatMap FixedBytes.toList)⟩

/-- The root over a list of transactions. -/
def ofTransactions (transactions : List Transaction) : Root :=
  ofHashes (transactions.map (·.hash.bytes))

/-- The root over a list of uncle headers. -/
def ofUncles (uncles : List Header) : Root :=
  ofHashes (uncles.map (·.hash.bytes))

end Root

/-- A header with the lists it commits to. -/
structure Block where
  /-- The header. -/
  header : Header
  /-- Headers of blocks that lost the race at their height; they add weight. -/
  uncles : List Header
  /-- The transactions, in the order of execution. -/
  transactions : List Transaction
  deriving DecidableEq

namespace Block

/-- The block with the given parts whose header commits to its lists. -/
def build (number : UInt64) (parentHash : BlockHash) (uncles : List Header)
    (transactions : List Transaction) (stateRoot : Root) (timestamp : Timestamp)
    (coinbase : Address) (difficulty : Difficulty) : Block where
  header := .ofContent
    { number, parentHash, stateRoot, timestamp, coinbase, difficulty
      transactionsRoot := .ofTransactions transactions
      unclesRoot := .ofUncles uncles }
  uncles := uncles
  transactions := transactions

variable (block : Block)

/-- The hash by which the block is known. -/
def hash : BlockHash := block.header.hash

/-- The number of the block. -/
def number : UInt64 := block.header.number

/-- The hash of the block before. -/
def parentHash : BlockHash := block.header.parentHash

/-- The state after the block. -/
def stateRoot : Root := block.header.stateRoot

/-- A first block has number zero and no parent. -/
def isGenesis : Bool :=
  decide (block.number = 0 ∧ block.parentHash = .zero)

/-- What the block adds to the weight of its chain: its own difficulty and that of its uncles. -/
def localWeight : Difficulty :=
  block.header.difficulty + .sum (block.uncles.map (·.difficulty))

/-- Whether the header commits to the transactions carried. -/
def commitsToTransactions : Bool :=
  decide (block.header.transactionsRoot = .ofTransactions block.transactions)

/-- Whether the header commits to the uncles carried. -/
def commitsToUncles : Bool :=
  decide (block.header.unclesRoot = .ofUncles block.uncles)

/-- What the block's transactions can see of it. -/
def context : ExecutionContext where
  number := block.header.number
  timestamp := block.header.timestamp
  coinbase := block.header.coinbase
  difficulty := block.header.difficulty

/-- A line about the block for people. -/
def brief : String :=
  Text.fields "Block" [("hash", block.hash.brief), ("number", toString block.number.toNat),
    ("parent_hash", block.parentHash.brief),
    ("transactions", toString block.transactions.length),
    ("uncles", toString block.uncles.length)]

end Block

/-- What is chosen about the first block of a chain. -/
structure GenesisSpec where
  /-- The state the chain starts from. -/
  stateRoot : Root := .zero
  /-- The account paid for the block. -/
  coinbase : Address := .zero
  /-- The work the block claims. -/
  difficulty : Difficulty := .one
  /-- When the chain starts. -/
  timestamp : Timestamp := .epoch
  deriving DecidableEq

namespace GenesisSpec

/-- The first block: number zero, no parent, and empty lists. -/
def block (spec : GenesisSpec) : Block :=
  .build 0 .zero [] [] spec.stateRoot spec.timestamp spec.coinbase spec.difficulty

/-- The choice with the name of its kind and fields. -/
def brief (spec : GenesisSpec) : String :=
  Text.fields "GenesisConfig" [("state_root", spec.stateRoot.brief),
    ("coinbase", spec.coinbase.brief), ("difficulty", spec.difficulty.brief),
    ("timestamp", spec.timestamp.brief)]

end GenesisSpec

end HeaviestChain
