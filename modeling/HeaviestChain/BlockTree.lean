import HeaviestChain.Block
import HeaviestChain.NumberIndex

/-!
# The block tree

All connected blocks, the canonical chain among them, and its head.  A block joins the tree only
after its parent; the first one has to be a genesis block.  The weight of a block is the sum of
the local weights along its chain, and the head is the block that came first among those of the
greatest weight.  When the head moves to another branch, the canonical index is cut at the highest
common block and extended along the new branch.

The tree does not look at block numbers: that a number follows the parent's is checked before.
-/

namespace HeaviestChain

/-- A connected block with the weight of the chain that ends at it. -/
structure StoredBlock where
  /-- The block. -/
  block : Block
  /-- The sum of the local weights from the first block to this one. -/
  totalWeight : Difficulty
  deriving DecidableEq

/-- The end of the canonical chain. -/
structure ChainHead where
  /-- The hash of the block. -/
  hash : BlockHash
  /-- Its number. -/
  number : UInt64
  /-- The weight of the chain that ends at it. -/
  weight : Difficulty
  deriving DecidableEq

/-- How the canonical chain changes when the head moves. -/
structure HeadChange where
  /-- The blocks that join the chain, oldest first; the last one is the new head. -/
  joined : List Block
  /-- The blocks that leave the chain, lowest number first. -/
  left : List Block
  deriving DecidableEq

/-- What became of a block that was offered to the tree. -/
inductive Attachment where
  /-- It is in the tree already. -/
  | alreadyStored
  /-- Its parent is not in the tree. -/
  | parentMissing
  /-- It is in the tree now, and the head stays. -/
  | sideBranch
  /-- It is in the tree now and is the new head. -/
  | newHead (change : HeadChange)
  deriving DecidableEq

namespace Attachment

/-- Whether the block is in the tree afterwards. -/
def isInTree : Attachment → Bool
  | parentMissing => false
  | _ => true

end Attachment

/-- All connected blocks and the canonical chain. -/
structure BlockTree where
  /-- The blocks, newest first: a block's parent is further down the list. -/
  stored : List StoredBlock := []
  /-- The canonical chain. -/
  index : NumberIndex := []
  /-- The end of the canonical chain; there is none before the first block. -/
  head : Option ChainHead := none
  deriving DecidableEq

namespace BlockTree

/-- The tree without blocks. -/
def empty : BlockTree := {}

instance : Inhabited BlockTree := ⟨empty⟩

variable (tree : BlockTree)

/-! ## Looking things up -/

/-- The entry of the block with this hash. -/
def find? (hash : BlockHash) : Option StoredBlock :=
  tree.stored.find? fun entry => decide (entry.block.hash = hash)

/-- The block with this hash. -/
def block? (hash : BlockHash) : Option Block :=
  (tree.find? hash).map (·.block)

/-- Whether a block with this hash is connected. -/
def contains (hash : BlockHash) : Bool :=
  (tree.find? hash).isSome

/-- The weight of the chain that ends at the block with this hash. -/
def weight? (hash : BlockHash) : Option Difficulty :=
  (tree.find? hash).map (·.totalWeight)

/-- The number of connected blocks, on the canonical chain or not. -/
def count : Nat := tree.stored.length

/-- Whether nothing is connected yet. -/
def isEmpty : Bool := tree.stored.isEmpty

/-- The canonical block with this number. -/
def blockAt? (number : UInt64) : Option Block :=
  (tree.index.get? number).bind tree.block?

/-- The head's block. -/
def best? : Option Block :=
  tree.head.bind fun head => tree.block? head.hash

/-- The head's number. -/
def bestNumber? : Option UInt64 := tree.head.map (·.number)

/-- The head's hash. -/
def bestHash? : Option BlockHash := tree.head.map (·.hash)

/-- The head's weight. -/
def bestWeight? : Option Difficulty := tree.head.map (·.weight)

/-- Whether the index has the block under its own number. -/
def isIndexed (block : Block) : Bool :=
  decide (tree.index.get? block.number = some block.hash)

/-- Whether the block with this hash is connected and on the canonical chain. -/
def isCanonical (hash : BlockHash) : Bool :=
  (tree.block? hash).any tree.isIndexed

/-! ## Branches -/

/-- The chain that ends at the block with this hash, newest block first.  A parent is looked for
among the older blocks only, because no block is older than its parent. -/
def ancestry : List StoredBlock → BlockHash → List Block
  | [], _ => []
  | entry :: older, hash =>
      if entry.block.hash = hash then
        entry.block ::
          if entry.block.isGenesis then [] else ancestry older entry.block.parentHash
      else ancestry older hash

/-- The chain that ends at the block with this hash, newest block first. -/
def chainTo (hash : BlockHash) : List Block :=
  ancestry tree.stored hash

/-! ## Moving the head -/

/-- The index entries from `number` up, as blocks. -/
def indexedFrom (number : UInt64) : List Block :=
  (tree.index.upFrom number).filterMap fun entry => tree.block? entry.2

/-- Makes a connected block the head.  The new part of the chain reaches from the head down to the
first block that is canonical already; the index keeps what is not above that block. -/
def moveHead (head : ChainHead) : BlockTree × HeadChange :=
  let chain := tree.chainTo head.hash
  let joined := (chain.takeWhile fun block => !tree.isIndexed block).reverse
  let fork := (chain.find? tree.isIndexed).map (·.number)
  let firstReplaced := (fork.map (· + 1)).getD 0
  let index := joined.foldl (fun index block => index.put block.number block.hash)
    (tree.index.below firstReplaced)
  ({ tree with index, head := some head }, { joined, left := tree.indexedFrom firstReplaced })

/-! ## Adding a block -/

/-- The weight below a block that can be added: none for the first block, else its parent's. -/
def weightBelow? (block : Block) : Option Difficulty :=
  if tree.isEmpty && block.isGenesis then some .zero else tree.weight? block.parentHash

/-- Adds a block whose parent is connected, and moves the head to it if its chain is heavier than
every other one. -/
def attach (block : Block) : BlockTree × Attachment :=
  if tree.contains block.hash then (tree, .alreadyStored)
  else
    match tree.weightBelow? block with
    | none => (tree, .parentMissing)
    | some below =>
        let totalWeight := below + block.localWeight
        let grown := { tree with stored := ⟨block, totalWeight⟩ :: tree.stored }
        if tree.head.all fun head => decide (head.weight < totalWeight) then
          let (moved, change) := grown.moveHead ⟨block.hash, block.number, totalWeight⟩
          (moved, .newHead change)
        else (grown, .sideBranch)

end BlockTree

end HeaviestChain
