import HeaviestChain.Bytes

/-!
# Identities

The names by which blocks, transactions, states, accounts and peers are known.  Each is a fixed
byte string of its own kind, with a full text and a brief one for people.
-/

namespace HeaviestChain

/-- A state root, or a root over the hashes of a block's parts. -/
structure Root where
  /-- The 32 bytes. -/
  bytes : FixedBytes 32
  deriving DecidableEq

/-- The hash of a block header, which names the block. -/
structure BlockHash where
  /-- The 32 bytes. -/
  bytes : FixedBytes 32
  deriving DecidableEq

/-- The hash of a transaction, which names it. -/
structure TxHash where
  /-- The 32 bytes. -/
  bytes : FixedBytes 32
  deriving DecidableEq

/-- The account that sends, receives or is paid for a block. -/
structure Address where
  /-- The 20 bytes. -/
  bytes : FixedBytes 20
  deriving DecidableEq

/-- The name of a peer. -/
structure PeerId where
  /-- The 32 bytes. -/
  bytes : FixedBytes 32
  deriving DecidableEq

/-- The number of a network; peers of other networks are not followed. -/
structure NetworkId where
  /-- The number. -/
  number : UInt32
  deriving DecidableEq

namespace Root

/-- The root of all zeros. -/
def zero : Root := ⟨.zero 32⟩

/-- All bytes in hexadecimal. -/
def text (root : Root) : String := root.bytes.toHex

/-- The kind and the first four bytes. -/
def brief (root : Root) : String := s!"Hash({root.bytes.headHex 4})"

end Root

namespace BlockHash

/-- The hash of all zeros, which stands for the missing parent of a first block. -/
def zero : BlockHash := ⟨.zero 32⟩

instance : Ord BlockHash := ⟨fun left right => left.bytes.compare right.bytes⟩

/-- All bytes in hexadecimal. -/
def text (hash : BlockHash) : String := hash.bytes.toHex

/-- The kind and the first four bytes, with a sign that there are more. -/
def brief (hash : BlockHash) : String := s!"BlockHash({hash.bytes.headHex 4}…)"

end BlockHash

namespace TxHash

/-- The hash of all zeros. -/
def zero : TxHash := ⟨.zero 32⟩

/-- All bytes in hexadecimal. -/
def text (hash : TxHash) : String := hash.bytes.toHex

/-- The kind and the first four bytes. -/
def brief (hash : TxHash) : String := s!"TxHash({hash.bytes.headHex 4})"

end TxHash

namespace Address

/-- The address of all zeros. -/
def zero : Address := ⟨.zero 20⟩

instance : Ord Address := ⟨fun left right => left.bytes.compare right.bytes⟩

/-- All bytes in hexadecimal, marked as hexadecimal. -/
def text (address : Address) : String := s!"0x{address.bytes.toHex}"

/-- The kind and the first four bytes, with a sign that there are more. -/
def brief (address : Address) : String := s!"Address(0x{address.bytes.headHex 4}…)"

end Address

namespace PeerId

instance : Ord PeerId := ⟨fun left right => left.bytes.compare right.bytes⟩

/-- The first eight bytes in hexadecimal. -/
def text (peer : PeerId) : String := peer.bytes.headHex 8

/-- The kind and the first four bytes. -/
def brief (peer : PeerId) : String := s!"PeerId({peer.bytes.headHex 4})"

end PeerId

namespace NetworkId

/-- The network that a node belongs to unless it is told otherwise. -/
def mainnet : NetworkId := ⟨1⟩

instance : Inhabited NetworkId := ⟨mainnet⟩

/-- The number in decimal. -/
def text (network : NetworkId) : String := toString network.number.toNat

/-- The number with the name of its kind. -/
def brief (network : NetworkId) : String := s!"NetworkId({network.text})"

end NetworkId

end HeaviestChain
