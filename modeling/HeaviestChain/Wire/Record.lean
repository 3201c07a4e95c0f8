import HeaviestChain.Message
import HeaviestChain.Wire.WideNumber

/-!
# Records on the wire

The fields of a record travel one behind the other, in a fixed order.  Hashes of blocks and
transactions do not travel; they are computed from what does.
-/

namespace HeaviestChain

open Wire

namespace Coin

/-- The amount as it travels. -/
def write (amount : Coin) : Bytes := WideNumber.write amount.units

/-- Reads an amount. -/
def read : Reader Coin := Coin.mk <$> WideNumber.read

end Coin

namespace Difficulty

/-- The difficulty as it travels. -/
def write (difficulty : Difficulty) : Bytes := WideNumber.write difficulty.work

/-- Reads a difficulty. -/
def read : Reader Difficulty := Difficulty.mk <$> WideNumber.read

end Difficulty

namespace Timestamp

/-- The moment as it travels. -/
def write (moment : Timestamp) : Bytes := word64 moment.seconds

/-- Reads a moment. -/
def read : Reader Timestamp := Timestamp.mk <$> Reader.word64

end Timestamp

namespace NetworkId

/-- The network as it travels. -/
def write (network : NetworkId) : Bytes := word32 network.number

/-- Reads a network. -/
def read : Reader NetworkId := NetworkId.mk <$> Reader.word32

end NetworkId

namespace Root

/-- Reads a root. -/
def read : Reader Root := Root.mk <$> Reader.fixed 32

end Root

namespace BlockHash

/-- Reads the hash of a block. -/
def read : Reader BlockHash := BlockHash.mk <$> Reader.fixed 32

end BlockHash

namespace TxHash

/-- Reads the hash of a transaction. -/
def read : Reader TxHash := TxHash.mk <$> Reader.fixed 32

end TxHash

namespace Address

/-- Reads an address. -/
def read : Reader Address := Address.mk <$> Reader.fixed 20

end Address

namespace PeerId

/-- Reads the name of a peer. -/
def read : Reader PeerId := PeerId.mk <$> Reader.fixed 32

end PeerId

namespace Transaction

/-- The transaction as it travels. -/
def write (tx : Transaction) : Bytes :=
  tx.sender.bytes.toList ++ tx.receiver.bytes.toList ++ tx.value.write ++ word64 tx.nonce ++
    (byteVector tx.data ++ (word64 tx.gas ++ tx.gasPrice.write))

/-- Reads a transaction. -/
def read : Reader Transaction := do
  let sender ← Address.read
  let receiver ← Address.read
  let value ← Coin.read
  let nonce ← Reader.word64
  let data ← Reader.byteVector
  let gas ← Reader.word64
  let gasPrice ← Coin.read
  pure (.ofContent { sender, receiver, value, nonce, data, gas, gasPrice })

end Transaction

namespace Header

/-- The header as it travels. -/
def write (header : Header) : Bytes :=
  word64 header.number ++ header.parentHash.bytes.toList ++
    header.transactionsRoot.bytes.toList ++ header.unclesRoot.bytes.toList ++
    header.stateRoot.bytes.toList ++ header.timestamp.write ++ header.coinbase.bytes.toList ++
    header.difficulty.write

/-- Reads a header. -/
def read : Reader Header := do
  let number ← Reader.word64
  let parentHash ← BlockHash.read
  let transactionsRoot ← Root.read
  let unclesRoot ← Root.read
  let stateRoot ← Root.read
  let timestamp ← Timestamp.read
  let coinbase ← Address.read
  let difficulty ← Difficulty.read
  pure (.ofContent
    { number, parentHash, transactionsRoot, unclesRoot, stateRoot, timestamp, coinbase,
      difficulty })

end Header

namespace Block

/-- The block as it travels. -/
def write (block : Block) : Bytes :=
  block.header.write ++
    (list Header.write block.uncles ++ list Transaction.write block.transactions)

/-- Reads a block. -/
def read : Reader Block := do
  let header ← Header.read
  let uncles ← Reader.list Header.read
  let transactions ← Reader.list Transaction.read
  pure { header, uncles, transactions }

end Block

namespace Status

/-- The status as it travels. -/
def write (status : Status) : Bytes :=
  status.peer.bytes.toList ++ status.network.write ++ word64 status.best

/-- Reads a status. -/
def read : Reader Status := do
  let peer ← PeerId.read
  let network ← NetworkId.read
  let best ← Reader.word64
  pure { peer, network, best }

end Status

namespace GenesisSpec

/-- The choice as it travels. -/
def write (spec : GenesisSpec) : Bytes :=
  spec.stateRoot.bytes.toList ++ spec.coinbase.bytes.toList ++ spec.difficulty.write ++
    spec.timestamp.write

/-- Reads a choice. -/
def read : Reader GenesisSpec := do
  let stateRoot ← Root.read
  let coinbase ← Address.read
  let difficulty ← Difficulty.read
  let timestamp ← Timestamp.read
  pure { stateRoot, coinbase, difficulty, timestamp }

end GenesisSpec

namespace ExecutionContext

/-- The context as it travels. -/
def write (context : ExecutionContext) : Bytes :=
  word64 context.number ++ context.timestamp.write ++ context.coinbase.bytes.toList ++
    context.difficulty.write

/-- Reads a context. -/
def read : Reader ExecutionContext := do
  let number ← Reader.word64
  let timestamp ← Timestamp.read
  let coinbase ← Address.read
  let difficulty ← Difficulty.read
  pure { number, timestamp, coinbase, difficulty }

end ExecutionContext

end HeaviestChain
