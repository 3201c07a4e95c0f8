import HeaviestChain.Time
import HeaviestChain.Transaction

/-!
# Execution

The account state lives in an engine outside the chain.  The chain asks it one thing: which state
root follows from executing a list of transactions on a given root.  The engine may change as it
answers, and it may fail.
-/

namespace HeaviestChain

/-- The facts about a block that its transactions can see. -/
structure ExecutionContext where
  /-- The number of the block. -/
  number : UInt64
  /-- When the block was made. -/
  timestamp : Timestamp
  /-- The account paid for the block. -/
  coinbase : Address
  /-- The work the block claims. -/
  difficulty : Difficulty
  deriving DecidableEq

namespace ExecutionContext

/-- The context with the name of its kind and fields. -/
def brief (context : ExecutionContext) : String :=
  Text.fields "ExecutionContext" [("number", toString context.number.toNat),
    ("timestamp", context.timestamp.brief), ("coinbase", context.coinbase.brief),
    ("difficulty", context.difficulty.brief)]

end ExecutionContext

/-- Why a state engine gives no root. -/
inductive StateFault where
  /-- It holds no state for this root. -/
  | rootMissing (root : Root)
  /-- What it keeps the state of this root in does not work. -/
  | rootUnreadable (root : Root)
  /-- What it keeps its state in does not work. -/
  | backend (reason : String)
  /-- A state could not be written or read as bytes. -/
  | serialization (reason : String)
  /-- What it holds contradicts itself. -/
  | corruption (reason : String)
  deriving DecidableEq

namespace StateFault

/-- What is reported about the fault. -/
def message : StateFault → String
  | rootMissing root => s!"state root not found: {root.text}"
  | rootUnreadable root => s!"storage backend error: poisoned state root {root.text}"
  | backend reason => s!"storage backend error: {reason}"
  | serialization reason => s!"serialization error: {reason}"
  | corruption reason => s!"state is corrupted: {reason}"

end StateFault

/-- An engine whose memory is a value of type `σ`. -/
class StateEngine (σ : Type) where
  /-- The root that follows from `transactions` on `parentRoot`, and the engine afterwards. -/
  execute (engine : σ) (parentRoot : Root) (context : ExecutionContext)
    (transactions : List Transaction) : Except StateFault Root × σ

end HeaviestChain
