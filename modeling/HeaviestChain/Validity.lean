import HeaviestChain.Block

/-!
# Validity

When a block may follow another one.  A body check needs the block alone: its header commits to
the lists it carries.  The full check also compares numbers and asks the state engine for the root
that the block's transactions lead to.
-/

namespace HeaviestChain

/-- What is wrong with a block. -/
inductive BlockFlaw where
  /-- The header commits to other transactions. -/
  | transactionsRoot
  /-- The header commits to other uncles. -/
  | unclesRoot
  /-- The number is not the one after the parent's. -/
  | number
  /-- The transactions lead to another state. -/
  | stateRoot
  deriving DecidableEq

namespace BlockFlaw

/-- What is reported about the flaw. -/
def message : BlockFlaw → String
  | transactionsRoot => "transactions root mismatch"
  | unclesRoot => "uncles root mismatch"
  | number => "number does not follow parent"
  | stateRoot => "state root mismatch"

end BlockFlaw

/-- Why a block is not accepted. -/
inductive LedgerError where
  /-- The block itself is wrong. -/
  | invalidBlock (hash : BlockHash) (flaw : BlockFlaw)
  /-- The state engine failed, which says nothing about the block. -/
  | state (fault : StateFault)
  deriving DecidableEq

namespace LedgerError

/-- What is reported about the error. -/
def message : LedgerError → String
  | invalidBlock hash flaw => s!"invalid block {hash.text}: {flaw.message}"
  | state fault => s!"storage error: {fault.message}"

end LedgerError

namespace Block

/-- The flaw that can be seen in the block alone; the transactions are looked at first. -/
def bodyFlaw? (block : Block) : Option BlockFlaw :=
  if !block.commitsToTransactions then some .transactionsRoot
  else if !block.commitsToUncles then some .unclesRoot
  else none

/-- The check that needs the block alone. -/
def checkBody (block : Block) : Except LedgerError Unit :=
  match block.bodyFlaw? with
  | some flaw => .error (.invalidBlock block.hash flaw)
  | none => .ok ()

/-- The check of a block on its parent.  The engine is asked only about a block with a sound body
and the right number. -/
def checkOn {σ : Type} [StateEngine σ] (block parent : Block) (engine : σ) :
    Except LedgerError Unit × σ :=
  match block.checkBody with
  | .error error => (.error error, engine)
  | .ok () =>
      if block.number ≠ parent.number + 1 then
        (.error (.invalidBlock block.hash .number), engine)
      else
        match StateEngine.execute engine parent.stateRoot block.context block.transactions with
        | (.error fault, engine) => (.error (.state fault), engine)
        | (.ok root, engine) =>
            if root = block.stateRoot then (.ok (), engine)
            else (.error (.invalidBlock block.hash .stateRoot), engine)

end Block

end HeaviestChain
