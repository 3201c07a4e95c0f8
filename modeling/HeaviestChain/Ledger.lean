import HeaviestChain.Event
import HeaviestChain.Mempool
import HeaviestChain.Orphans
import HeaviestChain.Validity

/-!
# The ledger

Admission of blocks.  A delivered block is looked at in stages: is it known, is its body sound, is
its parent connected, does it follow from its parent's state.  A block without a connected parent
waits among the orphans.  A block that passes is connected to the tree, the mempool follows the
change of the canonical chain, and the orphans that waited for the block are looked at next, in the
order in which they arrived, level by level.

When the state engine fails, the delivery stops.  Blocks that were connected stay connected, the
block that was being looked at is gone, and those that were still to be looked at wait again.
-/

namespace HeaviestChain

/-- The chain state of a node: the block tree, what waits to join it, and the state engine. -/
structure Ledger (σ : Type) where
  /-- The connected blocks. -/
  tree : BlockTree := .empty
  /-- The blocks that wait for their parents. -/
  orphans : OrphanBuffer
  /-- The transactions that wait to be included. -/
  pool : Mempool := .empty
  /-- The state engine. -/
  engine : σ

/-- What became of a block that was looked at. -/
inductive Verdict where
  /-- It is connected now. -/
  | connected
  /-- It was known, waits, or is gone. -/
  | settled
  /-- The state engine failed on it. -/
  | faulted (fault : StateFault)
  deriving DecidableEq

/-- The ledger after looking at one block, with what became of the block and what happened. -/
structure Admission (σ : Type) where
  /-- What became of the block. -/
  verdict : Verdict
  /-- What happened, in order. -/
  events : List ChainEvent
  /-- The ledger afterwards. -/
  ledger : Ledger σ

/-- The ledger after a delivery. -/
structure Delivery (σ : Type) where
  /-- The blocks connected by the delivery, in order, or why it stopped. -/
  outcome : Except StateFault (List Block)
  /-- What happened, in order. -/
  events : List ChainEvent
  /-- The ledger afterwards. -/
  ledger : Ledger σ

namespace Ledger

variable {σ : Type}

/-- A ledger without blocks. -/
def empty (engine : σ) (orphanCapacity : Nat) : Ledger σ where
  orphans := { capacity := orphanCapacity }
  engine := engine

/-! ## One block -/

/-- Drops a block that is wrong. -/
def reject (ledger : Ledger σ) (block : Block) (reason : String) : Admission σ where
  verdict := .settled
  events := [.blockRejected block.hash reason]
  ledger := ledger

/-- Lets a block wait for its parent, if there is room and it does not wait already. -/
def park (ledger : Ledger σ) (block : Block) (now : Timestamp) : Admission σ :=
  let (orphans, isNew) := ledger.orphans.hold block now
  { verdict := .settled
    events := if isNew then [.orphanQueued block.hash block.parentHash] else []
    ledger := { ledger with orphans } }

/-- The ledger with a block that was connected, and with what that meant for the canonical chain. -/
def settle (ledger : Ledger σ) (block : Block) (change : Option HeadChange) : Admission σ :=
  let reorganized := match change with
    | some change =>
        if change.left.isEmpty then []
        else [ChainEvent.reorganized block.hash change.joined.length change.left.length]
    | none => []
  let pool := match change with
    | some change => (ledger.pool.reconcile change).1
    | none => ledger.pool
  { verdict := .connected
    events := reorganized ++ [.blockConnected block.hash block.number]
    ledger := { ledger with pool, orphans := (ledger.orphans.take block.hash).2 } }

/-- Connects a block that passed all checks. -/
def connect (ledger : Ledger σ) (block : Block) : Admission σ :=
  match ledger.tree.attach block with
  | (tree, .sideBranch) => settle { ledger with tree } block none
  | (tree, .newHead change) => settle { ledger with tree } block (some change)
  | (tree, _) => { verdict := .settled, events := [], ledger := { ledger with tree } }

/-- The number of blocks that wait for their parents. -/
def parked (ledger : Ledger σ) : Nat := ledger.orphans.filedCount

theorem parked_connect_le (ledger : Ledger σ) (block : Block) :
    (ledger.connect block).ledger.parked ≤ ledger.parked := by
  unfold connect
  split
  case h_1 => exact OrphanBuffer.filedCount_take_le ..
  case h_2 => exact OrphanBuffer.filedCount_take_le ..
  case h_3 => exact Nat.le_refl _

/-! ## Transactions and old orphans -/

/-- Adds a transaction to the mempool.  Says whether it is new. -/
def submit (ledger : Ledger σ) (tx : Transaction) : Ledger σ × Bool :=
  let (pool, isNew) := ledger.pool.add tx
  ({ ledger with pool }, isNew)

/-- Drops the orphans that have waited for `maxAge` seconds or more.  Says how many. -/
def expireOrphans (ledger : Ledger σ) (maxAge : UInt64) (now : Timestamp) : Ledger σ × Nat :=
  let (orphans, dropped) := ledger.orphans.expire maxAge now
  ({ ledger with orphans }, dropped)

/-- Whether the block with this hash is connected or waits for its parent. -/
def knows (ledger : Ledger σ) (hash : BlockHash) : Bool :=
  ledger.tree.contains hash || ledger.orphans.contains hash

/-! ## Looking at a block -/

variable [StateEngine σ]

/-- Looks at one block. -/
def examine (ledger : Ledger σ) (block : Block) (now : Timestamp) : Admission σ :=
  if ledger.tree.contains block.hash then { verdict := .settled, events := [], ledger }
  else
    match block.checkBody with
    | .error error => ledger.reject block error.message
    | .ok () =>
        if block.isGenesis then
          if ledger.tree.isEmpty then ledger.connect block
          else ledger.reject block "chain already has a genesis"
        else
          match ledger.tree.block? block.parentHash with
          | none => ledger.park block now
          | some parent =>
              match block.checkOn parent ledger.engine with
              | (.ok (), engine) => connect { ledger with engine } block
              | (.error (.state fault), engine) =>
                  { verdict := .faulted fault, events := [], ledger := { ledger with engine } }
              | (.error error, engine) => reject { ledger with engine } block error.message

/-! ## A delivery -/

/-- Looking at a block parks at most that block, and none if it is connected. -/
theorem parked_examine_le (ledger : Ledger σ) (block : Block) (now : Timestamp) :
    (ledger.examine block now).ledger.parked ≤ ledger.parked ∨
      (ledger.examine block now).verdict = .settled ∧
        (ledger.examine block now).ledger.parked ≤ ledger.parked + 1 := by
  unfold examine
  split
  case isTrue => exact .inl (Nat.le_refl _)
  case isFalse =>
      split
      case h_1 => exact .inl (Nat.le_refl _)
      case h_2 =>
          split
          case isTrue =>
              split
              case isTrue => exact .inl (parked_connect_le ..)
              case isFalse => exact .inl (Nat.le_refl _)
          case isFalse =>
              split
              case h_1 => exact .inr ⟨rfl, OrphanBuffer.filedCount_hold_le ..⟩
              case h_2 =>
                  split
                  case h_1 => exact .inl (parked_connect_le ..)
                  case h_2 => exact .inl (Nat.le_refl _)
                  case h_3 => exact .inl (Nat.le_refl _)

/-- A measure of the work left when some blocks are parked and some are queued.  A queued block can
be parked, which keeps their sum and shortens the queue; or it is done with, which lowers the sum
even if parked blocks join the queue. -/
def workload (parked queued : Nat) : Nat :=
  (parked + queued) * (parked + queued) + queued

theorem workload_lt_of_settled {parked parked' queued : Nat} (few : parked' ≤ parked + 1) :
    workload parked' queued < workload parked (queued + 1) := by
  have sums : parked' + queued ≤ parked + (queued + 1) := by omega
  have squares := Nat.mul_le_mul sums sums
  unfold workload
  omega

theorem workload_lt_of_connected {parked parked' queued released : Nat}
    (few : parked' + released ≤ parked) :
    workload parked' (queued + released) < workload parked (queued + 1) := by
  have sums : parked' + (queued + released) + 1 ≤ parked + (queued + 1) := by omega
  have squares := Nat.mul_le_mul sums sums
  have expand (sum : Nat) : (sum + 1) * (sum + 1) = sum * sum + 2 * sum + 1 := by
    rw [Nat.add_mul, Nat.mul_add]
    omega
  rw [expand] at squares
  unfold workload
  omega

/-- Lets all blocks of a list wait again. -/
def parkAll (ledger : Ledger σ) (blocks : List Block) (now : Timestamp) : Ledger σ :=
  { ledger with
    orphans := blocks.foldl (fun orphans block => (orphans.hold block now).1) ledger.orphans }

/-- Looks at the blocks of a queue in turn; the orphans that waited for a block that is connected
join the end of the queue.  `connected` are the blocks connected so far, newest first. -/
def cascade (ledger : Ledger σ) (now : Timestamp) (queue connected : List Block) : Delivery σ :=
  match queue with
  | [] => { outcome := .ok connected.reverse, events := [], ledger }
  | block :: queue =>
      let admission := ledger.examine block now
      match _verdict : admission.verdict with
      | .settled =>
          let rest := cascade admission.ledger now queue connected
          { rest with events := admission.events ++ rest.events }
      | .connected =>
          let release := admission.ledger.orphans.release block.hash
          let rest := cascade { admission.ledger with orphans := release.2 } now
            (queue ++ release.1) (block :: connected)
          { rest with events := admission.events ++ rest.events }
      | .faulted fault =>
          { outcome := .error fault
            events := admission.events
            ledger := admission.ledger.parkAll queue now }
termination_by workload ledger.parked queue.length
decreasing_by
  · have few := ledger.parked_examine_le block now
    exact workload_lt_of_settled (by omega)
  · have few := ledger.parked_examine_le block now
    have isConnected : (ledger.examine block now).verdict = .connected := _verdict
    rw [isConnected] at few
    have moved := OrphanBuffer.filedCount_release (ledger.examine block now).ledger.orphans block.hash
    simp only [reduceCtorEq, false_and, or_false, parked] at few
    rw [List.length_append]
    apply workload_lt_of_connected
    change ((ledger.examine block now).ledger.orphans.release block.hash).2.filedCount + _ ≤
      ledger.orphans.filedCount
    omega

/-- The announcement of the head, if it is another one than before. -/
def announcement (before : Option BlockHash) (tree : BlockTree) : List ChainEvent :=
  if tree.bestHash? = before then []
  else
    match tree.best? with
    | some block => [.newBestBlock block]
    | none => []

/-- Delivers a block to the ledger. -/
def deliver (ledger : Ledger σ) (block : Block) (now : Timestamp) : Delivery σ :=
  if ledger.tree.contains block.hash then { outcome := .ok [], events := [], ledger }
  else
    let result := ledger.cascade now [block] []
    { result with
      events := result.events ++ announcement ledger.tree.bestHash? result.ledger.tree }

end Ledger

end HeaviestChain
