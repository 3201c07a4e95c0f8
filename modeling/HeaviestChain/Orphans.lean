import HeaviestChain.Block
import HeaviestChain.Table

/-!
# Orphans

Blocks whose parent is not known yet, kept until it arrives.  They are filed under the hash of the
parent they wait for, in order of arrival; a second table leads from an orphan to its parent, so
that the first missing block of a line of orphans can be found.

The statements at the end count what an operation adds and takes away.
-/

namespace HeaviestChain

/-- A block that waits for its parent. -/
structure Orphan where
  /-- The block. -/
  block : Block
  /-- When it was buffered. -/
  receivedAt : Timestamp
  deriving DecidableEq

/-- The orphans of a node. -/
structure OrphanBuffer where
  /-- The orphans under the hash they wait for, in order of arrival. -/
  waiting : Table BlockHash (List Orphan) := .empty
  /-- The parent of each orphan. -/
  parents : Table BlockHash BlockHash := .empty
  /-- The most orphans that are kept. -/
  capacity : Nat

namespace OrphanBuffer

variable (buffer : OrphanBuffer)

/-! ## Looking things up -/

/-- The number of orphans. -/
def size : Nat := buffer.parents.size

/-- Whether nothing is buffered. -/
def isEmpty : Bool := buffer.size == 0

/-- Whether the block with this hash is buffered. -/
def contains (hash : BlockHash) : Bool := buffer.parents.contains hash

/-- The parent of a buffered block. -/
def parentOf? (hash : BlockHash) : Option BlockHash := buffer.parents.get? hash

/-- What is filed under a parent, in order of arrival. -/
def filedUnder (parent : BlockHash) : List Orphan := (buffer.waiting.get? parent).getD []

/-- The blocks that wait for a parent, in order of arrival. -/
def waitingFor (parent : BlockHash) : List Block := (buffer.filedUnder parent).map (·.block)

/-! ## Changes -/

/-- Buffers a block, unless it is buffered already or there is no room.  Says whether it did. -/
def hold (block : Block) (now : Timestamp) : OrphanBuffer × Bool :=
  if buffer.contains block.hash || decide (buffer.capacity ≤ buffer.size) then (buffer, false)
  else
    let filed := buffer.filedUnder block.parentHash ++ [⟨block, now⟩]
    ({ buffer with
        waiting := buffer.waiting.set block.parentHash filed
        parents := buffer.parents.set block.hash block.parentHash }, true)

/-- Forgets the parents of some orphans. -/
def forgetParents (parents : Table BlockHash BlockHash) (orphans : List Orphan) :
    Table BlockHash BlockHash :=
  orphans.foldl (fun parents orphan => parents.erase orphan.block.hash) parents

/-- Takes out all blocks that wait for a parent, in order of arrival. -/
def release (parent : BlockHash) : List Block × OrphanBuffer :=
  match buffer.waiting.get? parent with
  | none => ([], buffer)
  | some orphans =>
      (orphans.map (·.block),
        { buffer with
          waiting := buffer.waiting.erase parent
          parents := forgetParents buffer.parents orphans })

/-- What is filed after the orphans under a parent have become `orphans`; no orphans are not
filed. -/
def refile (parent : BlockHash) (orphans : List Orphan) : Table BlockHash (List Orphan) :=
  if orphans.isEmpty then buffer.waiting.erase parent else buffer.waiting.set parent orphans

/-- Takes out one orphan and leaves its siblings in place. -/
def take (hash : BlockHash) : Option Block × OrphanBuffer :=
  match buffer.parents.get? hash with
  | none => (none, buffer)
  | some parent =>
      let parents := buffer.parents.erase hash
      let isTaken (orphan : Orphan) : Bool := decide (orphan.block.hash = hash)
      match (buffer.filedUnder parent).find? isTaken with
      | none => (none, { buffer with parents })
      | some taken =>
          let waiting := buffer.refile parent ((buffer.filedUnder parent).eraseP isTaken)
          (some taken.block, { buffer with waiting, parents })

/-- Whether an orphan has waited for less than `maxAge` seconds. -/
def isFresh (maxAge : UInt64) (now : Timestamp) (orphan : Orphan) : Bool :=
  decide (orphan.receivedAt.ageAt now < maxAge)

/-- Drops the orphans that have waited for `maxAge` seconds or more.  Says how many. -/
def expire (maxAge : UInt64) (now : Timestamp) : OrphanBuffer × Nat :=
  let stale := (buffer.waiting.entries.flatMap Prod.snd).filter fun orphan =>
    !isFresh maxAge now orphan
  let waiting := buffer.waiting.filterMapValues fun orphans =>
    let kept := orphans.filter (isFresh maxAge now)
    if kept.isEmpty then none else some kept
  ({ buffer with waiting, parents := forgetParents buffer.parents stale }, stale.length)

/-! ## Lines of orphans -/

/-- Follows the parents of orphans from `hash` to a hash that is not an orphan's.  An orphan that
has been passed is not looked at again. -/
def lineStart (parents : Table BlockHash BlockHash) (hash : BlockHash) : BlockHash :=
  match _found : parents.get? hash with
  | none => hash
  | some parent => lineStart (parents.erase hash) parent
termination_by parents.size
decreasing_by
  exact Table.size_erase_lt (by rw [Table.contains, _found]; rfl)

/-- The nearest ancestor of a block that is not buffered: the block itself if it is no orphan.
The parent of a first block is none. -/
def missingAncestor? (hash : BlockHash) : Option BlockHash :=
  if hash = .zero then none else some (lineStart buffer.parents hash)

/-! ## Counting -/

/-- The number of orphans that are filed. -/
def filedCount : Nat := buffer.waiting.total List.length

theorem filedCount_hold_le (block : Block) (now : Timestamp) :
    (buffer.hold block now).1.filedCount ≤ buffer.filedCount + 1 := by
  unfold hold
  split
  case isTrue => exact Nat.le_succ _
  case isFalse =>
      simp only [filedCount, filedUnder]
      cases found : buffer.waiting.get? block.parentHash with
      | none =>
          rw [Table.total_set_of_none _ _ found]
          simp
      | some orphans =>
          have := Table.total_set_of_some List.length (orphans ++ [⟨block, now⟩]) found
          simp only [List.length_append, List.length_singleton] at this
          simp only [Option.getD_some]
          omega

theorem filedCount_release (parent : BlockHash) :
    (buffer.release parent).2.filedCount + (buffer.release parent).1.length =
      buffer.filedCount := by
  unfold release
  split
  case h_1 => rfl
  case h_2 orphans found =>
      rw [List.length_map]
      exact Table.total_erase List.length found

theorem total_refile {parent : BlockHash} {old : List Orphan} (orphans : List Orphan)
    (found : buffer.waiting.get? parent = some old) :
    (buffer.refile parent orphans).total List.length + old.length =
      buffer.filedCount + orphans.length := by
  unfold refile
  split
  case isTrue empty =>
      rw [List.isEmpty_iff.mp empty]
      exact Table.total_erase List.length found
  case isFalse => exact Table.total_set_of_some List.length orphans found

theorem filedCount_take_le (hash : BlockHash) :
    (buffer.take hash).2.filedCount ≤ buffer.filedCount := by
  unfold take
  split
  case h_1 => exact Nat.le_refl _
  case h_2 parent _ =>
      dsimp only
      split
      case h_1 => exact Nat.le_refl _
      case h_2 taken isFiled =>
          have mem := List.mem_of_find?_eq_some isFiled
          have shorter := (List.eraseP_sublist (l := buffer.filedUnder parent)
            (p := fun orphan => decide (orphan.block.hash = hash))).length_le
          cases found : buffer.waiting.get? parent with
          | none =>
              rw [filedUnder, found] at mem
              cases mem
          | some orphans =>
              have same : buffer.filedUnder parent = orphans := by rw [filedUnder, found]; rfl
              have := buffer.total_refile ((buffer.filedUnder parent).eraseP
                fun orphan => decide (orphan.block.hash = hash)) found
              rw [same] at shorter this ⊢
              change (buffer.refile parent _).total List.length ≤ _
              omega

end OrphanBuffer

end HeaviestChain
