import HeaviestChain.Proofs.Ledger.Interruption
import HeaviestChain.Proofs.Ledger.Waiting
import HeaviestChain.Proofs.Orphans.Inventory

/-!
# The orphans of a ledger

What can be relied on about the orphans after any run, also one in which the state engine fails.
That the two tables agree is a matter of the buffer, and that orphans and stored blocks are apart is
a part of `Custody`.  It remains that no first block waits: a look parks only blocks that are no
first ones, and what is parked otherwise has waited before (`Descended`).

Dropping old orphans is described as a filter: those stay that have waited for less than the limit,
in their order, and the others are counted.
-/

namespace HeaviestChain

namespace Ledger

variable {σ : Type}

/-! ## No first block waits -/

/-- No first block waits, and at most the block that was delivered is one. -/
structure Descended (ledger : Ledger σ) (queue : List Block) : Prop where
  buffered : ∀ parent, ∀ orphan ∈ ledger.orphans.filedUnder parent, orphan.block.isGenesis = false
  queued : ∀ block ∈ queue.tail, block.isGenesis = false

theorem descended_empty (engine : σ) (capacity : Nat) : Descended (empty engine capacity) [] where
  buffered := by
    intro parent orphan filed
    cases filed
  queued := List.forall_mem_nil _

section Look

variable [StateEngine σ] {ledger : Ledger σ} {block : Block} {queue : List Block} {now : Timestamp}

/-- A look at a block parks no other one, and only if it is no first block. -/
theorem filed_of_examine (wellFormed : ledger.orphans.WellFormed) {parent : BlockHash}
    {orphan : Orphan}
    (filed : orphan ∈ (ledger.examine block now).ledger.orphans.filedUnder parent) :
    orphan ∈ ledger.orphans.filedUnder parent ∨
      orphan.block = block ∧ block.isGenesis = false := by
  have examination := ledger.examination block now
  generalize ledger.examine block now = admission at examination filed
  cases examination with
  | known _ => exact .inl filed
  | unsound _ _ => exact .inl filed
  | secondGenesis _ _ _ _ => exact .inl filed
  | faulted _ _ _ _ _ => exact .inl filed
  | invalid _ _ _ _ _ => exact .inl filed
  | parentless _ _ notGenesis _ =>
      rcases OrphanBuffer.mem_filedUnder_of_mem_hold filed with old | here
      · exact .inl old
      · exact .inr ⟨here, notGenesis⟩
  | first unknown sound genesis empty =>
      rw [ledger.connect_eq (.of_empty unknown sound genesis empty)] at filed
      exact .inl ((OrphanBuffer.mem_filedUnder_take wellFormed).mp filed).1
  | @valid _ engine unknown _ notGenesis linked accepted =>
      rw [connect_eq { ledger with engine } (.of_accepted unknown notGenesis linked accepted)]
        at filed
      exact .inl ((OrphanBuffer.mem_filedUnder_take wellFormed).mp filed).1

variable (descended : Descended ledger (block :: queue)) (wellFormed : ledger.orphans.WellFormed)

include descended wellFormed

theorem Descended.examine (now : Timestamp) :
    ∀ parent, ∀ orphan ∈ (ledger.examine block now).ledger.orphans.filedUnder parent,
      orphan.block.isGenesis = false := by
  intro parent orphan filed
  rcases filed_of_examine wellFormed filed with old | ⟨rfl, notGenesis⟩
  · exact descended.buffered parent orphan old
  · exact notGenesis

end Look

theorem Turn.descended [StateEngine σ] {now : Timestamp} {work next : Ledger σ × List Block}
    (turn : Turn now work next) (wellFormed : work.1.orphans.WellFormed)
    (descended : Descended work.1 work.2) : Descended next.1 next.2 := by
  cases turn with
  | settled _ =>
      refine ⟨descended.examine wellFormed _, ?_⟩
      exact fun other mem => descended.queued other (List.mem_of_mem_tail mem)
  | connected _ =>
      have examined := descended.examine wellFormed now
      constructor
      · intro parent orphan filed
        exact examined parent orphan (OrphanBuffer.mem_filedUnder_release.mp filed).2
      · intro other mem
        rcases List.mem_append.mp (List.mem_of_mem_tail mem) with later | released
        · exact descended.queued other later
        · rw [OrphanBuffer.released_eq] at released
          rcases OrphanBuffer.mem_waitingFor.mp released with ⟨orphan, filed, rfl⟩
          exact examined _ orphan filed
  | faulted _ =>
      refine ⟨?_, List.forall_mem_nil _⟩
      intro parent orphan filed
      rcases OrphanBuffer.mem_filedUnder_of_mem_holdAll filed with old | later
      · exact descended.examine wellFormed now parent orphan old
      · exact descended.queued _ later

theorem descended_onward [StateEngine σ] {first last : Ledger σ × List Block}
    (onward : Onward first last) (custody : Custody first.1 first.2)
    (descended : Descended first.1 first.2) : Descended last.1 last.2 := by
  induction onward with
  | refl => exact descended
  | tail earlier step ih =>
      cases step with
      | turned turn => exact turn.descended (custody_onward earlier custody).wellFormed ih
      | delivered _ _ => exact ⟨ih.buffered, List.forall_mem_nil _⟩
      | expired _ _ _ =>
          refine ⟨?_, List.forall_mem_nil _⟩
          intro parent orphan filed
          exact ih.buffered parent orphan (OrphanBuffer.mem_filedUnder_expire.mp filed).1
      | submitted _ _ => exact ⟨ih.buffered, ih.queued⟩
      | altered _ _ _ => exact ⟨ih.buffered, ih.queued⟩

/-! ## Orderly orphans -/

/-- The orphans of a ledger are kept in order. -/
structure Orderly (ledger : Ledger σ) : Prop where
  /-- An orphan is filed under its own parent. -/
  filed : ∀ parent, ∀ orphan ∈ ledger.orphans.filedUnder parent, orphan.block.parentHash = parent
  /-- No hash is filed twice. -/
  distinct : (ledger.orphans.inventory.map (·.block.hash)).Nodup
  /-- Something is filed under every parent that has an entry. -/
  nonempty : ∀ parent, ledger.orphans.waiting.get? parent ≠ some []
  /-- The table of parents has the orphans and their parents, and nothing else. -/
  parents : ∀ hash parent, ledger.orphans.parentOf? hash = some parent ↔
    ∃ orphan ∈ ledger.orphans.inventory,
      orphan.block.hash = hash ∧ orphan.block.parentHash = parent
  /-- The size is the number of orphans. -/
  size : ledger.orphans.size = ledger.orphans.inventory.length
  /-- There are no more than the capacity allows. -/
  room : ledger.orphans.size ≤ ledger.orphans.capacity
  /-- What waits is not stored. -/
  apart : ∀ hash, ledger.orphans.contains hash = true → ledger.tree.contains hash = false
  /-- No first block waits. -/
  notGenesis : ∀ orphan ∈ ledger.orphans.inventory, orphan.block.isGenesis = false

theorem orderly_of_custody {ledger : Ledger σ} (custody : Custody ledger [])
    (descended : Descended ledger []) (room : ledger.orphans.size ≤ ledger.orphans.capacity) :
    Orderly ledger where
  filed := custody.wellFormed.filed
  distinct := custody.wellFormed.nodup_inventory
  nonempty := custody.wellFormed.nonempty
  parents := fun _ _ => custody.wellFormed.parentOf?_eq_some_iff
  size := custody.wellFormed.size_eq
  room := room
  apart := custody.apart
  notGenesis := by
    intro orphan mem
    rcases OrphanBuffer.mem_inventory.mp mem with ⟨parent, filed⟩
    exact descended.buffered parent orphan filed

/-- Whether an orphan has waited for `maxAge` seconds; none have passed before its arrival. -/
def Overdue (maxAge : UInt64) (now : Timestamp) (orphan : Orphan) : Prop :=
  maxAge.toNat ≤ now.seconds.toNat - orphan.receivedAt.seconds.toNat

instance (maxAge : UInt64) (now : Timestamp) (orphan : Orphan) :
    Decidable (Overdue maxAge now orphan) :=
  Nat.decLe _ _

theorem not_overdue_iff {maxAge : UInt64} {now : Timestamp} {orphan : Orphan} :
    ¬Overdue maxAge now orphan ↔ OrphanBuffer.isFresh maxAge now orphan = true := by
  rw [OrphanBuffer.isFresh_iff, Overdue, Nat.not_le]

/-- What becomes of a ledger when its overdue orphans are dropped. -/
structure Expiry (ledger : Ledger σ) (maxAge : UInt64) (now : Timestamp) (after : Ledger σ)
    (dropped : Nat) : Prop where
  /-- Under every parent the others remain, in their order. -/
  kept : ∀ parent, after.orphans.filedUnder parent =
    (ledger.orphans.filedUnder parent).filter fun orphan => ¬Overdue maxAge now orphan
  /-- So they do among all orphans. -/
  rest : after.orphans.inventory =
    ledger.orphans.inventory.filter fun orphan => ¬Overdue maxAge now orphan
  /-- The dropped ones have been counted. -/
  counted : dropped =
    (ledger.orphans.inventory.filter fun orphan => Overdue maxAge now orphan).length
  /-- There are fewer orphans by that number. -/
  size : after.orphans.size + dropped = ledger.orphans.size
  /-- Nothing else changes. -/
  frame : after = { ledger with orphans := after.orphans }
  /-- The capacity neither. -/
  capacity : after.orphans.capacity = ledger.orphans.capacity

theorem expiry_expireOrphans {ledger : Ledger σ} (wellFormed : ledger.orphans.WellFormed)
    (maxAge : UInt64) (now : Timestamp) :
    Expiry ledger maxAge now (ledger.expireOrphans maxAge now).1
      (ledger.expireOrphans maxAge now).2 := by
  have same (orphan : Orphan) :
      decide (¬Overdue maxAge now orphan) = OrphanBuffer.isFresh maxAge now orphan := by
    rw [Bool.eq_iff_iff, decide_eq_true_iff, not_overdue_iff]
  have opposite (orphan : Orphan) :
      decide (Overdue maxAge now orphan) = !OrphanBuffer.isFresh maxAge now orphan := by
    rw [← same, decide_not, Bool.not_not]
  refine ⟨?kept, ?rest, ?counted, wellFormed.size_expire, rfl, rfl⟩
  case kept =>
      intro parent
      simp only [same]
      exact OrphanBuffer.filedUnder_expire parent
  case rest =>
      simp only [same]
      exact OrphanBuffer.inventory_expire
  case counted =>
      simp only [opposite]
      rfl

/-- After any run the orphans are in order, and dropping old ones drops exactly those.  If no delivery
has ended with a fault, no block waits for a stored parent. -/
theorem orderly_of_run [StateEngine σ] (engine : σ) (capacity : Nat) (commands : List (Command σ)) :
    let ledger := (empty engine capacity).run commands
    Orderly ledger ∧ ledger.orphans.capacity = capacity ∧
      (¬(empty engine capacity).Fails commands → Parentless ledger) ∧
      ∀ maxAge now, Expiry ledger maxAge now (ledger.expireOrphans maxAge now).1
        (ledger.expireOrphans maxAge now).2 := by
  intro ledger
  have reached : Onward (empty engine capacity, []) (ledger, []) := onward_run _ commands
  have start := custody_empty engine capacity
  have custody := custody_onward reached start
  have descended := descended_onward reached start (descended_empty engine capacity)
  have room := size_le_capacity_onward reached (Nat.zero_le _)
  refine ⟨orderly_of_custody custody descended room, capacity_onward reached, ?_, ?_⟩
  · exact parentless_run start (parentless_empty engine capacity)
  · exact expiry_expireOrphans custody.wellFormed

end Ledger

end HeaviestChain
