import HeaviestChain.Proofs.Ledger.CanonicalChain
import HeaviestChain.Proofs.Orphans

/-!
# Where delivered blocks are

Blocks of a fixed finite collection are delivered while the state engine never fails.  Between two
turns of the work-list every delivered block with a sound body is still on the list, or it has its
place: it is connected, it waits for a parent that is not connected, or its connected parent does
not accept it (`Placed`).  A turn gives a place to the block it looks at, and takes the place of
another block only to put it on the list: the orphans of a block that is connected.

The buffer never runs full, because the orphans and the block that is looked at are different blocks
of the collection.
-/

namespace HeaviestChain

namespace Ledger

open BlockTree (Grown lookup)
open StateEngine (Asked Steady)

variable {σ : Type} [StateEngine σ]

/-- What is assumed of the blocks that are delivered: no two have the shape of a genesis block, and
blocks with sound bodies have different hashes. -/
structure Deliverable (collection : Finset Block) : Prop where
  single : ∀ block ∈ collection, ∀ other ∈ collection,
    block.isGenesis = true → other.isGenesis = true → block = other
  distinct : ∀ block ∈ collection, ∀ other ∈ collection,
    block.checkBody = .ok () → other.checkBody = .ok () → block.hash = other.hash → block = other

/-- The full check passes, as the engine answers. -/
def AcceptedBy (engine : σ) (child parent : Block) : Prop :=
  child.isGenesis = false ∧ (child.checkOn parent engine).1 = .ok ()

/-- The place of a block for which nothing is left to do. -/
inductive Placed (engine : σ) (tree : BlockTree) (orphans : OrphanBuffer) (block : Block) : Prop
  | connected (contained : tree.contains block.hash = true)
  | waiting (notGenesis : block.isGenesis = false)
      (missing : tree.contains block.parentHash = false)
      (waits : block ∈ orphans.waitingFor block.parentHash)
  | refused {parent : Block} (notGenesis : block.isGenesis = false)
      (linked : tree.block? block.parentHash = some parent)
      (refused : (block.checkOn parent engine).1 ≠ .ok ())

/-- What is known of a ledger and its work-list while blocks of a collection are delivered:
`delivered` are those delivered so far. -/
structure Tracks (engine : σ) (collection : Finset Block) (delivered : List Block)
    (ledger : Ledger σ) (queue : List Block) : Prop where
  grown : Grown (AcceptedBy engine) ledger.tree.stored
  stored : ∀ entry ∈ ledger.tree.stored,
    entry.block ∈ collection ∧ entry.block.checkBody = .ok ()
  wellFormed : ledger.orphans.WellFormed
  buffered : ∀ parent, ∀ orphan ∈ ledger.orphans.filedUnder parent,
    orphan.block ∈ collection ∧ orphan.block.checkBody = .ok () ∧
      orphan.block.isGenesis = false ∧ ledger.tree.contains parent = false
  queued : ∀ block ∈ queue, block ∈ collection
  covered : ∀ block ∈ delivered, block.checkBody = .ok () →
    block ∈ queue ∨ Placed engine ledger.tree ledger.orphans block
  room : collection.card ≤ ledger.orphans.capacity
  asked : Asked engine ledger.engine

/-! ## Places are kept -/

namespace Placed

variable {engine : σ} {tree tree' : BlockTree} {orphans : OrphanBuffer} {other : Block}
  (placed : Placed engine tree orphans other)

include placed

theorem hold (block : Block) (now : Timestamp) :
    Placed engine tree (orphans.hold block now).1 other := by
  cases placed with
  | connected contained => exact .connected contained
  | refused notGenesis linked refused => exact .refused notGenesis linked refused
  | waiting notGenesis missing waits =>
      rcases OrphanBuffer.mem_waitingFor.mp waits with ⟨orphan, filed, rfl⟩
      have stays := OrphanBuffer.mem_filedUnder_hold_of_mem filed block now
      exact .waiting notGenesis missing (OrphanBuffer.mem_waitingFor.mpr ⟨orphan, stays, rfl⟩)

/-- When a block is connected, another one keeps its place, or it waited for that block and is
released. -/
theorem connect {entry : StoredBlock} (added : tree'.stored = entry :: tree.stored)
    (unknown : tree.contains entry.block.hash = false) (wellFormed : orphans.WellFormed) :
    other ∈ ((orphans.take entry.block.hash).2.release entry.block.hash).1 ∨
      Placed engine tree' ((orphans.take entry.block.hash).2.release entry.block.hash).2 other := by
  by_cases same : other.hash = entry.block.hash
  · exact .inr (.connected ((BlockTree.contains_of_stored_cons added).mpr (.inl same.symm)))
  · cases placed with
    | connected contained =>
        exact .inr (.connected ((BlockTree.contains_of_stored_cons added).mpr (.inr contained)))
    | refused notGenesis linked refused =>
        have stillLinked := BlockTree.block?_of_stored_cons added unknown linked
        exact .inr (.refused notGenesis stillLinked refused)
    | waiting notGenesis missing waits =>
        rcases OrphanBuffer.mem_waitingFor.mp waits with ⟨orphan, filed, rfl⟩
        by_cases here : orphan.block.parentHash = entry.block.hash
        · left
          rw [here] at filed
          exact (OrphanBuffer.mem_release_take wellFormed).mpr ⟨orphan, filed, same, rfl⟩
        · right
          refine .waiting notGenesis (BlockTree.not_contains_of_stored_cons added here missing) ?_
          have stays := (OrphanBuffer.mem_filedUnder_release_take wellFormed).mpr
            ⟨here, filed, same⟩
          exact OrphanBuffer.mem_waitingFor.mpr ⟨orphan, stays, rfl⟩

end Placed

namespace Tracks

variable {engine : σ} {collection : Finset Block} {delivered queue : List Block}
  {ledger : Ledger σ} {block : Block}

/-! ## One block -/

section Turn

variable (tracks : Tracks engine collection delivered ledger (block :: queue))

include tracks

/-- A block that has its place leaves the list. -/
theorem settle {engine' : σ} (asked : Asked engine engine')
    (placed : block.checkBody = .ok () → Placed engine ledger.tree ledger.orphans block) :
    Tracks engine collection delivered { ledger with engine := engine' } queue :=
  { tracks with
    queued := fun other mem => tracks.queued other (List.mem_cons_of_mem _ mem)
    asked
    covered := by
      intro other mem sound
      rcases tracks.covered other mem sound with listed | placed'
      · rw [List.mem_cons] at listed
        rcases listed with rfl | later
        · exact .inr (placed sound)
        · exact .inl later
      · exact .inr placed' }

/-- The orphans and a block that is not among them are different blocks of the collection. -/
theorem size_lt_capacity (new : ledger.orphans.contains block.hash = false) :
    ledger.orphans.size < ledger.orphans.capacity := by
  have mem := tracks.queued block (List.mem_cons_self ..)
  have within := fun parent orphan filed => (tracks.buffered parent orphan filed).1
  exact Nat.lt_of_lt_of_le (tracks.wellFormed.size_lt_card within mem new) tracks.room

/-- After a block is connected, the orphans that waited for it are on the list. -/
theorem connect (joins : Joins ledger.tree block)
    (obeys : ∀ parent, lookup ledger.tree.stored block.parentHash = some parent →
      AcceptedBy engine block parent.block)
    {ledger' : Ledger σ} (isTree : ledger'.tree = (ledger.tree.attach block).1)
    (isBuffer : ledger'.orphans = (ledger.orphans.take block.hash).2)
    (asked : Asked engine ledger'.engine) :
    Tracks engine collection delivered
      { ledger' with orphans := (ledger'.orphans.release block.hash).2 }
      (queue ++ (ledger'.orphans.release block.hash).1) := by
  have mem := tracks.queued block (List.mem_cons_self ..)
  rcases joins.exists_stored_attach with ⟨weight, added⟩
  rw [← isTree] at added
  rw [isBuffer]
  exact
    { grown := by
        rw [isTree]
        exact tracks.grown.attach obeys
      stored := by
        intro entry stored
        simp only [added, List.mem_cons] at stored
        rcases stored with rfl | old
        · exact ⟨mem, joins.sound⟩
        · exact tracks.stored entry old
      wellFormed := (tracks.wellFormed.take block.hash).release block.hash
      buffered := by
        intro parent orphan filed
        rcases (OrphanBuffer.mem_filedUnder_release_take tracks.wellFormed).mp filed with
          ⟨elsewhere, old, _⟩
        rcases tracks.buffered parent orphan old with ⟨orphanMem, orphanSound, notGenesis, absent⟩
        exact ⟨orphanMem, orphanSound, notGenesis,
          BlockTree.not_contains_of_stored_cons added elsewhere absent⟩
      queued := by
        intro other listed
        rw [List.mem_append] at listed
        rcases listed with later | released
        · exact tracks.queued other (List.mem_cons_of_mem _ later)
        · rcases (OrphanBuffer.mem_release_take tracks.wellFormed).mp released with
            ⟨orphan, filed, _, rfl⟩
          exact (tracks.buffered _ _ filed).1
      covered := by
        intro other offered otherSound
        rw [List.mem_append]
        rcases tracks.covered other offered otherSound with listed | placed
        · rw [List.mem_cons] at listed
          rcases listed with rfl | later
          · exact .inr (.connected ((BlockTree.contains_of_stored_cons added).mpr (.inl rfl)))
          · exact .inl (.inl later)
        · rcases placed.connect added joins.unknown tracks.wellFormed with released | placed
          · exact .inl (.inr released)
          · exact .inr placed
      room := by
        rw [OrphanBuffer.capacity_release, OrphanBuffer.capacity_take]
        exact tracks.room
      asked }

variable (deliverable : Deliverable collection)

include deliverable

/-- A sound block without a connected parent waits afterwards. -/
theorem park (sound : block.checkBody = .ok ()) (notGenesis : block.isGenesis = false)
    (missing : ledger.tree.contains block.parentHash = false) (now : Timestamp) :
    Tracks engine collection delivered (ledger.park block now).ledger queue := by
  have mem := tracks.queued block (List.mem_cons_self ..)
  by_cases known : ledger.orphans.contains block.hash = true
  · have unchanged : (ledger.park block now).ledger = ledger := by
      simp only [Ledger.park, OrphanBuffer.hold_eq_self (.inl known)]
    rw [unchanged]
    apply tracks.settle tracks.asked
    intro _
    rcases tracks.wellFormed.contains_iff.mp known with ⟨parent, orphan, filed, same⟩
    have buffered := tracks.buffered parent orphan filed
    have equal := deliverable.distinct _ buffered.1 _ mem buffered.2.1 sound same
    have isParent := tracks.wellFormed.filed parent orphan filed
    rw [equal] at isParent
    subst isParent
    exact .waiting notGenesis missing (OrphanBuffer.mem_waitingFor.mpr ⟨orphan, filed, equal⟩)
  · have new : ledger.orphans.contains block.hash = false := Bool.not_eq_true _ ▸ known
    have room := tracks.size_lt_capacity new
    have filed {parent : BlockHash} {orphan : Orphan} :
        orphan ∈ (ledger.orphans.hold block now).1.filedUnder parent ↔
          orphan ∈ ledger.orphans.filedUnder parent ∨
            parent = block.parentHash ∧ orphan = ⟨block, now⟩ :=
      OrphanBuffer.mem_filedUnder_hold new room
    exact
      { tracks with
        wellFormed := tracks.wellFormed.hold block now
        buffered := by
          intro parent orphan here
          rcases filed.mp here with old | ⟨rfl, rfl⟩
          · exact tracks.buffered parent orphan old
          · exact ⟨mem, sound, notGenesis, missing⟩
        queued := fun other later => tracks.queued other (List.mem_cons_of_mem _ later)
        room := by
          rw [Ledger.park, OrphanBuffer.capacity_hold]
          exact tracks.room
        covered := by
          intro other offered otherSound
          rcases tracks.covered other offered otherSound with listed | placed
          · rw [List.mem_cons] at listed
            rcases listed with rfl | later
            · refine .inr (.waiting notGenesis missing (OrphanBuffer.mem_waitingFor.mpr ?_))
              exact ⟨_, filed.mpr (.inr ⟨rfl, rfl⟩), rfl⟩
            · exact .inl later
          · exact .inr (placed.hold block now) }

variable (steady : Steady engine)

include steady

/-- Looking at a block gives it a place; the list goes on as a turn says. -/
theorem examine (now : Timestamp) :
    ((ledger.examine block now).verdict = .settled ∧
        Tracks engine collection delivered (ledger.examine block now).ledger queue) ∨
      (ledger.examine block now).verdict = .connected ∧
        Tracks engine collection delivered
          { (ledger.examine block now).ledger with
            orphans := ((ledger.examine block now).ledger.orphans.release block.hash).2 }
          (queue ++ ((ledger.examine block now).ledger.orphans.release block.hash).1) := by
  have mem := tracks.queued block (List.mem_cons_self ..)
  have examination := ledger.examination block now
  generalize ledger.examine block now = admission at examination ⊢
  cases examination with
  | known contained => exact .inl ⟨rfl, tracks.settle tracks.asked fun _ => .connected contained⟩
  | unsound _ flawed =>
      refine .inl ⟨rfl, tracks.settle tracks.asked fun sound => ?_⟩
      rw [flawed] at sound
      cases sound
  | secondGenesis unknown sound genesis nonempty =>
      -- the first block of the tree is the only genesis block there is
      rcases tracks.grown.exists_other_genesis nonempty unknown with ⟨first, stored, isFirst, other⟩
      have collected := (tracks.stored first stored).1
      exact absurd (deliverable.single _ collected _ mem isFirst genesis) other
  | first unknown sound genesis empty =>
      have joins := Joins.of_empty unknown sound genesis empty
      rw [ledger.connect_eq joins]
      refine .inr ⟨rfl, tracks.connect joins ?_ rfl rfl tracks.asked⟩
      intro parent linked
      rw [BlockTree.lookup_of_isEmpty empty] at linked
      cases linked
  | parentless unknown sound notGenesis missing =>
      have absent : ledger.tree.contains block.parentHash = false := by
        simpa [BlockTree.block?, BlockTree.contains] using missing
      exact .inl ⟨rfl, tracks.park deliverable sound notGenesis absent now⟩
  | @valid parent engine' unknown sound notGenesis linked accepted =>
      have joins := Joins.of_accepted unknown notGenesis linked accepted
      rw [connect_eq { ledger with engine := engine' } joins]
      have asked := tracks.asked.trans (Block.asked_checkOn block parent ledger.engine)
      rw [accepted] at asked
      refine .inr ⟨rfl, tracks.connect joins ?_ rfl rfl asked⟩
      intro entry isParent
      rcases BlockTree.block?_eq_some_iff.mp linked with ⟨entry', isParent', rfl⟩
      rw [isParent] at isParent'
      cases isParent'
      refine ⟨notGenesis, ?_⟩
      rw [← Block.checkOn_eq_of_steady steady tracks.asked, accepted]
  | @faulted parent fault engine' _ _ _ _ failed =>
      have answered := Block.checkOn_ne_fault_of_steady steady tracks.asked block parent fault
      rw [failed] at answered
      exact absurd rfl answered
  | @invalid parent _ _ engine' _ _ notGenesis linked refused =>
      have asked := tracks.asked.trans (Block.asked_checkOn block parent ledger.engine)
      have outcome := Block.checkOn_eq_of_steady steady tracks.asked block parent
      rw [refused] at asked outcome
      refine .inl ⟨rfl, tracks.settle asked fun _ => .refused notGenesis linked ?_⟩
      rw [← outcome]
      simp

theorem turn {now : Timestamp} {next : Ledger σ × List Block}
    (turn : Turn now (ledger, block :: queue) next) :
    Tracks engine collection delivered next.1 next.2 := by
  have outcome := tracks.examine deliverable steady now
  cases turn with
  | settled verdict =>
      rcases outcome with ⟨_, tracks⟩ | ⟨verdict', _⟩
      · exact tracks
      · rw [verdict] at verdict'
        cases verdict'
  | connected verdict =>
      rcases outcome with ⟨verdict', _⟩ | ⟨_, tracks⟩
      · rw [verdict] at verdict'
        cases verdict'
      · exact tracks
  | faulted verdict =>
      rcases outcome with ⟨verdict', _⟩ | ⟨verdict', _⟩
      · rw [verdict] at verdict'
        cases verdict'
      · rw [verdict] at verdict'
        cases verdict'

end Turn

/-! ## Deliveries -/

theorem turns (deliverable : Deliverable collection) (steady : Steady engine) {now : Timestamp}
    {first last : Ledger σ × List Block} (turns : Turns now first last)
    (tracks : Tracks engine collection delivered first.1 first.2) :
    Tracks engine collection delivered last.1 last.2 := by
  induction turns with
  | refl => exact tracks
  | @tail work _ _ turn ih =>
      rcases work with ⟨ledger, queue⟩
      cases queue with
      | nil => cases turn
      | cons block queue => exact ih.turn deliverable steady turn

theorem deliver (deliverable : Deliverable collection) (steady : Steady engine)
    (tracks : Tracks engine collection delivered ledger []) (mem : block ∈ collection)
    (now : Timestamp) :
    Tracks engine collection (block :: delivered) (ledger.deliver block now).ledger [] := by
  have offered : Tracks engine collection (block :: delivered) ledger [block] :=
    { tracks with
      queued := by
        intro other listed
        rw [List.mem_singleton.mp listed]
        exact mem
      covered := by
        intro other either sound
        rw [List.mem_cons] at either
        rcases either with rfl | earlier
        · exact .inl (List.mem_singleton_self _)
        · rcases tracks.covered other earlier sound with listed | placed
          · cases listed
          · exact .inr placed }
  exact offered.turns deliverable steady (ledger.turns_deliver block now)

theorem empty {engine : σ} {collection : Finset Block} {capacity : Nat}
    (room : collection.card ≤ capacity) :
    Tracks engine collection [] (empty engine capacity) [] where
  grown := BlockTree.grown_empty
  stored := by
    intro entry mem
    cases mem
  wellFormed := OrphanBuffer.wellFormed_empty capacity
  buffered := by
    intro parent orphan mem
    cases mem
  queued := by
    intro other mem
    cases mem
  covered := by
    intro other mem
    cases mem
  room := room
  asked := .refl

end Tracks

end Ledger

end HeaviestChain
