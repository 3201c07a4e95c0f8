import HeaviestChain.Proofs.BlockTree.Agreement
import HeaviestChain.Proofs.Ledger.Placement
import HeaviestChain.RootEngine

/-!
# Order independence

When all blocks of a collection have been delivered and the work-list is empty, every block has its
place (`Tracks`).  Then the connected blocks are the least set that has the genesis block and every
block that is accepted on a member (`Connectable`), and the orphans are the sound blocks whose
parents are outside of it.  Both are properties of the collection, so two deliveries of it in
different orders lead to trees of the same blocks.
-/

namespace HeaviestChain

namespace Ledger

open BlockTree (Grown lookup)
open StateEngine (Steady)

variable {σ : Type} [StateEngine σ]

/-- The least set that has the genesis block and every block of the collection that passes the full
check on a member. -/
inductive Connectable (engine : σ) (collection : Finset Block) : Block → Prop
  | genesis {block : Block} (mem : block ∈ collection) (isGenesis : block.isGenesis = true)
      (sound : block.checkBody = .ok ()) : Connectable engine collection block
  | child {block parent : Block} (mem : block ∈ collection)
      (below : Connectable engine collection parent) (linked : block.parentHash = parent.hash)
      (accepted : (block.checkOn parent engine).1 = .ok ()) : Connectable engine collection block

theorem Connectable.sound {engine : σ} {collection : Finset Block} {block : Block}
    (connectable : Connectable engine collection block) : block.checkBody = .ok () := by
  cases connectable with
  | genesis _ _ sound => exact sound
  | @child _ parent _ _ _ accepted =>
      exact (Block.checkOn_eq_ok_iff.mp (Prod.ext accepted rfl)).1

/-- Blocks that were added one by one after checks are connectable. -/
theorem connectable_of_grown {engine : σ} {collection : Finset Block} {stored : List StoredBlock}
    (grown : Grown (AcceptedBy engine) stored)
    (within : ∀ entry ∈ stored, entry.block ∈ collection ∧ entry.block.checkBody = .ok ()) :
    ∀ entry ∈ stored, Connectable engine collection entry.block := by
  induction grown with
  | empty =>
      intro entry mem
      cases mem
  | first genesis =>
      intro entry mem
      have known := within entry mem
      rw [List.mem_singleton] at mem
      subst mem
      exact .genesis known.1 genesis known.2
  | @child older block parent _ _ linked accepted ih =>
      have below := ih fun entry mem => within entry (List.mem_cons_of_mem _ mem)
      intro entry mem
      have known := within entry mem
      rw [List.mem_cons] at mem
      rcases mem with rfl | old
      · exact .child known.1 (below parent (BlockTree.mem_of_lookup linked))
          (BlockTree.hash_of_lookup linked).symm accepted.2
      · exact below entry old

namespace Tracks

variable {engine : σ} {collection : Finset Block} {delivered : List Block} {ledger : Ledger σ}
  (deliverable : Deliverable collection) (tracks : Tracks engine collection delivered ledger [])

include deliverable tracks

/-- A sound block is the one that is stored under its hash. -/
theorem block?_of_contains {block : Block} (mem : block ∈ collection)
    (sound : block.checkBody = .ok ()) (contained : ledger.tree.contains block.hash = true) :
    ledger.tree.block? block.hash = some block := by
  rcases BlockTree.contains_iff.mp contained with ⟨entry, found⟩
  have stored := tracks.stored entry (BlockTree.mem_of_lookup found)
  have same := deliverable.distinct _ stored.1 _ mem stored.2 sound (BlockTree.hash_of_lookup found)
  exact BlockTree.block?_eq_some_iff.mpr ⟨entry, found, same⟩

variable (complete : ∀ block ∈ collection, block ∈ delivered)

include complete

omit deliverable in
theorem placed {block : Block} (mem : block ∈ collection) (sound : block.checkBody = .ok ()) :
    Placed engine ledger.tree ledger.orphans block := by
  rcases tracks.covered block (complete block mem) sound with listed | placed
  · cases listed
  · exact placed

theorem block?_of_connectable {block : Block} (connectable : Connectable engine collection block) :
    ledger.tree.block? block.hash = some block := by
  induction connectable with
  | @genesis block mem isGenesis sound =>
      cases tracks.placed complete mem sound with
      | connected contained => exact tracks.block?_of_contains deliverable mem sound contained
      | waiting notGenesis _ _ =>
          rw [isGenesis] at notGenesis
          cases notGenesis
      | refused notGenesis _ _ =>
          rw [isGenesis] at notGenesis
          cases notGenesis
  | @child block parent mem below linked accepted ih =>
      have sound := (Connectable.child mem below linked accepted).sound
      cases tracks.placed complete mem sound with
      | connected contained => exact tracks.block?_of_contains deliverable mem sound contained
      | waiting _ missing _ =>
          rw [linked, BlockTree.contains_eq_false_iff] at missing
          rcases BlockTree.block?_eq_some_iff.mp ih with ⟨entry, found, _⟩
          rw [missing] at found
          cases found
      | refused _ linked' refused =>
          rw [linked, ih] at linked'
          cases linked'
          exact absurd accepted refused

/-- The connected blocks are the connectable ones. -/
theorem block?_eq_some_iff {hash : BlockHash} {block : Block} :
    ledger.tree.block? hash = some block ↔
      Connectable engine collection block ∧ block.hash = hash := by
  constructor
  · intro stored
    rcases BlockTree.block?_eq_some_iff.mp stored with ⟨entry, found, rfl⟩
    exact ⟨connectable_of_grown tracks.grown tracks.stored entry (BlockTree.mem_of_lookup found),
      BlockTree.hash_of_lookup found⟩
  · rintro ⟨connectable, rfl⟩
    exact tracks.block?_of_connectable deliverable complete connectable

/-- The orphans are the sound blocks, but for the genesis block, whose parents are not connected. -/
theorem mem_waitingFor_iff {parent : BlockHash} {block : Block} :
    block ∈ ledger.orphans.waitingFor parent ↔
      block ∈ collection ∧ block.checkBody = .ok () ∧ block.isGenesis = false ∧
        block.parentHash = parent ∧ ledger.tree.contains parent = false := by
  constructor
  · intro waits
    rcases OrphanBuffer.mem_waitingFor.mp waits with ⟨orphan, filed, rfl⟩
    rcases tracks.buffered parent orphan filed with ⟨mem, sound, notGenesis, missing⟩
    exact ⟨mem, sound, notGenesis, tracks.wellFormed.filed parent orphan filed, missing⟩
  · rintro ⟨mem, sound, notGenesis, rfl, missing⟩
    cases tracks.placed complete mem sound with
    | waiting _ _ waits => exact waits
    | connected contained =>
        -- a connected block other than the genesis block has its parent connected
        have stored := tracks.block?_of_contains deliverable mem sound contained
        rcases BlockTree.block?_eq_some_iff.mp stored with ⟨entry, found, rfl⟩
        rcases tracks.grown.first_or_child (BlockTree.mem_of_lookup found) with
          ⟨_, genesis, _⟩ | ⟨_, linked, _, _⟩
        · rw [genesis] at notGenesis
          cases notGenesis
        · rw [BlockTree.contains_eq_false_iff.mp missing] at linked
          cases linked
    | refused _ linked _ =>
        rcases BlockTree.block?_eq_some_iff.mp linked with ⟨_, found, _⟩
        rw [BlockTree.contains_eq_false_iff.mp missing] at found
        cases found

omit deliverable complete in
/-- No more blocks are stored than the collection has. -/
theorem count_le : ledger.tree.count ≤ collection.card :=
  tracks.grown.length_le_card fun entry mem => (tracks.stored entry mem).1

omit complete in
/-- Another complete delivery has stored the same blocks with the same weights. -/
theorem stored_subset {delivered' : List Block} {ledger' : Ledger σ}
    (tracks' : Tracks engine collection delivered' ledger' [])
    (complete' : ∀ block ∈ collection, block ∈ delivered') :
    ∀ entry ∈ ledger.tree.stored, entry ∈ ledger'.tree.stored := by
  apply tracks.grown.subset tracks'.grown fun _ _ => And.left
  intro entry mem
  have connectable := connectable_of_grown tracks.grown tracks.stored entry mem
  have stored := tracks'.block?_of_connectable deliverable complete' connectable
  rcases BlockTree.block?_eq_some_iff.mp stored with ⟨entry', found, same⟩
  exact ⟨entry', BlockTree.mem_of_lookup found, same⟩

end Tracks

/-! ## Deliveries in a row -/

/-- The ledger after deliveries in a row. -/
def deliverAll (ledger : Ledger σ) (deliveries : List (Block × Timestamp)) : Ledger σ :=
  ledger.run (deliveries.map fun delivery => .deliver delivery.1 delivery.2)

theorem tracks_deliverAll {engine : σ} {collection : Finset Block} {delivered : List Block}
    {ledger : Ledger σ} (deliverable : Deliverable collection) (steady : Steady engine)
    (tracks : Tracks engine collection delivered ledger []) {deliveries : List (Block × Timestamp)}
    (within : ∀ block ∈ deliveries.map Prod.fst, block ∈ collection) :
    Tracks engine collection ((deliveries.map Prod.fst).reverse ++ delivered)
      (ledger.deliverAll deliveries) [] := by
  induction deliveries generalizing ledger delivered with
  | nil => exact tracks
  | cons delivery rest ih =>
      rw [List.map_cons, List.forall_mem_cons] at within
      rw [List.map_cons, List.reverse_cons, List.append_assoc, List.singleton_append]
      exact ih (tracks.deliver deliverable steady within.1 delivery.2) within.2

theorem tracks_complete {engine : σ} {collection : Finset Block} {capacity : Nat}
    (deliverable : Deliverable collection) (steady : Steady engine)
    (room : collection.card ≤ capacity) {deliveries : List (Block × Timestamp)}
    (all : (deliveries.map Prod.fst).toFinset = collection) :
    ∃ delivered, (∀ block ∈ collection, block ∈ delivered) ∧
      Tracks engine collection delivered ((empty engine capacity).deliverAll deliveries) [] := by
  have mem (block : Block) : block ∈ deliveries.map Prod.fst ↔ block ∈ collection := by
    rw [← all, List.mem_toFinset]
  refine ⟨_, ?_, tracks_deliverAll deliverable steady (.empty room) fun block => (mem block).mp⟩
  intro block isMem
  rw [List.append_nil, List.mem_reverse]
  exact (mem block).mpr isMem

theorem canonical_deliverAll {engine : σ} {capacity : Nat} {deliveries : List (Block × Timestamp)}
    (fits : ((empty engine capacity).deliverAll deliveries).tree.count ≤ UInt64.size) :
    ((empty engine capacity).deliverAll deliveries).tree.Canonical := by
  have onward := (empty engine capacity).onward_run
    (deliveries.map fun delivery => Command.deliver delivery.1 delivery.2)
  exact (sound_onward onward BlockTree.sound_empty).canonical fits

/-- A collection of blocks may be delivered in any order, with any repetitions.  In the end the
connected blocks are the connectable ones, the orphans are the sound blocks without connected
parents, and all weights are the same; if only one block is heaviest, so are the head and the whole
canonical chain. -/
theorem deliverAll_order_independent {engine : σ} (steady : Steady engine) {capacity : UInt64}
    {collection : Finset Block} (deliverable : Deliverable collection)
    (room : collection.card ≤ capacity.toNat) {first second : List (Block × Timestamp)}
    (allFirst : (first.map Prod.fst).toFinset = collection)
    (allSecond : (second.map Prod.fst).toFinset = collection) :
    let ledger := (empty engine capacity.toNat).deliverAll first
    let other := (empty engine capacity.toNat).deliverAll second
    (∀ hash block, ledger.tree.block? hash = some block ↔
      Connectable engine collection block ∧ block.hash = hash) ∧
    (∀ parent block, block ∈ ledger.orphans.waitingFor parent ↔
      block ∈ collection ∧ block.checkBody = .ok () ∧ block.isGenesis = false ∧
        block.parentHash = parent ∧ ledger.tree.contains parent = false) ∧
    (∀ hash, ledger.orphans.contains hash = true ↔
      ∃ block ∈ ledger.orphans.waitingFor block.parentHash, block.hash = hash) ∧
    (∀ hash, ledger.tree.weight? hash = other.tree.weight? hash) ∧
    ledger.tree.bestWeight? = other.tree.bestWeight? ∧
    ((∃! hash, ledger.tree.IsHeaviest hash) →
      ledger.tree.bestHash? = other.tree.bestHash? ∧ ledger.tree.index = other.tree.index ∧
        ∀ number, ledger.tree.blockAt? number = other.tree.blockAt? number) := by
  intro ledger other
  rcases tracks_complete deliverable steady room allFirst with ⟨delivered, complete, tracks⟩
  rcases tracks_complete deliverable steady room allSecond with ⟨delivered', complete', tracks'⟩
  have small : collection.card ≤ UInt64.size :=
    Nat.le_trans room (Nat.le_of_lt capacity.toNat_lt)
  have canonical : ledger.tree.Canonical :=
    canonical_deliverAll (Nat.le_trans tracks.count_le small)
  have canonical' : other.tree.Canonical :=
    canonical_deliverAll (Nat.le_trans tracks'.count_le small)
  have same : ∀ entry, entry ∈ ledger.tree.stored ↔ entry ∈ other.tree.stored := fun entry =>
    ⟨tracks.stored_subset deliverable tracks' complete' entry,
      tracks'.stored_subset deliverable tracks complete entry⟩
  refine ⟨?chain, ?orphans, ?contained, canonical.weight?_congr canonical' same,
    canonical.bestWeight?_congr canonical' same, ?unique⟩
  case chain => exact fun _ _ => tracks.block?_eq_some_iff deliverable complete
  case orphans => exact fun _ _ => tracks.mem_waitingFor_iff deliverable complete
  case contained =>
      intro hash
      rw [tracks.wellFormed.contains_iff]
      constructor
      · rintro ⟨parent, orphan, filed, isHash⟩
        refine ⟨orphan.block, ?_, isHash⟩
        rw [tracks.wellFormed.filed parent orphan filed]
        exact OrphanBuffer.mem_waitingFor.mpr ⟨orphan, filed, rfl⟩
      · rintro ⟨block, waits, isHash⟩
        rcases OrphanBuffer.mem_waitingFor.mp waits with ⟨orphan, filed, rfl⟩
        exact ⟨_, orphan, filed, isHash⟩
  case unique =>
      intro unique
      rcases canonical.head_index_congr canonical' same unique with ⟨sameHead, sameIndex⟩
      refine ⟨by simp only [BlockTree.bestHash?, sameHead], sameIndex, ?_⟩
      intro number
      have sameBlock : ledger.tree.block? = other.tree.block? := by
        funext hash
        simp only [BlockTree.block?, BlockTree.find?_eq_lookup,
          BlockTree.lookup_congr canonical.grown canonical'.grown same]
      rw [BlockTree.blockAt?, BlockTree.blockAt?, sameIndex, sameBlock]

/-- An engine that holds every root. -/
structure OpenEngine where

instance : StateEngine OpenEngine where
  execute engine parentRoot _ transactions := (.ok (parentRoot.after transactions), engine)

theorem steady_openEngine : Steady (OpenEngine.mk) :=
  ⟨fun parentRoot _ transactions => parentRoot.after transactions, fun _ _ _ _ _ => rfl⟩

/-- A genesis block, a block on it, and a block whose parent is unknown. -/
def orderBase : Block := ({} : GenesisSpec).block

def orderChild : Block := .build 1 orderBase.hash [] [] orderBase.stateRoot .epoch .zero .one

def orderStray : Block := .build 7 .zero [] [] .zero .epoch .zero .one

def orderCollection : Finset Block := {orderBase, orderChild, orderStray}

def orderForwards : List (Block × Timestamp) :=
  [(orderBase, .epoch), (orderChild, .epoch), (orderStray, .epoch)]

def orderBackwards : List (Block × Timestamp) :=
  [(orderStray, .epoch), (orderChild, .epoch), (orderBase, .epoch), (orderChild, .epoch)]

theorem orderBackwards_index_eq :
    let ledger := (empty OpenEngine.mk (3 : UInt64).toNat).deliverAll orderForwards
    let other := (empty OpenEngine.mk (3 : UInt64).toNat).deliverAll orderBackwards
    (∃! hash, ledger.tree.IsHeaviest hash) ∧ ledger.tree.bestHash? = other.tree.bestHash? ∧
      ledger.tree.index = other.tree.index := by
  intro ledger other
  have deliverable : Deliverable orderCollection :=
    ⟨by decide +kernel, by decide +kernel⟩
  have stored : ledger.tree.stored =
      [⟨orderChild, .ofWord 2⟩, ⟨orderBase, .one⟩] := by decide +kernel
  have weights {hash : BlockHash} {weight : Difficulty}
      (weighed : ledger.tree.weight? hash = some weight) :
      hash = orderChild.hash ∨ weight = .one := by
    rcases BlockTree.weight?_eq_some_iff.mp weighed with ⟨entry, found, rfl⟩
    have mem := BlockTree.mem_of_lookup found
    rw [stored, List.mem_cons, List.mem_singleton] at mem
    rcases mem with rfl | rfl
    · exact .inl (BlockTree.hash_of_lookup found).symm
    · exact .inr rfl
  have top : ledger.tree.weight? orderChild.hash = some (.ofWord 2) := by
    rw [BlockTree.weight?_eq_some_iff, stored]
    exact ⟨_, BlockTree.lookup_cons_self _ _, rfl⟩
  have unique : ∃! hash, ledger.tree.IsHeaviest hash := by
    refine ⟨orderChild.hash, ⟨.ofWord 2, top, ?_⟩, ?_⟩
    · intro hash weight weighed
      rcases weights weighed with rfl | rfl
      · rw [top] at weighed
        cases weighed
        exact Nat.le_refl _
      · decide +kernel
    · rintro hash ⟨weight, weighed, most⟩
      rcases weights weighed with same | rfl
      · exact same
      · exact absurd (most _ _ top) (by decide +kernel)
  have room : orderCollection.card ≤ (3 : UInt64).toNat := by decide +kernel
  have allForwards : (orderForwards.map Prod.fst).toFinset = orderCollection := by decide +kernel
  have allBackwards : (orderBackwards.map Prod.fst).toFinset = orderCollection := by
    decide +kernel
  have independent := deliverAll_order_independent steady_openEngine deliverable room allForwards
    allBackwards
  have agreed := independent.2.2.2.2.2 unique
  exact ⟨unique, agreed.1, agreed.2.1⟩

end Ledger

end HeaviestChain
