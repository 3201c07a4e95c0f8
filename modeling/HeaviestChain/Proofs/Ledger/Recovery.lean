import HeaviestChain.Proofs.Ledger.Gathering

/-!
# Recovery after faults

Whatever faults the state engine had while blocks of a collection were delivered, it is enough to
deliver the collection once more without faults.  What the faults left behind does no harm: no block
is held that was not delivered, the orphans are not connected, and there is room for all that are
not (`Custody`, `Comprises`).  From then on every block delivered is connected or waits for a parent
that is not connected (`Gathers`), and following the parents down to the genesis block shows that
none waits in the end.

Numbers descend along parents.  A machine word could start over, but then all its values would have
to occur among the numbers of the collection, which is smaller.
-/

namespace HeaviestChain

namespace Ledger

open BlockTree (Grown lookup)
open StateEngine (Asked Steady)

variable {σ : Type} [StateEngine σ]

/-- A collection of blocks known by their hashes: one genesis block, whose body is sound, and blocks
that pass the full check on a parent in the collection. -/
structure Recoverable (engine : σ) (collection : Finset Block) : Prop where
  distinct : ∀ block ∈ collection, ∀ other ∈ collection, block.hash = other.hash → block = other
  genesis : ∃ first ∈ collection, first.isGenesis = true ∧ first.checkBody = .ok () ∧
    ∀ other ∈ collection, other.isGenesis = true → other = first
  parented : ∀ block ∈ collection, block.isGenesis = false →
    ∃ parent ∈ collection, parent.hash = block.parentHash ∧
      (block.checkOn parent engine).1 = .ok ()

namespace Recoverable

variable {engine : σ} {collection : Finset Block} (recoverable : Recoverable engine collection)

include recoverable

theorem supply : Supply engine (· ∈ collection) collection where
  within := fun _ mem => mem
  sound := by
    intro block mem
    cases kind : block.isGenesis with
    | true =>
        rcases recoverable.genesis with ⟨first, _, _, sound, only⟩
        rw [only block mem kind]
        exact sound
    | false =>
        rcases recoverable.parented block mem kind with ⟨parent, _, _, accepted⟩
        exact (Block.checkOn_eq_ok_iff.mp (Prod.ext accepted rfl)).1
  distinct := fun block mem other otherMem same => recoverable.distinct other otherMem block mem same
  single := by
    intro block mem isGenesis other otherMem otherGenesis
    rcases recoverable.genesis with ⟨first, _, _, _, only⟩
    rw [only block mem isGenesis, only other otherMem otherGenesis]
  accepted := by
    intro block mem notGenesis parent parentMem linked
    rcases recoverable.parented block mem notGenesis with ⟨parent', mem', linked', accepted⟩
    rw [recoverable.distinct parent parentMem parent' mem' (linked.trans linked'.symm)]
    exact accepted

/-! ## Numbers -/

omit recoverable in
theorem number_of_accepted {block parent : Block} (accepted : (block.checkOn parent engine).1 = .ok ()) :
    block.number = parent.number + 1 :=
  (Block.checkOn_eq_ok_iff.mp (Prod.ext accepted rfl)).2.1

/-- From a block whose number has started over, the numbers of its ancestors go through all
values. -/
theorem exists_number {block : Block} (mem : block ∈ collection) (notGenesis : block.isGenesis = false)
    (zero : block.number.toNat = 0) (steps : Nat) (few : steps < UInt64.size) :
    ∃ ancestor ∈ collection, ancestor.number.toNat + steps + 1 = UInt64.size := by
  induction steps with
  | zero =>
      rcases recoverable.parented block mem notGenesis with ⟨parent, parentMem, _, accepted⟩
      refine ⟨parent, parentMem, ?_⟩
      have bound := parent.number.toNat_lt
      simp only [number_of_accepted accepted, UInt64.toNat_add, UInt64.toNat_one] at zero
      simp only [UInt64.size]
      omega
  | succ steps ih =>
      rcases ih (by omega) with ⟨lower, lowerMem, level⟩
      cases kind : lower.isGenesis with
      | true =>
          have first := BlockTree.number_of_isGenesis kind
          omega
      | false =>
          rcases recoverable.parented lower lowerMem kind with ⟨parent, parentMem, _, accepted⟩
          refine ⟨parent, parentMem, ?_⟩
          have bound := parent.number.toNat_lt
          simp only [number_of_accepted accepted, UInt64.toNat_add, UInt64.toNat_one] at level
          simp only [UInt64.size] at level few ⊢
          omega

variable (small : collection.card < UInt64.size)

include small

/-- There are too few blocks for a number to start over. -/
theorem number_pos {block : Block} (mem : block ∈ collection) (notGenesis : block.isGenesis = false) :
    0 < block.number.toNat := by
  by_contra zero
  have all : Finset.range UInt64.size ⊆ collection.image fun block => block.number.toNat := by
    intro value within
    have below := Finset.mem_range.mp within
    rcases recoverable.exists_number mem notGenesis (by omega) (UInt64.size - 1 - value) (by omega)
      with ⟨ancestor, ancestorMem, level⟩
    refine Finset.mem_image.mpr ⟨ancestor, ancestorMem, ?_⟩
    omega
  have many : UInt64.size ≤ collection.card :=
    calc UInt64.size = (Finset.range UInt64.size).card := (Finset.card_range _).symm
      _ ≤ (collection.image fun block => block.number.toNat).card := Finset.card_le_card all
      _ ≤ collection.card := Finset.card_image_le
  omega

theorem exists_parent_below {block : Block} (mem : block ∈ collection)
    (notGenesis : block.isGenesis = false) :
    ∃ parent ∈ collection, parent.hash = block.parentHash ∧
      parent.number.toNat < block.number.toNat := by
  have above := recoverable.number_pos small mem notGenesis
  rcases recoverable.parented block mem notGenesis with ⟨parent, parentMem, linked, accepted⟩
  refine ⟨parent, parentMem, linked, ?_⟩
  have bound := parent.number.toNat_lt
  simp only [number_of_accepted accepted, UInt64.toNat_add, UInt64.toNat_one] at above ⊢
  omega

end Recoverable

/-! ## Complete deliveries -/

namespace Gathers

variable {engine : σ} {collection : Finset Block} {delivered : List Block} {ledger : Ledger σ}
  (recoverable : Recoverable engine collection) (small : collection.card < UInt64.size)
  (gathers : Gathers engine (· ∈ collection) collection delivered ledger [])
  (complete : ∀ block ∈ collection, block ∈ delivered)

include recoverable small gathers complete

theorem block?_eq_some {block : Block} (mem : block ∈ collection) :
    ledger.tree.block? block.hash = some block := by
  induction height : block.number.toNat using Nat.strong_induction_on generalizing block with
  | _ _ lower =>
      rcases gathers.connected_or_waits recoverable.supply mem (complete block mem) with
        connected | ⟨notGenesis, missing, _⟩
      · exact connected
      · rcases recoverable.exists_parent_below small mem notGenesis with
          ⟨parent, parentMem, linked, below⟩
        have connected := lower _ (height ▸ below) parentMem rfl
        rcases BlockTree.block?_eq_some_iff.mp connected with ⟨entry, found, _⟩
        rw [← linked, BlockTree.contains_eq_false_iff, found] at missing
        cases missing

theorem orphans_isEmpty : ledger.orphans.isEmpty = true := by
  apply OrphanBuffer.isEmpty_iff.mpr
  intro hash
  rw [← Bool.not_eq_true]
  intro held
  rcases gathers.custody.wellFormed.contains_iff.mp held with ⟨parent, orphan, filed, rfl⟩
  have mem := gathers.comprises.buffered parent orphan filed
  have connected := gathers.block?_eq_some recoverable small complete mem
  rcases BlockTree.block?_eq_some_iff.mp connected with ⟨entry, found, isBlock⟩
  rw [← isBlock, gathers.custody.not_waiting (BlockTree.mem_of_lookup found)] at held
  cases held

/-- Another complete delivery has stored the same blocks with the same weights. -/
theorem stored_subset {delivered' : List Block} {ledger' : Ledger σ}
    (gathers' : Gathers engine (· ∈ collection) collection delivered' ledger' []) :
    ∀ entry ∈ ledger'.tree.stored, entry ∈ ledger.tree.stored := by
  apply gathers'.grown.subset gathers.grown fun _ _ => And.left
  intro entry mem
  have connected := gathers.block?_eq_some recoverable small complete
    (gathers'.comprises.stored entry mem)
  rcases BlockTree.block?_eq_some_iff.mp connected with ⟨entry', found, same⟩
  exact ⟨entry', BlockTree.mem_of_lookup found, same⟩

omit recoverable complete in
theorem canonical {start : σ} {capacity : Nat} (onward : Onward (empty start capacity, []) (ledger, [])) :
    ledger.tree.Canonical := by
  apply (sound_onward onward BlockTree.sound_empty).canonical
  have few := gathers.grown.length_le_card gathers.comprises.stored
  simp only [BlockTree.count]
  omega

end Gathers

/-! ## Faults -/

/-- The state engine has come back after a run that delivered blocks of the collection. -/
theorem gathers_of_run {engine start : σ} {capacity : Nat} {collection : Finset Block}
    (room : collection.card ≤ capacity) {commands : List (Command σ)}
    (offered : ∀ block now, Command.deliver block now ∈ commands → block ∈ collection) :
    Gathers engine (· ∈ collection) collection []
      (((empty start capacity).run commands).perform (.alter engine)) [] := by
  have onward := ((empty start capacity).onward_run commands).trans
    (onward_perform _ (.alter engine))
  have comprises := comprises_run (fun _ mem _ => mem) (custody_empty start capacity)
    (comprises_empty start capacity) fun block now mem _ => offered block now mem
  exact
    { custody := custody_onward onward (custody_empty start capacity)
      grown := (sound_onward onward BlockTree.sound_empty).grown
      comprises := { comprises with }
      covered := List.forall_mem_nil _
      room := by
        rw [capacity_onward onward]
        exact room
      asked := .refl }

theorem gathers_complete {engine start : σ} (steady : Steady engine) {capacity : Nat}
    {collection : Finset Block} (recoverable : Recoverable engine collection)
    (room : collection.card ≤ capacity) {commands : List (Command σ)}
    (offered : ∀ block now, Command.deliver block now ∈ commands → block ∈ collection)
    {deliveries : List (Block × Timestamp)}
    (all : (deliveries.map Prod.fst).toFinset = collection) :
    ∃ delivered, (∀ block ∈ collection, block ∈ delivered) ∧
      Gathers engine (· ∈ collection) collection delivered
        ((((empty start capacity).run commands).perform (.alter engine)).deliverAll deliveries)
        [] := by
  have listed (block : Block) : block ∈ deliveries.map Prod.fst ↔ block ∈ collection := by
    rw [← all, List.mem_toFinset]
  have resumed : Gathers engine (· ∈ collection) collection []
      (((empty start capacity).run commands).perform (.alter engine)) [] :=
    gathers_of_run room offered
  refine ⟨_, ?_, resumed.deliverAll recoverable.supply steady fun block => (listed block).mp⟩
  intro block mem
  simpa using (listed block).mpr mem

/-- Whatever faults there were while blocks of a collection were delivered: when all of them have
been delivered once more without faults, all are connected, none waits, every weight is the one that
a run without faults leads to, and so are the head and the canonical chain if only one block is
heaviest. -/
theorem recovered_of_redelivery {engine : σ} (steady : Steady engine) {capacity : UInt64}
    {collection : Finset Block} (recoverable : Recoverable engine collection)
    (room : collection.card ≤ capacity.toNat) (start : σ) {commands : List (Command σ)}
    (offered : ∀ block now, Command.deliver block now ∈ commands → block ∈ collection)
    {redelivered undisturbed : List (Block × Timestamp)}
    (all : (redelivered.map Prod.fst).toFinset = collection)
    (allUndisturbed : (undisturbed.map Prod.fst).toFinset = collection) :
    let disturbed := (empty start capacity.toNat).run commands
    let ledger := (disturbed.perform (.alter engine)).deliverAll redelivered
    let other := (empty engine capacity.toNat).deliverAll undisturbed
    (∀ block ∈ collection, ledger.tree.block? block.hash = some block) ∧
    ledger.orphans.isEmpty = true ∧
    (∀ hash, ledger.tree.weight? hash = other.tree.weight? hash) ∧
    ((∃! hash, ledger.tree.IsHeaviest hash) →
      ledger.tree.bestHash? = other.tree.bestHash? ∧ ledger.tree.index = other.tree.index ∧
        ∀ number, ledger.tree.blockAt? number = other.tree.blockAt? number) := by
  intro disturbed ledger other
  have small : collection.card < UInt64.size := Nat.lt_of_le_of_lt room capacity.toNat_lt
  have onward : Onward (empty start capacity.toNat, []) (ledger, []) :=
    ((onward_run _ commands).trans (onward_perform _ (.alter engine))).trans (onward_run _ _)
  have onward' : Onward (empty engine capacity.toNat, []) (other, []) := onward_run _ _
  rcases gathers_complete steady recoverable room offered all with ⟨_, complete, gathers⟩
  -- the run without faults goes on from an empty run with the same engine
  have nothing : ∀ block now, Command.deliver block now ∈ ([] : List (Command σ)) →
      block ∈ collection := by
    intro block now mem
    cases mem
  have undisturbedGathers : ∃ delivered, (∀ block ∈ collection, block ∈ delivered) ∧
      Gathers engine (· ∈ collection) collection delivered other [] :=
    @gathers_complete _ _ engine engine steady _ _ recoverable room [] nothing _ allUndisturbed
  rcases undisturbedGathers with ⟨_, complete', gathers'⟩
  have canonical : ledger.tree.Canonical := gathers.canonical small onward
  have canonical' : other.tree.Canonical := gathers'.canonical small onward'
  have same : ∀ entry, entry ∈ ledger.tree.stored ↔ entry ∈ other.tree.stored := fun entry =>
    ⟨gathers'.stored_subset recoverable small complete' gathers entry,
      gathers.stored_subset recoverable small complete gathers' entry⟩
  refine ⟨?connected, gathers.orphans_isEmpty recoverable small complete,
    canonical.weight?_congr canonical' same, ?unique⟩
  case connected => exact fun block mem => gathers.block?_eq_some recoverable small complete mem
  case unique =>
      intro unique
      rcases canonical.head_index_congr canonical' same unique with ⟨sameHead, sameIndex⟩
      refine ⟨?_, sameIndex, canonical.blockAt?_congr canonical' same unique⟩
      simp only [BlockTree.bestHash?, sameHead]

/-- An engine that fails on the next questions and then holds every root. -/
structure FlakyEngine where
  faults : Nat

instance : StateEngine FlakyEngine where
  execute engine parentRoot _ transactions :=
    match engine.faults with
    | 0 => (.ok (parentRoot.after transactions), engine)
    | left + 1 => (.error (.rootUnreadable parentRoot), ⟨left⟩)

theorem steady_flakyEngine : Steady (FlakyEngine.mk 0) := by
  refine ⟨fun parentRoot _ transactions => parentRoot.after transactions, ?_⟩
  intro later asked
  have still : later = ⟨0⟩ := by
    induction asked with
    | refl => rfl
    | tail _ step ih =>
        rcases step with ⟨_, _, _, rfl⟩
        rw [ih]
        rfl
  intro parentRoot context transactions
  rw [still]
  rfl

/-- Two blocks on a genesis block, and a third on the first of them. -/
def recoveryBase : Block := ({} : GenesisSpec).block

def recoveryLeft : Block :=
  .build 1 recoveryBase.hash [] [] recoveryBase.stateRoot .epoch .zero .one

def recoveryRight : Block :=
  .build 1 recoveryBase.hash [] [] recoveryBase.stateRoot ⟨5⟩ .zero .one

def recoveryTip : Block :=
  .build 2 recoveryLeft.hash [] [] recoveryLeft.stateRoot .epoch .zero .one

def recoveryCollection : Finset Block := {recoveryBase, recoveryLeft, recoveryRight, recoveryTip}

def recoveryRun : List (Command FlakyEngine) :=
  [.deliver recoveryLeft .epoch, .deliver recoveryRight .epoch, .deliver recoveryTip .epoch,
    .deliver recoveryBase .epoch]

def recoveryAgain : List (Block × Timestamp) :=
  [(recoveryTip, .epoch), (recoveryRight, .epoch), (recoveryLeft, .epoch), (recoveryBase, .epoch)]

/-- The fault comes while the orphans of the genesis block are looked at: the first of them is gone,
and the second waits again although its parent is connected. -/
theorem recoveryTip_recovered :
    let disturbed := (empty (FlakyEngine.mk 1) (4 : UInt64).toNat).run recoveryRun
    let ledger := (disturbed.perform (.alter ⟨0⟩)).deliverAll recoveryAgain
    (disturbed.knows recoveryLeft.hash = false ∧
        disturbed.orphans.contains recoveryRight.hash = true ∧
        disturbed.tree.contains recoveryRight.parentHash = true) ∧
      (∀ block ∈ recoveryCollection, ledger.tree.block? block.hash = some block) ∧
      ledger.orphans.isEmpty = true := by
  intro disturbed ledger
  have recoverable : Recoverable (FlakyEngine.mk 0) recoveryCollection :=
    ⟨by decide +kernel, by decide +kernel, by decide +kernel⟩
  have room : recoveryCollection.card ≤ (4 : UInt64).toNat := by decide +kernel
  have offered : ∀ block now, Command.deliver block now ∈ recoveryRun →
      block ∈ recoveryCollection := by
    intro block now mem
    simp only [recoveryRun, List.mem_cons, Command.deliver.injEq, List.not_mem_nil, or_false] at mem
    simp only [recoveryCollection, Finset.mem_insert, Finset.mem_singleton]
    rcases mem with ⟨here, _⟩ | ⟨here, _⟩ | ⟨here, _⟩ | ⟨here, _⟩
    · exact .inr (.inl here)
    · exact .inr (.inr (.inl here))
    · exact .inr (.inr (.inr here))
    · exact .inl here
  have all : (recoveryAgain.map Prod.fst).toFinset = recoveryCollection := by decide +kernel
  have recovered := recovered_of_redelivery steady_flakyEngine recoverable room (FlakyEngine.mk 1)
    offered all all
  exact ⟨by decide +kernel, recovered.1, recovered.2.1⟩

end Ledger

end HeaviestChain
