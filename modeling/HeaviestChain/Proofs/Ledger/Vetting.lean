import HeaviestChain.Proofs.Ledger.Custody
import HeaviestChain.RootEngine

/-!
# Only valid blocks are stored

A block can reach the tree when it is delivered, when its parent is connected and releases it, or
when it is delivered once more after a fault.  All of these end with a look at the block on its
stored parent, and the look asks the state engine.  So as long as the engine gives no other roots
than those of one function, every stored block is valid by this function, however often the engine
fails in between (`Vetted`).  What waits for a parent has a sound body, since a block with another
one is dropped before it is parked.

Only a fault can keep a valid block with a stored parent out of the tree: a delivery without one
stores the block exactly if it is valid.
-/

namespace HeaviestChain

namespace Ledger

open BlockTree (Grown)
open StateEngine (Consistent)

variable {σ : Type} [StateEngine σ]

/-- The engine gives only the roots of a function, and what is stored is valid by them. -/
structure Vetted (answer : Root → ExecutionContext → List Transaction → Root) (ledger : Ledger σ) :
    Prop where
  consistent : Consistent answer ledger.engine
  valid : Grown (fun child parent => child.isGenesis = false ∧ child.ValidOn answer parent)
    ledger.tree.stored
  sound : ∀ entry ∈ ledger.tree.stored, entry.block.checkBody = .ok ()

variable {answer : Root → ExecutionContext → List Transaction → Root} {ledger : Ledger σ}

theorem vetted_empty {engine : σ} (consistent : Consistent answer engine) (capacity : Nat) :
    Vetted answer (empty engine capacity) where
  consistent := consistent
  valid := .empty
  sound := List.forall_mem_nil _

namespace Vetted

theorem examine (vetted : Vetted answer ledger) (block : Block) (now : Timestamp) :
    Vetted answer (ledger.examine block now).ledger where
  consistent := vetted.consistent.asked (ledger.asked_examine block now)
  valid := by
    apply grown_examine vetted.valid
    intro parent engine notGenesis accepted
    exact ⟨notGenesis, Block.validOn_of_checkOn vetted.consistent (congrArg Prod.fst accepted)⟩
  sound := checkBody_stored_examine vetted.sound block now

theorem run (vetted : Vetted answer ledger) {commands : List (Command σ)}
    (alters : ∀ engine, Command.alter engine ∈ commands → Consistent answer engine) :
    Vetted answer (ledger.run commands) := by
  apply run_induction (P := Vetted answer) _ _ _ _ alters vetted
  · exact fun _ block now vetted => vetted.examine block now
  · exact fun _ _ vetted => { vetted with }
  · exact fun _ _ vetted => { vetted with }
  · exact fun _ _ consistent vetted => { vetted with consistent }

theorem parent_valid (vetted : Vetted answer ledger) {entry : StoredBlock}
    (mem : entry ∈ ledger.tree.stored) (notGenesis : entry.block.isGenesis = false) :
    ∃ parent, ledger.tree.block? entry.block.parentHash = some parent ∧
      entry.block.ValidOn answer parent := by
  rcases vetted.valid.first_or_child mem with ⟨_, genesis, _⟩ | ⟨parent, linked, ⟨_, valid⟩, _⟩
  · rw [notGenesis] at genesis
    cases genesis
  · exact ⟨parent.block, BlockTree.block?_eq_some_iff.mpr ⟨parent, linked, rfl⟩, valid⟩

end Vetted

/-! ## What a delivery stores -/

section Stored

variable {block parent : Block} {now : Timestamp}

/-- A block that is stored stays stored. -/
theorem block?_turns {work next : Ledger σ × List Block} (turns : Turns now work next)
    {hash : BlockHash} (stored : work.1.tree.block? hash = some block) :
    next.1.tree.block? hash = some block := by
  apply Turns.keeps (P := fun ledger => ledger.tree.block? hash = some block) _ _ turns stored
  · intro ledger other now stored
    rcases ledger.examine_tree_pool other now with ⟨same, _⟩ | ⟨joins, attached, _⟩
    · rw [same]
      exact stored
    · rcases joins.exists_stored_attach with ⟨weight, added⟩
      rw [attached]
      exact BlockTree.block?_of_stored_cons added joins.unknown stored
  · exact fun _ _ stored => stored

theorem block?_deliver_of_connected (verdict : (ledger.examine block now).verdict = .connected) :
    (ledger.deliver block now).ledger.tree.block? block.hash = some block := by
  have stored : (ledger.examine block now).ledger.tree.block? block.hash = some block := by
    have effect := ledger.effect block now
    generalize ledger.examine block now = admission at effect verdict ⊢
    cases effect with
    | dropped unconnected => exact absurd verdict unconnected
    | parked _ _ => cases verdict
    | joined joins =>
        rcases joins.exists_stored_attach with ⟨weight, added⟩
        simp only [BlockTree.block?_eq_some_iff, settle, added]
        exact ⟨_, BlockTree.lookup_cons_self _ _, rfl⟩
  exact block?_turns (turns_end (.single (.connected verdict))) stored

/-- An unknown block with a stored parent is connected if it is valid and settled otherwise, unless
the engine fails. -/
theorem verdict_of_linked (now : Timestamp) (consistent : Consistent answer ledger.engine)
    (grown : Grown Admitted ledger.tree.stored)
    (unknown : ledger.tree.contains block.hash = false)
    (linked : ledger.tree.block? block.parentHash = some parent)
    (inRange : block.isGenesis = false ∨ ledger.tree.count < UInt64.size)
    (answered : ∀ fault, (block.checkOn parent ledger.engine).1 ≠ .error (.state fault)) :
    ((ledger.examine block now).verdict = .connected ∧ block.ValidOn answer parent) ∨
      ((ledger.examine block now).verdict = .settled ∧ ¬ block.ValidOn answer parent) := by
  rcases BlockTree.block?_eq_some_iff.mp linked with ⟨entry, found, rfl⟩
  have examination := ledger.examination block now
  generalize ledger.examine block now = admission at examination ⊢
  cases examination with
  | known known =>
      rw [unknown] at known
      cases known
  | unsound _ flawed =>
      right
      refine ⟨rfl, ?_⟩
      rintro ⟨sound, _, _⟩
      rw [flawed] at sound
      cases sound
  | secondGenesis _ _ genesis _ =>
      right
      refine ⟨rfl, ?_⟩
      rintro ⟨_, next, _⟩
      have few : ledger.tree.count < UInt64.size := by simpa [genesis] using inRange
      have below := BlockTree.number_lt_length grown (BlockTree.mem_of_lookup found)
      have zero := BlockTree.number_of_isGenesis genesis
      rw [next, UInt64.toNat_add, UInt64.toNat_one] at zero
      simp only [BlockTree.count, UInt64.size] at few
      omega
  | first _ _ _ empty =>
      rw [BlockTree.lookup_of_isEmpty empty] at found
      cases found
  | parentless _ _ _ missing =>
      rw [linked] at missing
      cases missing
  | @valid parent' engine _ sound notGenesis linked' accepted =>
      rw [linked] at linked'
      cases linked'
      left
      have joins := Joins.of_accepted unknown notGenesis linked accepted
      rw [connect_eq { ledger with engine } joins]
      exact ⟨rfl, Block.validOn_of_checkOn consistent (congrArg Prod.fst accepted)⟩
  | faulted _ _ _ linked' failed =>
      rw [linked] at linked'
      cases linked'
      exact absurd (congrArg Prod.fst failed) (answered _)
  | invalid _ _ _ linked' refused =>
      rw [linked] at linked'
      cases linked'
      right
      refine ⟨rfl, ?_⟩
      intro valid
      rcases Block.checkOn_of_validOn consistent valid with accepted | ⟨fault, failed⟩
      · rw [refused] at accepted
        cases accepted
      · exact answered fault failed

theorem block?_deliver_eq_some_iff (consistent : Consistent answer ledger.engine)
    (grown : Grown Admitted ledger.tree.stored)
    (unknown : ledger.tree.contains block.hash = false)
    (linked : ledger.tree.block? block.parentHash = some parent)
    (inRange : block.isGenesis = false ∨ ledger.tree.count < UInt64.size)
    (answered : ∀ fault, (block.checkOn parent ledger.engine).1 ≠ .error (.state fault))
    {found : Block} :
    (ledger.deliver block now).ledger.tree.block? block.hash = some found ↔
      found = block ∧ block.ValidOn answer parent := by
  rcases verdict_of_linked now consistent grown unknown linked inRange answered with
    ⟨verdict, valid⟩ | ⟨verdict, invalid⟩
  · simp [block?_deliver_of_connected verdict, valid, eq_comm]
  · have absent : ledger.tree.block? block.hash = none := by
      simpa [BlockTree.block?, BlockTree.contains] using unknown
    simp [deliver_of_settled verdict, tree_examine_of_settled verdict, absent, invalid]

end Stored

theorem consistent_turns {answer : Root → ExecutionContext → List Transaction → Root}
    {work next : Ledger σ × List Block} (turns : Turns now work next)
    (consistent : Consistent answer work.1.engine) : Consistent answer next.1.engine := by
  apply Turns.keeps (P := fun ledger => Consistent answer ledger.engine) _ _ turns consistent
  · exact fun ledger block now consistent => consistent.asked (ledger.asked_examine block now)
  · exact fun _ _ consistent => consistent

/-! ## Runs -/

/-- Only valid blocks are stored.  In whatever way blocks were delivered, orphans expired and the
engine failed or changed, as long as it gave no other roots than those of `answer`: every stored
block has a sound body, and all but genesis blocks are valid on their stored parents; everything
that waits has a sound body; and an unknown block with a stored parent, on which the engine does not
fail, is stored by its delivery exactly if it is valid on that parent.  Only if the numbers in the
tree have filled a machine word this says nothing of another genesis block. -/
theorem valid_of_run {engine : σ} (consistent : Consistent answer engine) (capacity : Nat)
    {commands : List (Command σ)}
    (alters : ∀ engine, Command.alter engine ∈ commands → Consistent answer engine) :
    let ledger := (empty engine capacity).run commands
    (∀ entry ∈ ledger.tree.stored, entry.block.checkBody = .ok () ∧
      (entry.block.isGenesis = false →
        ∃ parent, ledger.tree.block? entry.block.parentHash = some parent ∧
          entry.block.ValidOn answer parent)) ∧
    (∀ parent, ∀ block ∈ ledger.orphans.waitingFor parent, block.checkBody = .ok ()) ∧
    ∀ block parent now, ledger.tree.contains block.hash = false →
      ledger.tree.block? block.parentHash = some parent →
      (block.isGenesis = false ∨ ledger.tree.count < UInt64.size) →
      (∀ fault, (block.checkOn parent ledger.engine).1 ≠ .error (.state fault)) →
      ∀ found, (ledger.deliver block now).ledger.tree.block? block.hash = some found ↔
        found = block ∧ block.ValidOn answer parent := by
  intro ledger
  have vetted : Vetted answer ledger := (vetted_empty consistent capacity).run alters
  have grown : Grown Admitted ledger.tree.stored :=
    (sound_onward ((empty engine capacity).onward_run commands) BlockTree.sound_empty).grown
  have comprises : Comprises (·.checkBody = .ok ()) (·.checkBody = .ok ()) ledger [] :=
    comprises_run (fun _ _ sound => sound) (custody_empty engine capacity)
      (comprises_empty engine capacity) fun _ _ _ sound => sound
  refine ⟨?stored, ?waiting, ?delivered⟩
  case stored => exact fun entry mem => ⟨vetted.sound entry mem, vetted.parent_valid mem⟩
  case waiting =>
      intro parent block waits
      rcases OrphanBuffer.mem_waitingFor.mp waits with ⟨orphan, filed, rfl⟩
      exact comprises.buffered parent orphan filed
  case delivered =>
      intro block parent now unknown linked inRange answered found
      exact block?_deliver_eq_some_iff vetted.consistent grown unknown linked inRange answered

/-- The roots that an engine of bare roots gives. -/
def bareRoots (parentRoot : Root) (_ : ExecutionContext) (transactions : List Transaction) : Root :=
  parentRoot.after transactions

theorem consistent_rootEngine (engine : RootEngine) : Consistent bareRoots engine := by
  intro later _ parentRoot context transactions root answered
  simp only [StateEngine.execute, RootEngine.execute] at answered
  split at answered
  case isTrue => cases answered
  case isFalse =>
      split at answered
      case isTrue =>
          cases answered
          rfl
      case isFalse => cases answered

/-- A chain of four blocks, its second block with a body that is not its own, and a block without a
parent. -/
def vettedBase : Block := ({} : GenesisSpec).block

def vettedChild : Block :=
  .build 1 vettedBase.hash [] [] vettedBase.stateRoot .epoch .zero .one

def vettedTip : Block :=
  .build 2 vettedChild.hash [] [] vettedChild.stateRoot .epoch .zero .one

def vettedNext : Block :=
  .build 3 vettedTip.hash [] [] vettedTip.stateRoot .epoch .zero .one

def vettedForgery : Block := { vettedChild with uncles := [vettedBase.header] }

def vettedStray : Block := .build 9 .zero [] [] .zero .epoch .zero .one

/-- The root of the first block cannot be read when that block releases its child, which is lost.
Delivered once more, the child is stored and releases the tip. -/
def vettedRun : List (Command RootEngine) :=
  [.deliver vettedTip .epoch, .deliver vettedChild .epoch, .deliver vettedStray .epoch,
    .alter ((RootEngine.seeded vettedBase.stateRoot).spoil vettedBase.stateRoot),
    .deliver vettedBase .epoch, .alter (.seeded vettedBase.stateRoot),
    .deliver vettedForgery .epoch, .deliver vettedChild .epoch]

theorem vettedRun_valid :
    let ledger := (empty (RootEngine.seeded vettedBase.stateRoot) 4).run vettedRun
    (ledger.tree.stored.map (·.block) = [vettedTip, vettedChild, vettedBase] ∧
        ledger.orphans.waitingFor .zero = [vettedStray]) ∧
      (∀ entry ∈ ledger.tree.stored, entry.block.checkBody = .ok () ∧
        (entry.block.isGenesis = false →
          ∃ parent, ledger.tree.block? entry.block.parentHash = some parent ∧
            entry.block.ValidOn bareRoots parent)) ∧
      (∀ parent, ∀ block ∈ ledger.orphans.waitingFor parent, block.checkBody = .ok ()) ∧
      ∀ found, (ledger.deliver vettedNext .epoch).ledger.tree.block? vettedNext.hash = some found ↔
        found = vettedNext ∧ vettedNext.ValidOn bareRoots vettedTip := by
  intro ledger
  have alters : ∀ engine, Command.alter engine ∈ vettedRun → Consistent bareRoots engine :=
    fun engine _ => consistent_rootEngine engine
  have valid := valid_of_run (consistent_rootEngine (.seeded vettedBase.stateRoot)) 4 alters
  have evaluated :
      (ledger.tree.stored.map (·.block) = [vettedTip, vettedChild, vettedBase] ∧
        ledger.orphans.waitingFor .zero = [vettedStray]) ∧
      ledger.tree.contains vettedNext.hash = false ∧
      ledger.tree.block? vettedNext.parentHash = some vettedTip ∧
      (vettedNext.checkOn vettedTip ledger.engine).1 = .ok () := by
    decide +kernel
  rcases evaluated with ⟨reached, unknown, linked, passes⟩
  refine ⟨reached, valid.1, valid.2.1, ?_⟩
  apply valid.2.2 vettedNext vettedTip .epoch unknown linked (.inl (by decide +kernel))
  intro fault failed
  cases passes.symm.trans failed

end Ledger

end HeaviestChain
