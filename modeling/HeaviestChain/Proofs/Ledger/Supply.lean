import HeaviestChain.Proofs.Ledger.Course
import HeaviestChain.Proofs.Ledger.Vetting
import HeaviestChain.Proofs.Ledger.Waiting

/-!
# A ledger that never runs out of roots

An engine of bare roots fails on roots that it does not know, and it knows only the one it was seeded
with and those it has produced.  A block is stored after the engine has produced its state root, or as
the first one, whose root the engine was seeded with.  So the engine knows the roots of all stored
blocks (`Supplied`), and it is asked for no others: no delivery ends with a fault, whatever blocks
arrive in whatever order.

Since every later block is valid on its parent, its root is what the transactions along its chain
make of the first root.
-/

namespace HeaviestChain

/-- The root after executing the transactions of the blocks in turn. -/
def Root.afterAll (root : Root) (blocks : List Block) : Root :=
  blocks.foldl (fun root block => root.after block.transactions) root

theorem Root.afterAll_append (root : Root) (blocks more : List Block) :
    root.afterAll (blocks ++ more) = (root.afterAll blocks).afterAll more :=
  List.foldl_append

namespace RootEngine

open StateEngine (Asked)

variable {engine later : RootEngine} {parent root : Root} {transactions : List Transaction}

/-- Nothing that an engine knows is lost, and nothing becomes unreadable. -/
structure Extends (engine later : RootEngine) : Prop where
  unreadable : later.unreadable = engine.unreadable
  known : ∀ root, engine.knows root = true → later.knows root = true

theorem extends_learn (engine : RootEngine) (root : Root) : Extends engine (engine.learn root) := by
  simp only [learn]
  split
  case isTrue => exact ⟨rfl, fun _ known => known⟩
  case isFalse =>
      refine ⟨rfl, fun other known => ?_⟩
      rw [knows, List.contains_iff_mem] at known ⊢
      exact List.mem_cons_of_mem _ known

theorem knows_learn (engine : RootEngine) (root : Root) : (engine.learn root).knows root = true := by
  simp only [learn]
  split
  case isTrue known => exact known
  case isFalse =>
      rw [knows, List.contains_iff_mem]
      exact List.mem_cons_self ..

theorem extends_execute (engine : RootEngine) (parent : Root) (transactions : List Transaction) :
    Extends engine (engine.execute parent transactions).2 := by
  simp only [execute]
  split
  case isTrue => exact ⟨rfl, fun _ known => known⟩
  case isFalse =>
      split
      case isTrue => exact engine.extends_learn _
      case isFalse => exact ⟨rfl, fun _ known => known⟩

theorem Extends.of_asked (asked : Asked engine later) : Extends engine later := by
  induction asked with
  | refl => exact ⟨rfl, fun _ known => known⟩
  | @tail middle _ _ next ih =>
      rcases next with ⟨parent, _, transactions, rfl⟩
      have more := middle.extends_execute parent transactions
      exact ⟨more.unreadable.trans ih.unreadable, fun root known => more.known root (ih.known root known)⟩

/-- A root that was produced is known. -/
theorem knows_of_execute (executed : engine.execute parent transactions = (.ok root, later)) :
    later.knows root = true := by
  simp only [execute] at executed
  split at executed
  case isTrue => cases executed
  case isFalse =>
      split at executed
      case isTrue =>
          cases executed
          exact engine.knows_learn _
      case isFalse => cases executed

/-- On a known root an engine fails only if the root is unreadable. -/
theorem checkOn_ne_fault {block above : Block} (readable : engine.unreadable = [])
    (known : engine.knows above.stateRoot = true) (fault : StateFault) :
    (block.checkOn above engine).1 ≠ .error (.state fault) := by
  have answered : (StateEngine.execute engine above.stateRoot block.context block.transactions).1 =
      .ok (above.stateRoot.after block.transactions) := by
    simp only [StateEngine.execute, execute, readable, known, List.contains_nil, Bool.false_eq_true,
      if_false, if_true]
  intro failed
  cases answered.symm.trans (Block.execute_of_checkOn failed)

end RootEngine

/-- The first of the stored blocks, if there is one, has this state root. -/
def StartsAt (root : Root) (stored : List StoredBlock) : Prop :=
  ∀ first ∈ stored.getLast?, first.block.stateRoot = root

instance (root : Root) (stored : List StoredBlock) : Decidable (StartsAt root stored) :=
  inferInstanceAs (Decidable (∀ first ∈ stored.getLast?, first.block.stateRoot = root))

theorem StartsAt.of_cons {root : Root} {entry : StoredBlock} {stored : List StoredBlock}
    (starts : StartsAt root (entry :: stored)) : StartsAt root stored := by
  intro first last
  apply starts
  rw [Option.mem_def] at last ⊢
  rw [List.getLast?_cons, last]
  rfl

namespace Ledger

open BlockTree (Line)
open RootEngine (Extends)

/-! ## Known roots -/

/-- The engine can read everything, and if the first block stands on `root`, it knows the roots of all
stored blocks. -/
structure Supplied (root : Root) (ledger : Ledger RootEngine) : Prop where
  readable : ledger.engine.unreadable = []
  seed : ledger.engine.knows root = true
  known : StartsAt root ledger.tree.stored →
    ∀ entry ∈ ledger.tree.stored, ledger.engine.knows entry.block.stateRoot = true

variable {root : Root} {ledger : Ledger RootEngine}

theorem supplied_empty (root : Root) (capacity : Nat) :
    Supplied root (empty (.seeded root) capacity) where
  readable := rfl
  seed := List.contains_iff_mem.mpr (List.mem_singleton_self root)
  known := fun _ => List.forall_mem_nil _

/-- The root of a block that is connected is known afterwards. -/
theorem Supplied.examine (supplied : Supplied root ledger) (block : Block) (now : Timestamp) :
    Supplied root (ledger.examine block now).ledger := by
  have extended := Extends.of_asked (ledger.asked_examine block now)
  refine ⟨extended.unreadable.trans supplied.readable, extended.known root supplied.seed, ?_⟩
  have old (starts : StartsAt root ledger.tree.stored) : ∀ entry ∈ ledger.tree.stored,
      (ledger.examine block now).ledger.engine.knows entry.block.stateRoot = true :=
    fun entry mem => extended.known _ (supplied.known starts entry mem)
  have examination := ledger.examination block now
  generalize ledger.examine block now = admission at examination extended old ⊢
  cases examination with
  | first unknown sound genesis empty =>
      have joins := Joins.of_empty unknown sound genesis empty
      rcases joins.exists_stored_attach with ⟨weight, added⟩
      rw [ledger.connect_eq joins] at extended ⊢
      rw [BlockTree.isEmpty, List.isEmpty_iff] at empty
      simp only [settle, added, empty, List.forall_mem_singleton]
      intro starts
      have onRoot : block.stateRoot = root := starts ⟨block, weight⟩ rfl
      rw [onRoot]
      exact supplied.seed
  | @valid parent engine unknown sound notGenesis linked accepted =>
      have joins := Joins.of_accepted unknown notGenesis linked accepted
      rcases joins.exists_stored_attach with ⟨weight, added⟩
      rw [connect_eq { ledger with engine } joins] at old ⊢
      simp only [settle, added, List.forall_mem_cons] at old ⊢
      intro starts
      exact ⟨RootEngine.knows_of_execute (Block.checkOn_eq_ok_iff.mp accepted).2.2, old starts.of_cons⟩
  | _ => exact old

theorem Supplied.turns {now : Timestamp} {work next : Ledger RootEngine × List Block}
    (turns : Turns now work next) (supplied : Supplied root work.1) : Supplied root next.1 := by
  apply Turns.keeps (P := Supplied root) _ _ turns supplied
  · exact fun _ block now supplied => supplied.examine block now
  · exact fun _ _ supplied => { supplied with }

theorem Supplied.run (supplied : Supplied root ledger) {commands : List (Command RootEngine)}
    (unaltered : ∀ engine, Command.alter engine ∉ commands) :
    Supplied root (ledger.run commands) := by
  have alters : ∀ engine, Command.alter engine ∈ commands → (fun _ => False) engine := unaltered
  apply run_induction (P := Supplied root) _ _ _ _ alters supplied
  · exact fun _ block now supplied => supplied.examine block now
  · exact fun _ _ supplied => { supplied with }
  · exact fun _ _ supplied => { supplied with }
  · exact fun _ _ never => never.elim

/-- The engine does not fail on a block while it is supplied. -/
theorem Supplied.not_faulted (supplied : Supplied root ledger)
    (starts : StartsAt root ledger.tree.stored) {block : Block} {now : Timestamp}
    {fault : StateFault} : (ledger.examine block now).verdict ≠ .faulted fault := by
  intro verdict
  have examination := ledger.examination block now
  generalize ledger.examine block now = admission at examination verdict
  cases examination with
  | @faulted parent _ _ _ _ _ linked failed =>
      rcases BlockTree.block?_eq_some_iff.mp linked with ⟨entry, found, rfl⟩
      have known := supplied.known starts entry (BlockTree.mem_of_lookup found)
      exact RootEngine.checkOn_ne_fault supplied.readable known _ (congrArg Prod.fst failed)
  | first unknown sound genesis empty =>
      rw [ledger.connect_eq (.of_empty unknown sound genesis empty)] at verdict
      cases verdict
  | @valid parent engine unknown _ notGenesis linked accepted =>
      rw [connect_eq { ledger with engine } (.of_accepted unknown notGenesis linked accepted)]
        at verdict
      cases verdict
  | _ => cases verdict

/-- If the first block stands on `root` in the end, it did so at every earlier moment. -/
theorem startsAt_of_onward {first last : Ledger RootEngine × List Block}
    (onward : Onward first last) (starts : StartsAt root last.1.tree.stored) :
    StartsAt root first.1.tree.stored := by
  revert starts
  apply onward_induction (P := fun ledger =>
    StartsAt root ledger.tree.stored → StartsAt root first.1.tree.stored) _ _ _ _ onward id
  · intro ledger block now ih starts
    apply ih
    rcases ledger.examine_tree_pool block now with ⟨same, _⟩ | ⟨joins, attached, _⟩
    · rwa [same] at starts
    · rcases joins.exists_stored_attach with ⟨weight, added⟩
      rw [attached, added] at starts
      exact starts.of_cons
  · exact fun _ _ ih => ih
  · exact fun _ _ ih => ih
  · exact fun _ _ ih => ih

theorem Supplied.not_fails (supplied : Supplied root ledger)
    {commands : List (Command RootEngine)}
    (unaltered : ∀ engine, Command.alter engine ∉ commands)
    (starts : StartsAt root (ledger.run commands).tree.stored) : ¬ledger.Fails commands := by
  rintro ⟨earlier, block, now, later, fault, rfl, failed⟩
  rcases exists_faulted_of_deliver failed with ⟨moment, faulty, rest, turns, verdict⟩
  have before : Supplied root (ledger.run earlier) :=
    supplied.run fun engine mem => unaltered engine (List.mem_append_left _ mem)
  have onward : Onward (moment, faulty :: rest)
      (ledger.run (earlier ++ .deliver block now :: later), []) := by
    have finished := Relation.ReflTransGen.mono (fun _ _ => Step.turned) _ _ (turns_end turns)
    rw [Ledger.run, List.foldl_append, List.foldl_cons]
    exact finished.trans (onward_run _ later)
  exact (before.turns turns).not_faulted (startsAt_of_onward onward starts) verdict

/-! ## What the roots are -/

/-- The state root of a stored block is what the transactions of its line, without those of the first
block, make of the first root. -/
theorem Vetted.stateRoot_eq (vetted : Vetted bareRoots ledger)
    (starts : StartsAt root ledger.tree.stored) {entry : StoredBlock} {line : List Block}
    (isLine : Line ledger.tree.stored entry line) :
    entry.block.stateRoot = root.afterAll line.reverse.tail := by
  induction isLine with
  | first last => exact starts _ last
  | @child entry parent line mem later linked below ih =>
      rcases vetted.valid.first_or_child mem with ⟨last, _⟩ | ⟨found, linked', ⟨_, _, _, follows⟩, _⟩
      · exact absurd last later
      · rw [linked] at linked'
        cases linked'
        have nonempty : line.reverse ≠ [] := by
          rw [ne_eq, List.reverse_eq_nil_iff]
          rintro rfl
          cases below.head?_eq
        rw [List.reverse_cons, List.tail_append_of_ne_nil nonempty, Root.afterAll_append, ← ih]
        exact follows.symm

/-- A ledger over an engine of bare roots that is never disturbed, and whose first block, if there is
one, stands on the root that the engine was seeded with: whatever blocks are delivered and whatever
orphans expire, no delivery ends with a fault; the engine knows the state root of every stored block;
and this root is what the transactions along the block's chain make of the first root. -/
theorem faultless_of_seeded {root : Root} {capacity : Nat} {commands : List (Command RootEngine)}
    (unaltered : ∀ engine, Command.alter engine ∉ commands)
    (starts : StartsAt root ((empty (.seeded root) capacity).run commands).tree.stored) :
    let start := empty (RootEngine.seeded root) capacity
    let ledger := start.run commands
    ¬start.Fails commands ∧
      ∀ entry ∈ ledger.tree.stored,
        ledger.engine.knows entry.block.stateRoot = true ∧
        Line ledger.tree.stored entry (ledger.tree.chainTo entry.block.hash) ∧
        entry.block.stateRoot =
          root.afterAll (ledger.tree.chainTo entry.block.hash).reverse.tail := by
  intro start ledger
  have supplied : Supplied root start := supplied_empty root capacity
  have vetted : Vetted bareRoots ledger := by
    apply (vetted_empty (consistent_rootEngine (.seeded root)) capacity).run
    exact fun engine _ => consistent_rootEngine engine
  refine ⟨supplied.not_fails unaltered starts, ?_⟩
  intro entry mem
  have isLine : Line ledger.tree.stored entry (ledger.tree.chainTo entry.block.hash) :=
    vetted.valid.line_ancestry (fun _ _ rule => rule.1) mem
  exact ⟨(supplied.run unaltered).known starts entry mem, isLine, vetted.stateRoot_eq starts isLine⟩

/-- Two transactions. -/
def supplyPayment : Transaction :=
  .ofContent ⟨.zero, .zero, .zero, 0, [], 0, .zero⟩

def supplyRefund : Transaction :=
  .ofContent ⟨.zero, .zero, .zero, 1, [], 0, .zero⟩

/-- Two blocks on a first one, each with a transaction, another block beside them, and one that gives
a wrong root. -/
def supplyBase : Block := ({ stateRoot := .zero } : GenesisSpec).block

def supplyLow : Block :=
  .build 1 supplyBase.hash [] [supplyPayment] (supplyBase.stateRoot.after [supplyPayment]) .epoch
    .zero .one

def supplyTop : Block :=
  .build 2 supplyLow.hash [] [supplyRefund] (supplyLow.stateRoot.after [supplyRefund]) .epoch .zero
    .one

def supplyRival : Block :=
  .build 1 supplyBase.hash [] [supplyRefund] (supplyBase.stateRoot.after [supplyRefund]) .epoch .zero
    .one

def supplyWrong : Block :=
  .build 2 supplyRival.hash [] [supplyPayment] supplyTop.stateRoot .epoch .zero .one

def supplyRun : List (Command RootEngine) :=
  [.deliver supplyTop .epoch, .deliver supplyLow .epoch, .deliver supplyWrong .epoch,
    .deliver supplyBase .epoch, .expire 0 .epoch, .deliver supplyRival .epoch,
    .deliver supplyWrong .epoch]

theorem supplyRun_faultless :
    let start := empty (RootEngine.seeded .zero) 4
    let ledger := start.run supplyRun
    ledger.tree.stored.map (·.block) = [supplyRival, supplyTop, supplyLow, supplyBase] ∧
      StartsAt .zero ledger.tree.stored ∧
      ¬start.Fails supplyRun ∧
      ∀ entry ∈ ledger.tree.stored,
        ledger.engine.knows entry.block.stateRoot = true ∧
        Line ledger.tree.stored entry (ledger.tree.chainTo entry.block.hash) ∧
        entry.block.stateRoot =
          Root.zero.afterAll (ledger.tree.chainTo entry.block.hash).reverse.tail := by
  intro start ledger
  have unaltered : ∀ engine, Command.alter engine ∉ supplyRun := by simp [supplyRun]
  have evaluated : ledger.tree.stored.map (·.block) =
        [supplyRival, supplyTop, supplyLow, supplyBase] ∧
      StartsAt .zero ledger.tree.stored := by
    decide +kernel
  have faultless := faultless_of_seeded unaltered evaluated.2
  exact ⟨evaluated.1, evaluated.2, faultless.1, faultless.2⟩

end Ledger

end HeaviestChain
