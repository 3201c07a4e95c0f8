import HeaviestChain.Ledger
import HeaviestChain.Proofs.BlockTree.Growth
import HeaviestChain.Proofs.Validity
import Mathlib.Logic.Relation

/-!
# Runs of a ledger

What a ledger can do, said once.  `Examination` lists everything that can become of a block that is
looked at, with what decides it, and `Inspection` what of this can be told apart from outside; `Turn`
is one turn of the work-list of a delivery, and a delivery is a sequence of turns that ends with an
empty list.  A run is a list of commands: deliveries, expiries and submissions in any order, between
which the state engine may change in any way.

`Step` leads through all moments of a run, those in the middle of a delivery included.  A property
that each of the few elementary changes keeps lasts (`onward_induction`).
-/

namespace HeaviestChain

/-- The mempool after a change of the canonical chain, if there is one. -/
def Mempool.follow (pool : Mempool) : Option HeadChange → Mempool
  | some change => (pool.reconcile change).1
  | none => pool

namespace Ledger

variable {σ : Type}

/-! ## Connecting a block -/

/-- What admission makes sure of when a block joins its parent. -/
def Admitted (child parent : Block) : Prop :=
  child.isGenesis = false ∧ child.number = parent.number + 1

/-- What has been checked of a block before it is connected to a tree. -/
structure Joins (tree : BlockTree) (block : Block) : Prop where
  unknown : tree.contains block.hash = false
  sound : block.checkBody = .ok ()
  weighed : ∃ below, tree.weightBelow? block = some below
  admitted : ∀ parent, BlockTree.lookup tree.stored block.parentHash = some parent →
    Admitted block parent.block

theorem Joins.of_empty {tree : BlockTree} {block : Block}
    (unknown : tree.contains block.hash = false) (sound : block.checkBody = .ok ())
    (genesis : block.isGenesis = true) (empty : tree.isEmpty = true) : Joins tree block where
  unknown := unknown
  sound := sound
  weighed := ⟨.zero, by simp [BlockTree.weightBelow?, genesis, empty]⟩
  admitted := by
    intro parent linked
    rw [BlockTree.lookup_of_isEmpty empty] at linked
    cases linked

theorem Joins.exists_stored_attach {tree : BlockTree} {block : Block} (joins : Joins tree block) :
    ∃ weight, (tree.attach block).1.stored = ⟨block, weight⟩ :: tree.stored := by
  rcases joins.weighed with ⟨below, weighed⟩
  exact ⟨_, BlockTree.stored_attach_of_weighed joins.unknown weighed⟩

/-- After these checks a block is connected: the tree takes it in, the mempool follows the change of
the canonical chain, and the block no longer waits. -/
theorem connect_eq (ledger : Ledger σ) {block : Block} (joins : Joins ledger.tree block) :
    ledger.connect block =
      settle { ledger with tree := (ledger.tree.attach block).1 } block
        (ledger.tree.attach block).2.change? := by
  rcases joins.weighed with ⟨below, weighed⟩
  have offered := ledger.tree.offered_attach block
  simp only [connect]
  generalize ledger.tree.attach block = result at offered ⊢
  cases offered with
  | alreadyStored known =>
      rw [joins.unknown] at known
      cases known
  | parentMissing _ rootless =>
      rw [weighed] at rootless
      cases rootless
  | sideBranch _ _ _ _ => rfl
  | newHead _ _ _ => rfl

/-! ## Looking at a block -/

variable [StateEngine σ]

/-- Everything that can become of a block that is looked at, with what decides it. -/
inductive Examination (ledger : Ledger σ) (block : Block) (now : Timestamp) : Admission σ → Prop
  | known (contained : ledger.tree.contains block.hash = true) :
      Examination ledger block now { verdict := .settled, events := [], ledger }
  | unsound {error : LedgerError} (unknown : ledger.tree.contains block.hash = false)
      (flawed : block.checkBody = .error error) :
      Examination ledger block now (ledger.reject block error.message)
  | secondGenesis (unknown : ledger.tree.contains block.hash = false)
      (sound : block.checkBody = .ok ()) (genesis : block.isGenesis = true)
      (nonempty : ledger.tree.isEmpty = false) :
      Examination ledger block now (ledger.reject block "chain already has a genesis")
  | first (unknown : ledger.tree.contains block.hash = false) (sound : block.checkBody = .ok ())
      (genesis : block.isGenesis = true) (empty : ledger.tree.isEmpty = true) :
      Examination ledger block now (ledger.connect block)
  | parentless (unknown : ledger.tree.contains block.hash = false)
      (sound : block.checkBody = .ok ()) (notGenesis : block.isGenesis = false)
      (missing : ledger.tree.block? block.parentHash = none) :
      Examination ledger block now (ledger.park block now)
  | valid {parent : Block} {engine : σ} (unknown : ledger.tree.contains block.hash = false)
      (sound : block.checkBody = .ok ()) (notGenesis : block.isGenesis = false)
      (linked : ledger.tree.block? block.parentHash = some parent)
      (accepted : block.checkOn parent ledger.engine = (.ok (), engine)) :
      Examination ledger block now (connect { ledger with engine } block)
  | faulted {parent : Block} {fault : StateFault} {engine : σ}
      (unknown : ledger.tree.contains block.hash = false) (sound : block.checkBody = .ok ())
      (notGenesis : block.isGenesis = false)
      (linked : ledger.tree.block? block.parentHash = some parent)
      (failed : block.checkOn parent ledger.engine = (.error (.state fault), engine)) :
      Examination ledger block now
        { verdict := .faulted fault, events := [], ledger := { ledger with engine } }
  | invalid {parent : Block} {hash : BlockHash} {flaw : BlockFlaw} {engine : σ}
      (unknown : ledger.tree.contains block.hash = false) (sound : block.checkBody = .ok ())
      (notGenesis : block.isGenesis = false)
      (linked : ledger.tree.block? block.parentHash = some parent)
      (refused : block.checkOn parent ledger.engine = (.error (.invalidBlock hash flaw), engine)) :
      Examination ledger block now
        (reject { ledger with engine } block (LedgerError.invalidBlock hash flaw).message)

theorem examination (ledger : Ledger σ) (block : Block) (now : Timestamp) :
    Examination ledger block now (ledger.examine block now) := by
  simp only [examine]
  split
  case isTrue contained => exact .known contained
  case isFalse unknown =>
      rw [Bool.not_eq_true] at unknown
      split
      case h_1 error flawed => exact .unsound unknown flawed
      case h_2 sound =>
          split
          case isTrue genesis =>
              split
              case isTrue empty => exact .first unknown sound genesis empty
              case isFalse nonempty =>
                  exact .secondGenesis unknown sound genesis (Bool.not_eq_true _ ▸ nonempty)
          case isFalse notGenesis =>
              rw [Bool.not_eq_true] at notGenesis
              split
              case h_1 missing => exact .parentless unknown sound notGenesis missing
              case h_2 parent linked =>
                  split
                  case h_1 engine accepted => exact .valid unknown sound notGenesis linked accepted
                  case h_2 fault engine failed => exact .faulted unknown sound notGenesis linked failed
                  case h_3 error engine notState refused =>
                      cases error with
                      | invalidBlock hash flaw => exact .invalid unknown sound notGenesis linked refused
                      | state fault => exact absurd rfl (notState fault)

theorem examine_of_known {ledger : Ledger σ} {block : Block}
    (known : ledger.tree.contains block.hash = true) (now : Timestamp) :
    ledger.examine block now = { verdict := .settled, events := [], ledger } := by
  simp only [examine, known, if_true]

theorem deliver_of_known {ledger : Ledger σ} {block : Block}
    (known : ledger.tree.contains block.hash = true) (now : Timestamp) :
    ledger.deliver block now = { outcome := .ok [], events := [], ledger } := by
  simp only [deliver, known, if_true]

theorem Joins.of_accepted {tree : BlockTree} {block parent : Block} {engine engine' : σ}
    (unknown : tree.contains block.hash = false) (notGenesis : block.isGenesis = false)
    (linked : tree.block? block.parentHash = some parent)
    (accepted : block.checkOn parent engine = (.ok (), engine')) : Joins tree block := by
  rcases Block.checkOn_eq_ok_iff.mp accepted with ⟨sound, next, _⟩
  rcases BlockTree.block?_eq_some_iff.mp linked with ⟨entry, found, rfl⟩
  refine ⟨unknown, sound, ⟨entry.totalWeight, ?_⟩, ?_⟩
  · simp [BlockTree.weightBelow?, notGenesis, BlockTree.weight?, BlockTree.find?_eq_lookup, found]
  · intro parent linked
    rw [found] at linked
    cases linked
    exact ⟨notGenesis, next⟩

/-- Everything that can become of a block that is looked at, as far as it can be seen from outside. -/
inductive Inspection (ledger : Ledger σ) (block : Block) (now : Timestamp) : Admission σ → Prop
  | known (contained : ledger.tree.contains block.hash = true) :
      Inspection ledger block now { verdict := .settled, events := [], ledger }
  | rejected {engine : σ} {reason : String} (unknown : ledger.tree.contains block.hash = false) :
      Inspection ledger block now
        { verdict := .settled
          events := [.blockRejected block.hash reason]
          ledger := { ledger with engine } }
  | parked (unknown : ledger.tree.contains block.hash = false)
      (missing : ledger.tree.contains block.parentHash = false) :
      Inspection ledger block now (ledger.park block now)
  | joined {engine : σ} (joins : Joins ledger.tree block) :
      Inspection ledger block now
        (settle { ledger with engine, tree := (ledger.tree.attach block).1 } block
          (ledger.tree.attach block).2.change?)
  | faulted {engine : σ} {fault : StateFault} (unknown : ledger.tree.contains block.hash = false) :
      Inspection ledger block now
        { verdict := .faulted fault, events := [], ledger := { ledger with engine } }

theorem inspection (ledger : Ledger σ) (block : Block) (now : Timestamp) :
    Inspection ledger block now (ledger.examine block now) := by
  have examination := ledger.examination block now
  generalize ledger.examine block now = admission at examination ⊢
  cases examination with
  | known contained => exact .known contained
  | unsound unknown _ => exact .rejected unknown
  | secondGenesis unknown _ _ _ => exact .rejected unknown
  | invalid unknown _ _ _ _ => exact .rejected unknown
  | faulted unknown _ _ _ _ => exact .faulted unknown
  | parentless unknown _ _ missing =>
      apply Inspection.parked unknown
      simpa [BlockTree.block?, BlockTree.contains] using missing
  | first unknown sound genesis empty =>
      have joins := Joins.of_empty unknown sound genesis empty
      simp only [ledger.connect_eq joins]
      exact .joined joins
  | @valid parent engine unknown sound notGenesis linked accepted =>
      have joins := Joins.of_accepted unknown notGenesis linked accepted
      simp only [connect_eq { ledger with engine } joins]
      exact .joined joins

/-- Looking at a block leaves tree and mempool alone, or it connects the block after all checks. -/
theorem examine_tree_pool (ledger : Ledger σ) (block : Block) (now : Timestamp) :
    ((ledger.examine block now).ledger.tree = ledger.tree ∧
        (ledger.examine block now).ledger.pool = ledger.pool) ∨
      Joins ledger.tree block ∧
        (ledger.examine block now).ledger.tree = (ledger.tree.attach block).1 ∧
        (ledger.examine block now).ledger.pool =
          ledger.pool.follow (ledger.tree.attach block).2.change? := by
  have inspection := ledger.inspection block now
  generalize ledger.examine block now = admission at inspection ⊢
  cases inspection with
  | known _ => exact .inl ⟨rfl, rfl⟩
  | rejected _ => exact .inl ⟨rfl, rfl⟩
  | parked _ _ => exact .inl ⟨rfl, rfl⟩
  | joined joins => exact .inr ⟨joins, rfl, rfl⟩
  | faulted _ => exact .inl ⟨rfl, rfl⟩

/-- Only blocks with sound bodies join the tree. -/
theorem checkBody_stored_examine {ledger : Ledger σ}
    (sound : ∀ entry ∈ ledger.tree.stored, entry.block.checkBody = .ok ()) (block : Block)
    (now : Timestamp) :
    ∀ entry ∈ (ledger.examine block now).ledger.tree.stored, entry.block.checkBody = .ok () := by
  rcases ledger.examine_tree_pool block now with ⟨same, _⟩ | ⟨joins, attached, _⟩
  · rw [same]
    exact sound
  · rcases joins.exists_stored_attach with ⟨weight, added⟩
    rw [attached, added, List.forall_mem_cons]
    exact ⟨joins.sound, sound⟩

/-- Blocks that join the tree after the first one have been accepted on their parents. -/
theorem grown_examine {rule : Block → Block → Prop} {ledger : Ledger σ} {block : Block}
    (grown : BlockTree.Grown rule ledger.tree.stored)
    (accepts : ∀ parent engine, block.isGenesis = false →
      block.checkOn parent ledger.engine = (.ok (), engine) → rule block parent) (now : Timestamp) :
    BlockTree.Grown rule (ledger.examine block now).ledger.tree.stored := by
  have examination := ledger.examination block now
  generalize ledger.examine block now = admission at examination ⊢
  cases examination with
  | known _ => exact grown
  | unsound _ _ => exact grown
  | secondGenesis _ _ _ _ => exact grown
  | parentless _ _ _ _ => exact grown
  | faulted _ _ _ _ _ => exact grown
  | invalid _ _ _ _ _ => exact grown
  | first unknown sound genesis empty =>
      rw [ledger.connect_eq (.of_empty unknown sound genesis empty)]
      apply grown.attach
      intro parent linked
      rw [BlockTree.lookup_of_isEmpty empty] at linked
      cases linked
  | @valid parent engine unknown sound notGenesis linked accepted =>
      have joins := Joins.of_accepted unknown notGenesis linked accepted
      rw [connect_eq { ledger with engine } joins]
      apply grown.attach
      intro entry found
      rcases BlockTree.block?_eq_some_iff.mp linked with ⟨entry', found', rfl⟩
      rw [found'] at found
      cases found
      exact accepts _ engine notGenesis accepted

/-- Looking at a block asks the engine at most once. -/
theorem asked_examine (ledger : Ledger σ) (block : Block) (now : Timestamp) :
    StateEngine.Asked ledger.engine (ledger.examine block now).ledger.engine := by
  have checked (parent : Block) := Block.asked_checkOn block parent ledger.engine
  have examination := ledger.examination block now
  generalize ledger.examine block now = admission at examination ⊢
  cases examination with
  | known _ => exact .refl
  | unsound _ _ => exact .refl
  | secondGenesis _ _ _ _ => exact .refl
  | parentless _ _ _ _ => exact .refl
  | first unknown sound genesis empty =>
      rw [ledger.connect_eq (.of_empty unknown sound genesis empty)]
      exact .refl
  | @valid parent engine unknown sound notGenesis linked accepted =>
      have joins := Joins.of_accepted unknown notGenesis linked accepted
      rw [connect_eq { ledger with engine } joins]
      have asked := checked parent
      rw [accepted] at asked
      exact asked
  | @faulted parent _ _ _ _ _ _ failed =>
      have asked := checked parent
      rw [failed] at asked
      exact asked
  | @invalid parent _ _ _ _ _ _ _ refused =>
      have asked := checked parent
      rw [refused] at asked
      exact asked

/-! ## Turns of the work-list -/

/-- One turn: the first block of the list is looked at.  The orphans of a block that is connected
join the end of the list; at a fault the rest of the list waits again. -/
inductive Turn (now : Timestamp) : Ledger σ × List Block → Ledger σ × List Block → Prop
  | settled {ledger : Ledger σ} {block : Block} {queue : List Block}
      (verdict : (ledger.examine block now).verdict = .settled) :
      Turn now (ledger, block :: queue) ((ledger.examine block now).ledger, queue)
  | connected {ledger : Ledger σ} {block : Block} {queue : List Block}
      (verdict : (ledger.examine block now).verdict = .connected) :
      Turn now (ledger, block :: queue)
        ({ (ledger.examine block now).ledger with
            orphans := ((ledger.examine block now).ledger.orphans.release block.hash).2 },
          queue ++ ((ledger.examine block now).ledger.orphans.release block.hash).1)
  | faulted {ledger : Ledger σ} {block : Block} {queue : List Block} {fault : StateFault}
      (verdict : (ledger.examine block now).verdict = .faulted fault) :
      Turn now (ledger, block :: queue) ((ledger.examine block now).ledger.parkAll queue now, [])

/-- Turn by turn from one work-list to another. -/
abbrev Turns (now : Timestamp) : Ledger σ × List Block → Ledger σ × List Block → Prop :=
  Relation.ReflTransGen (Turn now)

/-- A work-list has at most one next turn. -/
theorem Turn.rightUnique (now : Timestamp) : Relator.RightUnique (Turn (σ := σ) now) := by
  intro work left right first second
  cases first with
  | settled verdict =>
      cases second with
      | settled _ => rfl
      | connected verdict' => rw [verdict] at verdict'; cases verdict'
      | faulted verdict' => rw [verdict] at verdict'; cases verdict'
  | connected verdict =>
      cases second with
      | settled verdict' => rw [verdict] at verdict'; cases verdict'
      | connected _ => rfl
      | faulted verdict' => rw [verdict] at verdict'; cases verdict'
  | faulted verdict =>
      cases second with
      | settled verdict' => rw [verdict] at verdict'; cases verdict'
      | connected verdict' => rw [verdict] at verdict'; cases verdict'
      | faulted _ => rfl

theorem turns_cascade (ledger : Ledger σ) (now : Timestamp) (queue connected : List Block) :
    Turns now (ledger, queue) ((ledger.cascade now queue connected).ledger, []) := by
  fun_induction cascade ledger now queue connected with
  | case1 => exact .refl
  | case2 _ _ _ _ _ verdict _ ih => exact .head (.settled verdict) ih
  | case3 _ _ _ _ _ verdict _ _ ih => exact .head (.connected verdict) ih
  | case4 _ _ _ _ _ _ verdict => exact .head (.faulted verdict) .refl

/-- A delivery takes turns on the list of the delivered block until the list is empty. -/
theorem turns_deliver (ledger : Ledger σ) (block : Block) (now : Timestamp) :
    Turns now (ledger, [block]) ((ledger.deliver block now).ledger, []) := by
  simp only [deliver]
  split
  case isFalse => exact ledger.turns_cascade now [block] []
  case isTrue known =>
      have examined := examine_of_known known now
      have settled : (ledger.examine block now).verdict = .settled := by rw [examined]
      have turn : Turn now (ledger, [block]) _ := .settled settled
      rw [examined] at turn
      exact .single turn

/-- No turn is left when the list is empty. -/
theorem turns_nil {now : Timestamp} {ledger : Ledger σ} {work : Ledger σ × List Block}
    (turns : Turns now (ledger, []) work) : work = (ledger, []) := by
  rcases turns.cases_head with same | ⟨_, turn, _⟩
  · exact same.symm
  · cases turn

/-- What a delivery goes through leads to where it ends. -/
theorem turns_end {ledger moment : Ledger σ} {block : Block} {now : Timestamp} {queue : List Block}
    (turns : Turns now (ledger, [block]) (moment, queue)) :
    Turns now (moment, queue) ((ledger.deliver block now).ledger, []) := by
  have whole := ledger.turns_deliver block now
  rcases Relation.ReflTransGen.total_of_right_unique (Turn.rightUnique now) turns whole with
    onward | back
  · exact onward
  · rw [turns_nil back]

/-- A delivery begins with a look at the block; unless that connects it, nothing else happens. -/
theorem deliver_of_settled {ledger : Ledger σ} {block : Block} {now : Timestamp}
    (verdict : (ledger.examine block now).verdict = .settled) :
    (ledger.deliver block now).ledger = (ledger.examine block now).ledger := by
  have rest := turns_end (.single (.settled verdict))
  exact congrArg Prod.fst (turns_nil rest)

theorem deliver_of_unsound {block : Block} (unsound : block.checkBody ≠ .ok ())
    (ledger : Ledger σ) (now : Timestamp) : (ledger.deliver block now).ledger = ledger := by
  have left : (ledger.examine block now).verdict = .settled ∧
      (ledger.examine block now).ledger = ledger := by
    have examination := ledger.examination block now
    generalize ledger.examine block now = admission at examination ⊢
    cases examination with
    | known _ => exact ⟨rfl, rfl⟩
    | unsound _ _ => exact ⟨rfl, rfl⟩
    | secondGenesis _ sound _ _ => exact absurd sound unsound
    | first _ sound _ _ => exact absurd sound unsound
    | parentless _ sound _ _ => exact absurd sound unsound
    | valid _ sound _ _ _ => exact absurd sound unsound
    | faulted _ sound _ _ _ => exact absurd sound unsound
    | invalid _ sound _ _ _ => exact absurd sound unsound
  rw [deliver_of_settled left.1, left.2]

/-! ## Commands -/

/-- What can be done to a ledger from outside. -/
inductive Command (σ : Type) where
  /-- A block is delivered. -/
  | deliver (block : Block) (now : Timestamp)
  /-- Orphans that have waited for `maxAge` seconds are dropped. -/
  | expire (maxAge : UInt64) (now : Timestamp)
  /-- A transaction is submitted. -/
  | submit (tx : Transaction)
  /-- The state engine becomes another one, for reasons of its own. -/
  | alter (engine : σ)

/-- The ledger after a command. -/
def perform (ledger : Ledger σ) : Command σ → Ledger σ
  | .deliver block now => (ledger.deliver block now).ledger
  | .expire maxAge now => (ledger.expireOrphans maxAge now).1
  | .submit tx => (ledger.submit tx).1
  | .alter engine => { ledger with engine }

/-- The ledger after commands in a row. -/
def run (ledger : Ledger σ) (commands : List (Command σ)) : Ledger σ :=
  commands.foldl perform ledger

/-! ## Moments -/

/-- What can happen next at a moment: a ledger with what is left of the delivery under way.  The
other commands wait for the end of a delivery, but the state engine may change at any moment. -/
inductive Step : Ledger σ × List Block → Ledger σ × List Block → Prop
  | turned {now : Timestamp} {work next : Ledger σ × List Block} (turn : Turn now work next) :
      Step work next
  | delivered (ledger : Ledger σ) (block : Block) : Step (ledger, []) (ledger, [block])
  | expired (ledger : Ledger σ) (maxAge : UInt64) (now : Timestamp) :
      Step (ledger, []) ((ledger.expireOrphans maxAge now).1, [])
  | submitted (ledger : Ledger σ) (tx : Transaction) :
      Step (ledger, []) ((ledger.submit tx).1, [])
  | altered (ledger : Ledger σ) (engine : σ) (queue : List Block) :
      Step (ledger, queue) ({ ledger with engine }, queue)

/-- From one moment to a later one. -/
abbrev Onward : Ledger σ × List Block → Ledger σ × List Block → Prop :=
  Relation.ReflTransGen Step

theorem onward_perform (ledger : Ledger σ) (command : Command σ) :
    Onward (ledger, []) (ledger.perform command, []) := by
  cases command with
  | deliver block now =>
      have turns := Relation.ReflTransGen.mono (fun _ _ => Step.turned) _ _
        (ledger.turns_deliver block now)
      exact .head (.delivered ledger block) turns
  | expire maxAge now => exact .single (.expired ledger maxAge now)
  | submit tx => exact .single (.submitted ledger tx)
  | alter engine => exact .single (.altered ledger engine [])

theorem onward_run (ledger : Ledger σ) (commands : List (Command σ)) :
    Onward (ledger, []) (ledger.run commands, []) := by
  induction commands generalizing ledger with
  | nil => exact .refl
  | cons command rest ih => exact (ledger.onward_perform command).trans (ih _)

section Induction

variable {P : Ledger σ → Prop}
  (examined : ∀ ledger block now, P ledger → P (ledger.examine block now).ledger)
  (rebuffered : ∀ ledger orphans, P ledger → P { ledger with orphans })

include examined rebuffered

theorem Turn.keeps {now : Timestamp} {work next : Ledger σ × List Block} (turn : Turn now work next)
    (holds : P work.1) : P next.1 := by
  cases turn with
  | settled _ => exact examined _ _ _ holds
  | connected _ => exact rebuffered _ _ (examined _ _ _ holds)
  | faulted _ => exact rebuffered _ _ (examined _ _ _ holds)

theorem Turns.keeps {now : Timestamp} {work next : Ledger σ × List Block}
    (turns : Turns now work next) (holds : P work.1) : P next.1 := by
  induction turns with
  | refl => exact holds
  | tail _ turn ih => exact turn.keeps examined rebuffered ih

variable (submitted : ∀ ledger tx, P ledger → P (ledger.submit tx).1)

include submitted

/-- A property that looking at a block keeps, and that changes of the orphans, the engine and
submitted transactions keep, holds from one moment on at all later ones. -/
theorem onward_induction (altered : ∀ ledger engine, P ledger → P { ledger with engine })
    {first last : Ledger σ × List Block} (onward : Onward first last) (holds : P first.1) :
    P last.1 := by
  induction onward with
  | refl => exact holds
  | tail _ step ih =>
      cases step with
      | turned turn => exact turn.keeps examined rebuffered ih
      | delivered _ _ => exact ih
      | expired _ _ _ => exact rebuffered _ _ ih
      | submitted _ tx => exact submitted _ tx ih
      | altered _ engine _ => exact altered _ engine ih

/-- The same for a run in which the engine becomes only engines that keep the property. -/
theorem run_induction {allowed : σ → Prop}
    (altered : ∀ ledger engine, allowed engine → P ledger → P { ledger with engine })
    {ledger : Ledger σ} {commands : List (Command σ)}
    (alters : ∀ engine, Command.alter engine ∈ commands → allowed engine) (holds : P ledger) :
    P (ledger.run commands) := by
  induction commands generalizing ledger with
  | nil => exact holds
  | cons command rest ih =>
      apply ih fun engine mem => alters engine (List.mem_cons_of_mem _ mem)
      cases command with
      | deliver block now =>
          exact Turns.keeps examined rebuffered (ledger.turns_deliver block now) holds
      | expire _ _ => exact rebuffered _ _ holds
      | submit tx => exact submitted _ tx holds
      | alter engine => exact altered _ engine (alters engine (List.mem_cons_self ..)) holds

end Induction

end Ledger

end HeaviestChain
