import HeaviestChain.Proofs.Ledger.Interruption
import HeaviestChain.Proofs.Ledger.Vetting

/-!
# Delivering a block again

A block that is delivered twice in a row does no more than one that is delivered once.  If the first
delivery connects it, the second one finds it stored.  Otherwise the first delivery ends with the look
at the block, and a second look comes to the same verdict: a wrong block is as wrong as before, a
block that waits has its place already, a full buffer stays full, and an engine that repeats its
answers fails again on the same question.
-/

namespace HeaviestChain

/-- What a delivery gives that ends with this verdict on its block. -/
def Verdict.outcome : Verdict → Except StateFault (List Block)
  | faulted fault => .error fault
  | _ => .ok []

namespace Ledger

open StateEngine (Repeats)

variable {σ : Type} [StateEngine σ] {ledger : Ledger σ} {block : Block} {now : Timestamp}

/-! ## A second look -/

omit [StateEngine σ] in
theorem verdict_connect (joins : Joins ledger.tree block) :
    (ledger.connect block).verdict = .connected := by
  rw [ledger.connect_eq joins]
  rfl

/-- A second look at a block that the first one did not connect comes to the same verdict.  It may
repeat that the block is wrong, and otherwise changes nothing but the engine. -/
theorem examine_again (repeats : Repeats ledger.engine)
    (unconnected : (ledger.examine block now).verdict ≠ .connected) (later : Timestamp) :
    let next := (ledger.examine block now).ledger
    ∃ engine events, (∀ event ∈ events, ∃ reason, event = .blockRejected block.hash reason) ∧
      next.examine block later =
        { verdict := (ledger.examine block now).verdict, events, ledger := { next with engine } } := by
  have repeated {parent : Block} {answer : Except LedgerError Unit} {engine : σ}
      (first : block.checkOn parent ledger.engine = (answer, engine)) :
      block.checkOn parent engine = (answer, (block.checkOn parent engine).2) := by
    have same := Block.checkOn_again repeats block parent
    rw [first] at same
    exact Prod.ext same rfl
  have examination := ledger.examination block now
  generalize ledger.examine block now = admission at examination unconnected ⊢
  cases examination with
  | known contained => exact ⟨ledger.engine, [], by simp, examine_of_known contained later⟩
  | @unsound error unknown flawed =>
      refine ⟨ledger.engine, [.blockRejected block.hash error.message], by simp, ?_⟩
      simp [examine, reject, unknown, flawed]
  | secondGenesis unknown sound genesis nonempty =>
      refine ⟨ledger.engine, [.blockRejected block.hash "chain already has a genesis"], by simp, ?_⟩
      simp [examine, reject, unknown, sound, genesis, nonempty]
  | parentless unknown sound notGenesis missing =>
      refine ⟨ledger.engine, [], by simp, ?_⟩
      simp [examine, park, unknown, sound, notGenesis, missing, OrphanBuffer.hold_hold]
  | @faulted parent fault engine unknown sound notGenesis linked failed =>
      refine ⟨(block.checkOn parent engine).2, [], by simp, ?_⟩
      simp only [examine, unknown, sound, notGenesis, linked]
      rw [repeated failed]
      simp
  | @invalid parent hash flaw engine unknown sound notGenesis linked refused =>
      refine ⟨(block.checkOn parent engine).2,
        [.blockRejected block.hash (LedgerError.invalidBlock hash flaw).message], by simp, ?_⟩
      simp only [examine, reject, unknown, sound, notGenesis, linked]
      rw [repeated refused]
      simp
  | first unknown sound genesis empty =>
      exact absurd (verdict_connect (.of_empty unknown sound genesis empty)) unconnected
  | @valid parent engine unknown sound notGenesis linked accepted =>
      have joins := Joins.of_accepted unknown notGenesis linked accepted
      have verdict : (connect { ledger with engine } block).verdict = .connected :=
        verdict_connect joins
      exact absurd verdict unconnected

/-! ## A second delivery -/

/-- A delivery that does not connect the block is one look at it. -/
theorem deliver_of_unconnected (unconnected : (ledger.examine block now).verdict ≠ .connected) :
    ledger.deliver block now =
      { outcome := (ledger.examine block now).verdict.outcome
        events := (ledger.examine block now).events
        ledger := (ledger.examine block now).ledger } := by
  by_cases known : ledger.tree.contains block.hash = true
  · rw [deliver_of_known known, examine_of_known known]
    rfl
  · have sameTree : (ledger.examine block now).ledger.tree = ledger.tree := by
      have effect := ledger.effect block now
      generalize ledger.examine block now = admission at effect unconnected ⊢
      cases effect with
      | dropped _ => rfl
      | parked _ _ => rfl
      | joined _ => exact absurd rfl unconnected
    have cascaded : ledger.cascade now [block] [] =
        { outcome := (ledger.examine block now).verdict.outcome
          events := (ledger.examine block now).events
          ledger := (ledger.examine block now).ledger } := by
      rw [cascade]
      split
      case h_1 verdict => simp [cascade, verdict, Verdict.outcome]
      case h_2 verdict => exact absurd verdict unconnected
      case h_3 fault verdict => simp [verdict, Verdict.outcome, parkAll]
    simp [deliver, known, cascaded, announcement, sameTree]

/-- Delivering a block twice leaves the chain, its head and index, the orphans and the mempool as they
are after the first time, whatever the first delivery came to and at whatever times the two take place,
if the engine repeats its answers, as it does if they are a function of what it is asked
(`repeats_of_function`).  The second delivery connects nothing, or it ends with the fault of the
delivered block itself that ended the first one; it tells at most that the block is wrong. -/
theorem deliver_idempotent (ledger : Ledger σ) (repeats : Repeats ledger.engine)
    (block : Block) (now later : Timestamp) :
    let once := ledger.deliver block now
    let twice := once.ledger.deliver block later
    twice.ledger.tree = once.ledger.tree ∧ twice.ledger.orphans = once.ledger.orphans ∧
      twice.ledger.pool = once.ledger.pool ∧
      (twice.outcome = .ok [] ∨
        ∃ fault, (ledger.examine block now).verdict = .faulted fault ∧
          (once.ledger.examine block later).verdict = .faulted fault ∧
          once.outcome = .error fault ∧ twice.outcome = .error fault) ∧
      ∀ event ∈ twice.events, ∃ reason, event = .blockRejected block.hash reason := by
  intro once twice
  by_cases connected : (ledger.examine block now).verdict = .connected
  · have known : once.ledger.tree.contains block.hash = true := by
      rcases BlockTree.block?_eq_some_iff.mp (block?_deliver_of_connected connected) with
        ⟨entry, found, _⟩
      exact BlockTree.contains_iff.mpr ⟨entry, found⟩
    simp [twice, deliver_of_known known]
  · have first : once = _ := deliver_of_unconnected connected
    rcases examine_again repeats connected later with ⟨engine, events, rejections, examined⟩
    have moment : once.ledger = (ledger.examine block now).ledger := congrArg Delivery.ledger first
    rw [← moment] at examined
    have again : (once.ledger.examine block later).verdict ≠ .connected := by rwa [examined]
    have second := deliver_of_unconnected again
    simp only [examined] at second
    simp only [twice, second, true_and]
    refine ⟨?_, rejections⟩
    cases verdict : (ledger.examine block now).verdict with
    | connected => exact absurd verdict connected
    | settled => exact .inl rfl
    | faulted fault =>
        refine .inr ⟨fault, rfl, ?_, ?_, rfl⟩
        · rw [examined, verdict]
        · rw [first, verdict]
          rfl

/-- An engine of bare roots may learn from a question, but not what changes its answer. -/
theorem repeats_rootEngine (engine : RootEngine) : Repeats engine := by
  intro parentRoot _ transactions
  simp only [StateEngine.execute, RootEngine.execute]
  by_cases unreadable : engine.unreadable.contains parentRoot = true
  · simp only [if_pos unreadable]
  · by_cases known : engine.knows parentRoot = true
    · -- Learning the new root forgets no other, and spoils none.
      have kept : (engine.learn (parentRoot.after transactions)).knows parentRoot = true := by
        grind [RootEngine.learn, RootEngine.knows]
      have readable :
          (engine.learn (parentRoot.after transactions)).unreadable = engine.unreadable := by
        grind [RootEngine.learn]
      simp only [if_neg unreadable, if_pos known, readable, if_pos kept]
    · simp only [if_neg unreadable, if_neg known]

/-- After a fault a block waits for a parent that is stored.  Delivered twice, it fails twice and still
waits. -/
theorem haltedRight_delivered_twice :
    let ledger := (empty ((RootEngine.seeded .zero).spoil haltedParent.stateRoot) 2).run
      [.deliver haltedBase .epoch, .deliver haltedLeft .epoch, .deliver haltedRight .epoch,
        .deliver haltedParent .epoch]
    let once := ledger.deliver haltedRight .epoch
    let twice := once.ledger.deliver haltedRight ⟨7⟩
    Repeats ledger.engine ∧
      (ledger.tree.contains haltedParent.hash = true ∧
        once.ledger.orphans.waitingFor haltedParent.hash = [haltedRight] ∧
        twice.outcome = .error (.rootUnreadable haltedParent.stateRoot)) ∧
      twice.ledger.tree = once.ledger.tree ∧ twice.ledger.orphans = once.ledger.orphans := by
  intro ledger once twice
  have repeats : Repeats ledger.engine := repeats_rootEngine _
  have evaluated : ledger.tree.contains haltedParent.hash = true ∧
      once.ledger.orphans.waitingFor haltedParent.hash = [haltedRight] ∧
      twice.outcome = .error (.rootUnreadable haltedParent.stateRoot) := by
    decide +kernel
  have idempotent := deliver_idempotent ledger repeats haltedRight .epoch ⟨7⟩
  exact ⟨repeats, evaluated, idempotent.1, idempotent.2.1⟩

end Ledger

end HeaviestChain
