import HeaviestChain.Validity
import Mathlib.Logic.Relation

/-!
# What the full check accepts

A block is accepted on a parent exactly if its body is sound, its number is the one after the
parent's, and the state engine answers with its state root.  An engine that is steady always gives
the same answer to the same question and never fails, so that the check has one outcome for a block
and a parent, whatever was checked before.  Where engines give the same answers, what is valid on
what is a matter of the blocks alone (`Block.ValidOn`), and an engine that only keeps to these
answers when it does not fail never lets another block pass.
-/

namespace HeaviestChain

namespace StateEngine

variable {σ : Type} [StateEngine σ]

/-- From an engine to what executions have made of it. -/
def Asked : σ → σ → Prop :=
  Relation.ReflTransGen fun engine next =>
    ∃ parentRoot context transactions,
      next = (execute engine parentRoot context transactions).2

/-- An engine whose answers are those of a function, whatever it is asked before. -/
def Steady (engine : σ) : Prop :=
  ∃ answer : Root → ExecutionContext → List Transaction → Root, ∀ later, Asked engine later →
    ∀ parentRoot context transactions,
      (execute later parentRoot context transactions).1 =
        .ok (answer parentRoot context transactions)

/-- An engine whose answers are those of the given function, whatever it is asked before. -/
def Answers (answer : Root → ExecutionContext → List Transaction → Root) (engine : σ) : Prop :=
  ∀ later, Asked engine later → ∀ parentRoot context transactions,
    (execute later parentRoot context transactions).1 =
      .ok (answer parentRoot context transactions)

/-- An engine that gives no other root than the function, whatever it is asked before.  It may fail
at any time. -/
def Consistent (answer : Root → ExecutionContext → List Transaction → Root) (engine : σ) : Prop :=
  ∀ later, Asked engine later → ∀ parentRoot context transactions root,
    (execute later parentRoot context transactions).1 = .ok root →
      root = answer parentRoot context transactions

/-- An engine that gives the same answer, be it a root or a fault, when it is asked the same thing
again. -/
def Repeats (engine : σ) : Prop :=
  ∀ parentRoot context transactions,
    (execute (execute engine parentRoot context transactions).2 parentRoot context transactions).1 =
      (execute engine parentRoot context transactions).1

/-- So does every engine whose answers are a function of what it is asked. -/
theorem repeats_of_function
    {answer : Root → ExecutionContext → List Transaction → Except StateFault Root}
    (answers : ∀ (engine : σ) parentRoot context transactions,
      (execute engine parentRoot context transactions).1 = answer parentRoot context transactions)
    (engine : σ) : Repeats engine := by
  intro parentRoot context transactions
  rw [answers, answers]

theorem Answers.steady {answer : Root → ExecutionContext → List Transaction → Root} {engine : σ}
    (answers : Answers answer engine) : Steady engine :=
  ⟨answer, answers⟩

theorem Answers.asked {answer : Root → ExecutionContext → List Transaction → Root}
    {engine later : σ} (answers : Answers answer engine) (asked : Asked engine later) :
    Answers answer later :=
  fun last further => answers last (asked.trans further)

theorem Answers.consistent {answer : Root → ExecutionContext → List Transaction → Root} {engine : σ}
    (answers : Answers answer engine) : Consistent answer engine := by
  intro later asked parentRoot context transactions root answered
  rw [answers later asked] at answered
  exact (Except.ok.inj answered).symm

theorem Consistent.asked {answer : Root → ExecutionContext → List Transaction → Root}
    {engine later : σ} (consistent : Consistent answer engine) (asked : Asked engine later) :
    Consistent answer later :=
  fun last further => consistent last (asked.trans further)

end StateEngine

namespace Block

variable {σ : Type} [StateEngine σ] {block parent : Block} {engine engine' : σ}

omit [StateEngine σ] in
theorem exists_flaw_of_checkBody {error : LedgerError} (flawed : block.checkBody = .error error) :
    ∃ flaw, error = .invalidBlock block.hash flaw := by
  simp only [checkBody] at flawed
  split at flawed
  case h_1 flaw _ =>
      cases flawed
      exact ⟨flaw, rfl⟩
  case h_2 => cases flawed

/-- A check finds no other block invalid than the one it looks at. -/
theorem hash_of_checkOn {hash : BlockHash} {flaw : BlockFlaw}
    (refused : (block.checkOn parent engine).1 = .error (.invalidBlock hash flaw)) :
    hash = block.hash := by
  simp only [checkOn] at refused
  split at refused
  case h_1 error flawed =>
      rcases exists_flaw_of_checkBody flawed with ⟨_, rfl⟩
      cases refused
      rfl
  case h_2 =>
      split at refused
      case isTrue =>
          cases refused
          rfl
      case isFalse =>
          split at refused
          case h_1 => cases refused
          case h_2 =>
              split at refused
              case isTrue => cases refused
              case isFalse =>
                  cases refused
                  rfl

theorem checkOn_eq_ok_iff :
    block.checkOn parent engine = (.ok (), engine') ↔
      block.checkBody = .ok () ∧ block.number = parent.number + 1 ∧
        StateEngine.execute engine parent.stateRoot block.context block.transactions =
          (.ok block.stateRoot, engine') := by
  simp only [checkOn]
  split
  case h_1 error flawed => simp [flawed]
  case h_2 sound =>
      simp only [sound, true_and]
      split
      case isTrue other => simp [other]
      case isFalse after =>
          rw [ne_eq, Classical.not_not] at after
          simp only [after, true_and]
          split
          case h_1 fault engine'' executed => simp [executed]
          case h_2 root engine'' executed =>
              rw [executed]
              split
              case isTrue same => simp [same]
              case isFalse other => simp [other]

/-- A check does not fail for the engine's sake unless the engine does. -/
theorem execute_of_checkOn {fault : StateFault}
    (failed : (block.checkOn parent engine).1 = .error (.state fault)) :
    (StateEngine.execute engine parent.stateRoot block.context block.transactions).1 =
      .error fault := by
  simp only [checkOn] at failed
  split at failed
  case h_1 error flawed =>
      rcases exists_flaw_of_checkBody flawed with ⟨_, rfl⟩
      cases failed
  case h_2 =>
      split at failed
      case isTrue => cases failed
      case isFalse =>
          generalize StateEngine.execute engine _ _ _ = result at failed ⊢
          rcases result with ⟨answer, after⟩
          cases answer with
          | error fault' =>
              cases failed
              rfl
          | ok root =>
              dsimp only at failed
              split at failed
              case isTrue => cases failed
              case isFalse => cases failed

/-! ## Checks by a steady engine -/

open StateEngine (Answers Asked Consistent Repeats Steady)

/-- The check looks only at the engine's answer. -/
theorem checkOn_congr
    (same : (StateEngine.execute engine parent.stateRoot block.context block.transactions).1 =
      (StateEngine.execute engine' parent.stateRoot block.context block.transactions).1) :
    (block.checkOn parent engine).1 = (block.checkOn parent engine').1 := by
  simp only [checkOn]
  split
  case h_1 => rfl
  case h_2 =>
      split
      case isTrue => rfl
      case isFalse =>
          generalize StateEngine.execute engine _ _ _ = left at same ⊢
          generalize StateEngine.execute engine' _ _ _ = right at same ⊢
          rcases left with ⟨answer, after⟩
          rcases right with ⟨answer', after'⟩
          cases same
          cases answer with
          | error fault => rfl
          | ok root =>
              dsimp only
              split
              case isTrue => rfl
              case isFalse => rfl

/-- A check asks the engine at most once. -/
theorem engine_checkOn (block parent : Block) (engine : σ) :
    (block.checkOn parent engine).2 = engine ∨
      (block.checkOn parent engine).2 =
        (StateEngine.execute engine parent.stateRoot block.context block.transactions).2 := by
  simp only [checkOn]
  split
  case h_1 => exact .inl rfl
  case h_2 =>
      split
      case isTrue => exact .inl rfl
      case isFalse =>
          right
          generalize StateEngine.execute engine _ _ _ = result
          rcases result with ⟨answer, after⟩
          cases answer with
          | error fault => rfl
          | ok root =>
              dsimp only
              split
              case isTrue => rfl
              case isFalse => rfl

theorem asked_checkOn (block parent : Block) (engine : σ) :
    Asked engine (block.checkOn parent engine).2 := by
  rcases engine_checkOn block parent engine with same | asked
  · rw [same]
    exact .refl
  · rw [asked]
    exact .single ⟨_, _, _, rfl⟩

/-- A check that is made again has the same outcome. -/
theorem checkOn_again (repeats : Repeats engine) (block parent : Block) :
    (block.checkOn parent (block.checkOn parent engine).2).1 = (block.checkOn parent engine).1 := by
  apply checkOn_congr
  rcases engine_checkOn block parent engine with same | asked
  · rw [same]
  · rw [asked]
    exact repeats _ _ _

theorem checkOn_eq_of_steady (steady : Steady engine) (asked : Asked engine engine')
    (block parent : Block) : (block.checkOn parent engine').1 = (block.checkOn parent engine).1 := by
  rcases steady with ⟨answer, answers⟩
  apply checkOn_congr
  rw [answers engine' asked, answers engine .refl]

/-- A steady engine never makes a check fail for its own sake. -/
theorem checkOn_ne_fault_of_steady (steady : Steady engine) (asked : Asked engine engine')
    (block parent : Block) (fault : StateFault) :
    (block.checkOn parent engine').1 ≠ .error (.state fault) := by
  rcases steady with ⟨answer, answers⟩
  intro failed
  have executed := execute_of_checkOn failed
  rw [answers engine' asked] at executed
  cases executed

/-! ## Checks by engines with the same answers -/

/-- The block follows from its parent when executions lead to these roots. -/
def ValidOn (answer : Root → ExecutionContext → List Transaction → Root) (block parent : Block) :
    Prop :=
  block.checkBody = .ok () ∧ block.number = parent.number + 1 ∧
    answer parent.stateRoot block.context block.transactions = block.stateRoot

theorem validOn_of_checkOn {answer : Root → ExecutionContext → List Transaction → Root}
    (consistent : Consistent answer engine) (accepted : (block.checkOn parent engine).1 = .ok ()) :
    block.ValidOn answer parent := by
  rcases checkOn_eq_ok_iff.mp (Prod.ext accepted rfl) with ⟨sound, next, executed⟩
  exact ⟨sound, next, (consistent engine .refl _ _ _ _ (congrArg Prod.fst executed)).symm⟩

/-- Only a fault keeps a valid block from passing. -/
theorem checkOn_of_validOn {answer : Root → ExecutionContext → List Transaction → Root}
    (consistent : Consistent answer engine) (valid : block.ValidOn answer parent) :
    (block.checkOn parent engine).1 = .ok () ∨
      ∃ fault, (block.checkOn parent engine).1 = .error (.state fault) := by
  rcases valid with ⟨sound, next, follows⟩
  have answered := consistent engine .refl parent.stateRoot block.context block.transactions
  rw [follows] at answered
  simp only [checkOn, sound, next, ne_eq, not_true_eq_false, if_false]
  generalize StateEngine.execute engine _ _ _ = result at answered ⊢
  rcases result with ⟨answer, after⟩
  cases answer with
  | error fault => exact .inr ⟨fault, rfl⟩
  | ok root =>
      left
      simp only [answered root rfl, if_true]

/-- Engines with the same answers accept the same blocks. -/
theorem checkOn_eq_ok_iff_validOn {answer : Root → ExecutionContext → List Transaction → Root}
    (answers : Answers answer engine) :
    (block.checkOn parent engine).1 = .ok () ↔ block.ValidOn answer parent := by
  refine ⟨validOn_of_checkOn answers.consistent, ?_⟩
  intro valid
  rcases checkOn_of_validOn answers.consistent valid with accepted | ⟨fault, failed⟩
  · exact accepted
  · exact absurd failed (checkOn_ne_fault_of_steady answers.steady .refl block parent fault)

end Block

end HeaviestChain
