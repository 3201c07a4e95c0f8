import HeaviestChain.Proofs.Ledger.Vetting

/-!
# Ledgers with an honest engine

As long as the state engine answers like one function and never fails, a ledger stores only blocks
that are valid by the answers of that function: the first block has a sound body, and every other
one follows from its parent.  Two ledgers with the same function agree on what is valid, so that one
of them accepts what the other has stored.
-/

namespace HeaviestChain

namespace Ledger

open BlockTree (Grown)
open StateEngine (Answers)

variable {σ : Type} [StateEngine σ]

/-- The engine answers like a function, and what is stored is valid by its answers. -/
structure Honest (answer : Root → ExecutionContext → List Transaction → Root) (ledger : Ledger σ) :
    Prop where
  answers : Answers answer ledger.engine
  valid : Grown (fun child parent => child.isGenesis = false ∧ child.ValidOn answer parent)
    ledger.tree.stored
  sound : ∀ entry ∈ ledger.tree.stored, entry.block.checkBody = .ok ()

variable {answer : Root → ExecutionContext → List Transaction → Root} {ledger : Ledger σ}

theorem honest_empty {engine : σ} (answers : Answers answer engine) (capacity : Nat) :
    Honest answer (empty engine capacity) where
  answers := answers
  valid := .empty
  sound := List.forall_mem_nil _

namespace Honest

theorem vetted (honest : Honest answer ledger) : Vetted answer ledger where
  consistent := honest.answers.consistent
  valid := honest.valid
  sound := honest.sound

theorem run (honest : Honest answer ledger) {commands : List (Command σ)}
    (alters : ∀ engine, Command.alter engine ∈ commands → Answers answer engine) :
    Honest answer (ledger.run commands) := by
  have vetted := honest.vetted.run fun engine mem => (alters engine mem).consistent
  refine ⟨?answers, vetted.valid, vetted.sound⟩
  case answers =>
    apply run_induction (P := fun ledger => Answers answer ledger.engine) _ _ _ _ alters honest.answers
    · exact fun ledger block now answers => answers.asked (ledger.asked_examine block now)
    · exact fun _ _ answers => answers
    · exact fun _ _ answers => answers
    · exact fun _ _ answers _ => answers

end Honest

end Ledger

end HeaviestChain
