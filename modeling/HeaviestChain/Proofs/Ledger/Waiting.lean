import HeaviestChain.Proofs.Ledger.Custody

/-!
# Waiting for a parent that is stored

A block is parked because its parent is not stored, and when a block is connected, those that waited
for it are released.  So no block waits for a stored parent, turn by turn (`Parentless`).

Only a fault makes an exception: what is left of the list waits again then, although the parents are
stored.  Hence a block that waits for a stored parent is a trace of a delivery that a fault has
stopped (`parentless_run`).
-/

namespace HeaviestChain

namespace Ledger

variable {σ : Type}

/-- No block waits for a parent that is stored. -/
def Parentless (ledger : Ledger σ) : Prop :=
  ∀ parent, ∀ orphan ∈ ledger.orphans.filedUnder parent, ledger.tree.contains parent = false

theorem parentless_empty (engine : σ) (capacity : Nat) : Parentless (empty engine capacity) := by
  intro parent orphan filed
  cases filed

namespace Parentless

variable {ledger : Ledger σ} {block : Block} (parentless : Parentless ledger)
  (wellFormed : ledger.orphans.WellFormed)

include parentless wellFormed

theorem park (missing : ledger.tree.contains block.parentHash = false) (now : Timestamp) :
    Parentless { ledger with orphans := (ledger.orphans.hold block now).1 } := by
  intro parent orphan filed
  rcases OrphanBuffer.mem_filedUnder_of_mem_hold filed with old | here
  · exact parentless parent orphan old
  · rw [← (wellFormed.hold block now).filed parent orphan filed, here]
    exact missing

theorem join (joins : Joins ledger.tree block) (pool : Mempool) (engine : σ) :
    Parentless
      { tree := (ledger.tree.attach block).1
        orphans := ((ledger.orphans.take block.hash).2.release block.hash).2
        pool
        engine } := by
  intro parent orphan filed
  rcases (OrphanBuffer.mem_filedUnder_release_take wellFormed).mp filed with ⟨elsewhere, old, _⟩
  exact joins.not_contains_attach elsewhere (parentless parent orphan old)

omit wellFormed in
theorem expire (maxAge : UInt64) (now : Timestamp) :
    Parentless (ledger.expireOrphans maxAge now).1 := by
  intro parent orphan filed
  exact parentless parent orphan (OrphanBuffer.mem_filedUnder_expire.mp filed).1

end Parentless

variable [StateEngine σ]

section Turn

variable {ledger : Ledger σ} {block : Block} {now : Timestamp} (parentless : Parentless ledger)
  (wellFormed : ledger.orphans.WellFormed)

include parentless wellFormed

theorem Parentless.settled (verdict : (ledger.examine block now).verdict = .settled) :
    Parentless (ledger.examine block now).ledger := by
  have effect := ledger.effect block now
  generalize ledger.examine block now = admission at effect verdict ⊢
  cases effect with
  | dropped _ => exact parentless
  | parked _ missing => exact parentless.park wellFormed missing now
  | joined _ => cases verdict

theorem Parentless.connected (verdict : (ledger.examine block now).verdict = .connected) :
    Parentless
      { (ledger.examine block now).ledger with
        orphans := ((ledger.examine block now).ledger.orphans.release block.hash).2 } := by
  have effect := ledger.effect block now
  generalize ledger.examine block now = admission at effect verdict ⊢
  cases effect with
  | dropped unconnected => exact absurd verdict unconnected
  | parked _ _ => cases verdict
  | joined joins => exact parentless.join wellFormed joins _ _

end Turn

theorem parentless_cascade {ledger : Ledger σ} {now : Timestamp} {queue connected all : List Block}
    (done : (ledger.cascade now queue connected).outcome = .ok all)
    (wellFormed : ledger.orphans.WellFormed) (parentless : Parentless ledger) :
    Parentless (ledger.cascade now queue connected).ledger := by
  fun_induction cascade ledger now queue connected with
  | case1 => exact parentless
  | case2 ledger connected block queue admission verdict rest ih =>
      have turn : Turn now (ledger, block :: queue) _ := .settled verdict
      exact ih done (turn.shift.wellFormed wellFormed) (parentless.settled wellFormed verdict)
  | case3 ledger connected block queue admission verdict release rest ih =>
      have turn : Turn now (ledger, block :: queue) _ := .connected verdict
      exact ih done (turn.shift.wellFormed wellFormed) (parentless.connected wellFormed verdict)
  | case4 => cases done

/-- A delivery without a fault leaves no block waiting for a stored parent. -/
theorem parentless_deliver {ledger : Ledger σ} {block : Block} {now : Timestamp}
    {connected : List Block} (done : (ledger.deliver block now).outcome = .ok connected)
    (wellFormed : ledger.orphans.WellFormed) (parentless : Parentless ledger) :
    Parentless (ledger.deliver block now).ledger := by
  unfold deliver at done ⊢
  split
  case isTrue => exact parentless
  case isFalse unknown =>
      rw [if_neg unknown] at done
      exact parentless_cascade done wellFormed parentless

/-- Some delivery of the commands ends with a fault. -/
def Fails (ledger : Ledger σ) (commands : List (Command σ)) : Prop :=
  ∃ earlier block now later fault, commands = earlier ++ .deliver block now :: later ∧
    ((ledger.run earlier).deliver block now).outcome = .error fault

theorem Fails.cons {ledger : Ledger σ} {command : Command σ} {rest : List (Command σ)}
    (fails : (ledger.perform command).Fails rest) : ledger.Fails (command :: rest) := by
  rcases fails with ⟨earlier, block, now, later, fault, rfl, failed⟩
  exact ⟨command :: earlier, block, now, later, fault, rfl, failed⟩

/-- If no delivery of a run ends with a fault, no block waits for a stored parent. -/
theorem parentless_run {ledger : Ledger σ} (custody : Custody ledger [])
    (parentless : Parentless ledger) {commands : List (Command σ)}
    (undisturbed : ¬ledger.Fails commands) : Parentless (ledger.run commands) := by
  induction commands generalizing ledger with
  | nil => exact parentless
  | cons command rest ih =>
      apply ih (custody_onward (ledger.onward_perform command) custody)
      · cases command with
        | deliver block now =>
            cases outcome : (ledger.deliver block now).outcome with
            | ok connected => exact parentless_deliver outcome custody.wellFormed parentless
            | error fault => exact absurd ⟨[], block, now, rest, fault, rfl, outcome⟩ undisturbed
        | expire maxAge now => exact parentless.expire maxAge now
        | submit tx => exact parentless
        | alter engine => exact parentless
      · exact fun fails => undisturbed fails.cons

end Ledger

end HeaviestChain
