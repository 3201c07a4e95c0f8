import HeaviestChain.Proofs.Requests.Batch
import HeaviestChain.RootEngine
import Mathlib.Algebra.Order.Floor.Div

/-!
# The order of requests

In which order a participant asks one peer for numbers, whatever it hears in between and whatever
becomes of its ledger, as long as it neither forgets the peer nor reopens requests to it.  Every
step is a batch or nothing (`Hears`), and a batch lies between the mark before and the mark after.
So the numbers of a run ascend from its first mark to its last (`Ascends`): none is asked for twice.
The marks pass no other numbers than those asked for and those that the ledger was past when the
peer announced something.

A peer that announces the same number again and again is asked for all numbers up to it, batch
after batch, and then for nothing.
-/

namespace HeaviestChain

open Word64 (above)

namespace Participant

variable {σ : Type}

/-! ## Commands -/

/-- What can happen to a participant. -/
inductive Command (σ : Type) where
  /-- A message arrives. -/
  | receive (message : Message) (sender : Option PeerId) (now : Timestamp)
  /-- The ledger becomes another one, for whatever reason. -/
  | rebase (ledger : Ledger σ)
  /-- A peer is forgotten. -/
  | forget (peer : PeerId)
  /-- Requests to a peer are reopened. -/
  | reopen (peer : PeerId) (firstUnsent : UInt64)

/-- The command forgets the peer or reopens requests to it. -/
def Command.Disturbs (peer : PeerId) : Command σ → Prop
  | .receive _ _ _ => False
  | .rebase _ => False
  | .forget other => other = peer
  | .reopen other _ => other = peer

/-- The number that a peer announces on a network, if that is what happens. -/
def Command.announcement? (network : NetworkId) (peer : PeerId) : Command σ → Option UInt64
  | .receive message sender _ => Participant.announcement? network peer message sender
  | _ => none

theorem Command.announcement?_eq_some_iff {network : NetworkId} {peer : PeerId}
    {command : Command σ} {announced : UInt64} :
    command.announcement? network peer = some announced ↔
      ∃ status now, command = .receive (.status status) (some peer) now ∧
        status.network = network ∧ status.best = announced := by
  cases command with
  | receive message sender now =>
      simp only [announcement?, Participant.announcement?_eq_some_iff, receive.injEq]
      constructor
      · rintro ⟨status, isStatus, isSender, same⟩
        exact ⟨status, now, ⟨isStatus, isSender, rfl⟩, same⟩
      · rintro ⟨status, _, ⟨isStatus, isSender, _⟩, same⟩
        exact ⟨status, isStatus, isSender, same⟩
  | _ => simp [announcement?]

/-- The numbers that a peer announces on a network, in order. -/
def announcements (network : NetworkId) (peer : PeerId) (commands : List (Command σ)) :
    List UInt64 :=
  commands.filterMap (·.announcement? network peer)

variable [StateEngine σ]

/-- The participant after a command, and what it sends. -/
def perform (participant : Participant σ) : Command σ → Participant σ × List Outbound
  | .receive message sender now =>
      let reaction := participant.receive message sender now
      (reaction.participant, reaction.sent)
  | .rebase ledger => ({ participant with ledger }, [])
  | .forget peer => ((participant.forgetPeer peer).1, [])
  | .reopen peer firstUnsent => (participant.reopenRequests peer firstUnsent, [])

/-- The participant after commands in a row, and all that it sends. -/
def run (participant : Participant σ) : List (Command σ) → Participant σ × List Outbound
  | [] => (participant, [])
  | command :: rest =>
      let first := participant.perform command
      let others := first.1.run rest
      (others.1, first.2 ++ others.2)

theorem run_append (participant : Participant σ) (commands more : List (Command σ)) :
    participant.run (commands ++ more) =
      (((participant.run commands).1.run more).1,
        (participant.run commands).2 ++ ((participant.run commands).1.run more).2) := by
  induction commands generalizing participant with
  | nil => rfl
  | cons command rest ih => simp only [List.cons_append, run, ih, List.append_assoc]

theorem perform_frame (participant : Participant σ) (command : Command σ) :
    (participant.perform command).1.network = participant.network ∧
      (participant.perform command).1.syncLimit = participant.syncLimit := by
  cases command with
  | receive message sender now =>
      cases message with
      | status status => exact (participant.receiveStatus_frame status sender now).2
      | _ => exact ⟨rfl, rfl⟩
  | rebase _ => exact ⟨rfl, rfl⟩
  | forget _ => exact ⟨rfl, rfl⟩
  | reopen _ _ => exact ⟨rfl, rfl⟩

theorem run_frame (participant : Participant σ) (commands : List (Command σ)) :
    (participant.run commands).1.network = participant.network ∧
      (participant.run commands).1.syncLimit = participant.syncLimit := by
  induction commands generalizing participant with
  | nil => exact ⟨rfl, rfl⟩
  | cons command rest ih =>
      rcases ih (participant.perform command).1 with ⟨network, syncLimit⟩
      rcases participant.perform_frame command with ⟨network', syncLimit'⟩
      exact ⟨network.trans network', syncLimit.trans syncLimit'⟩

theorem hears_perform (participant : Participant σ) {peer : PeerId} {command : Command σ}
    (undisturbed : ¬command.Disturbs peer) :
    Hears participant peer (command.announcement? participant.network peer)
      ((participant.perform command).1.peers.record? peer)
      (numbersAsked peer (participant.perform command).2) := by
  cases command with
  | receive message sender now => exact participant.hears_receive peer message sender now
  | rebase _ => exact .quiet
  | forget other =>
      have same : (participant.perform (.forget other)).1.peers.record? peer =
          participant.peers.record? peer :=
        (participant.peers.record?_forget other peer).trans (if_neg (Ne.symm undisturbed))
      rw [same]
      exact .quiet
  | reopen other firstUnsent =>
      have same : (participant.perform (.reopen other firstUnsent)).1.peers.record? peer =
          participant.peers.record? peer :=
        (participant.peers.record?_modifyRequested other peer _).trans
          (if_neg (Ne.symm undisturbed))
      rw [same]
      exact .quiet

/-! ## Ascending numbers -/

/-- Numbers in ascending order, all of them from `low` on and below `high`. -/
structure Ascends (low : Nat) (numbers : List Nat) (high : Nat) : Prop where
  ordered : low ≤ high
  within : ∀ number ∈ numbers, low ≤ number ∧ number < high
  ascending : numbers.Pairwise (· < ·)

theorem Ascends.append {low middle high : Nat} {numbers more : List Nat}
    (first : Ascends low numbers middle) (second : Ascends middle more high) :
    Ascends low (numbers ++ more) high where
  ordered := first.ordered.trans second.ordered
  within := by
    intro number mem
    rcases List.mem_append.mp mem with early | late
    · exact ⟨(first.within number early).1, (first.within number early).2.trans_le second.ordered⟩
    · exact ⟨first.ordered.trans (second.within number late).1, (second.within number late).2⟩
  ascending := by
    rw [List.pairwise_append]
    refine ⟨first.ascending, second.ascending, ?_⟩
    intro early earlyMem late lateMem
    exact (first.within early earlyMem).2.trans_le (second.within late lateMem).1

omit [StateEngine σ] in
theorem Hears.ascends {participant : Participant σ} {peer : PeerId} {heard : Option UInt64}
    {record : Option PeerRecord} {asked : List Nat}
    (hears : Hears participant peer heard record asked) :
    Ascends (above (participant.peers.requestedThrough? peer)) asked
      (above (record.bind (·.requestedThrough))) where
  ordered := hears.mark_le
  within := by
    intro number mem
    rcases hears.between mem with ⟨wanted, below⟩
    exact ⟨(Nat.le_max_right ..).trans wanted, below⟩
  ascending := by
    cases hears with
    | quiet => exact .nil
    | batch _ _ => exact List.pairwise_lt_range' ..

/-! ## Runs -/

section Run

variable {participant : Participant σ} {peer : PeerId} {commands : List (Command σ)}
  (undisturbed : ∀ command ∈ commands, ¬command.Disturbs peer)

include undisturbed

theorem ascends_run :
    Ascends (above (participant.peers.requestedThrough? peer))
      (numbersAsked peer (participant.run commands).2)
      (above ((participant.run commands).1.peers.requestedThrough? peer)) := by
  induction commands generalizing participant with
  | nil => exact ⟨Nat.le_refl _, List.forall_mem_nil _, .nil⟩
  | cons command rest ih =>
      rw [List.forall_mem_cons] at undisturbed
      simp only [run, numbersAsked_append]
      exact (participant.hears_perform undisturbed.1).ascends.append (ih undisturbed.2)

/-- A number that the mark has passed was asked for, or the ledger was past it when the peer
announced something. -/
theorem asked_or_stored_run {number : Nat}
    (passed : number < above ((participant.run commands).1.peers.requestedThrough? peer)) :
    number < above (participant.peers.requestedThrough? peer) ∨
      number ∈ numbersAsked peer (participant.run commands).2 ∨
      ∃ earlier command later, commands = earlier ++ command :: later ∧
        (command.announcement? participant.network peer).isSome = true ∧
        number < above (participant.run earlier).1.ledger.tree.bestNumber? := by
  induction commands generalizing participant with
  | nil => exact .inl passed
  | cons command rest ih =>
      rw [List.forall_mem_cons] at undisturbed
      have hears := participant.hears_perform undisturbed.1
      simp only [run, numbersAsked_append, List.mem_append] at passed ⊢
      rcases ih undisturbed.2 passed with marked | asked | ⟨earlier, other, later, rfl, announces, stored⟩
      · rcases hears.asked_or_stored marked with old | asked | ⟨announces, stored⟩
        · exact .inl old
        · exact .inr (.inl (.inl asked))
        · exact .inr (.inr ⟨[], command, rest, rfl, announces, stored⟩)
      · exact .inr (.inl (.inr asked))
      · rw [(participant.perform_frame command).1] at announces
        exact .inr (.inr ⟨command :: earlier, other, later, rfl, announces, stored⟩)

/-- The number a peer stands for is one that it has announced. -/
theorem best_or_announced_run {best : UInt64}
    (known : (participant.run commands).1.peers.bestOf? peer = some best) :
    participant.peers.bestOf? peer = some best ∨
      best ∈ announcements participant.network peer commands := by
  induction commands generalizing participant with
  | nil => exact .inl known
  | cons command rest ih =>
      rw [List.forall_mem_cons] at undisturbed
      have frame := (participant.perform_frame command).1
      rw [announcements, List.mem_filterMap]
      rcases ih undisturbed.2 known with before | announced
      · rcases (participant.hears_perform undisturbed.1).best_or_heard before with old | heard
        · exact .inl old
        · exact .inr ⟨command, List.mem_cons_self .., heard⟩
      · rw [frame, announcements, List.mem_filterMap] at announced
        rcases announced with ⟨other, mem, heard⟩
        exact .inr ⟨other, List.mem_cons_of_mem _ mem, heard⟩

/-- While the best number stays, a peer that announces one number over and over is asked for all
numbers up to it in a row, as many after each announcement as are allowed. -/
theorem numbersAsked_of_repeated {times : Nat} {announced : UInt64} {best : Option UInt64}
    (repeated : announcements participant.network peer commands = List.replicate times announced)
    (within : ∀ registered, participant.peers.bestOf? peer = some registered →
      registered ≤ announced)
    (still : ∀ earlier, earlier <+: commands →
      (participant.run earlier).1.ledger.tree.bestNumber? = best) :
    numbersAsked peer (participant.run commands).2 =
      List.range' (participant.nextWanted peer)
        (min (times * participant.syncLimit.count.toNat)
          (announced.toNat + 1 - participant.nextWanted peer)) := by
  induction commands generalizing participant times with
  | nil =>
      have never : times = 0 := by simpa [announcements] using repeated.symm
      rw [never, Nat.zero_mul, Nat.zero_min]
      rfl
  | cons command rest ih =>
      rw [List.forall_mem_cons] at undisturbed
      have hears := participant.hears_perform undisturbed.1
      rcases participant.perform_frame command with ⟨sameNetwork, sameLimit⟩
      have isBest : participant.ledger.tree.bestNumber? = best := still [] List.nil_prefix
      have stillLater : ∀ earlier, earlier <+: rest →
          ((participant.perform command).1.run earlier).1.ledger.tree.bestNumber? = best :=
        fun earlier isPrefix => still (command :: earlier) (List.cons_prefix_cons.mpr ⟨rfl, isPrefix⟩)
      have bestLater : (participant.perform command).1.ledger.tree.bestNumber? = best :=
        stillLater [] List.nil_prefix
      have later := @ih (participant.perform command).1 undisturbed.2
      simp only [nextWanted, Peers.requestedThrough?, Peers.bestOf?, bestLater, sameNetwork,
        sameLimit] at later
      simp only [run, numbersAsked_append]
      simp only [announcements, List.filterMap_cons] at repeated later
      generalize (participant.perform command).1.peers.record? peer = record at hears later
      cases heard : command.announcement? participant.network peer with
      | none =>
          rw [heard] at hears repeated
          generalize numbersAsked peer (participant.perform command).2 = asked at hears
          cases hears
          rw [later repeated within stillLater, ← isBest]
          rfl
      | some number =>
          rw [heard] at hears repeated
          cases times with
          | zero => cases repeated
          | succ times =>
              simp only [List.replicate_succ, List.cons.injEq] at repeated
              rcases repeated with ⟨rfl, repeated⟩
              rcases hears.of_highest within with ⟨highest, asked, next⟩
              rw [isBest] at next
              rw [later repeated (by simp [highest]) stillLater, next, asked, List.range'_append_1]
              congr 1
              rw [Nat.succ_mul]
              simp only [batchLength]
              omega

/-- When all numbers have been asked for, the same announcement leads to nothing. -/
theorem numbersAsked_of_repeated_enough {times : Nat} {announced : UInt64}
    (repeated : announcements participant.network peer commands = List.replicate times announced)
    (within : ∀ registered, participant.peers.bestOf? peer = some registered →
      registered ≤ announced)
    (still : ∀ earlier, earlier <+: commands →
      (participant.run earlier).1.ledger.tree.bestNumber? = participant.ledger.tree.bestNumber?)
    (enough : (announced.toNat + 1 - participant.nextWanted peer) ⌈/⌉
      participant.syncLimit.count.toNat ≤ times) :
    numbersAsked peer (participant.run commands).2 =
        List.range' (participant.nextWanted peer)
          (announced.toNat + 1 - participant.nextWanted peer) ∧
      ∀ status now, status.network = participant.network → status.best = announced →
        numbersAsked peer
          ((participant.run commands).1.receive (.status status) (some peer) now).sent = [] := by
  have positive : 0 < participant.syncLimit.count.toNat :=
    UInt64.lt_iff_toNat_lt.mp participant.syncLimit.count_pos
  rw [ceilDiv_le_iff_le_mul positive, Nat.mul_comm] at enough
  have all := numbersAsked_of_repeated undisturbed repeated within still
  rw [Nat.min_eq_right enough] at all
  refine ⟨all, ?_⟩
  intro status now sameNetwork same
  let command : Command σ := .receive (.status status) (some peer) now
  have once : announcements participant.network peer [command] = [announced] := by
    simp [announcements, Command.announcement?, announcement?, command, sameNetwork, same]
  have undisturbedLonger : ∀ other ∈ commands ++ [command], ¬other.Disturbs peer := by
    intro other mem
    rcases List.mem_append.mp mem with old | new
    · exact undisturbed other old
    · rw [List.mem_singleton.mp new]
      exact id
  have repeatedLonger : announcements participant.network peer (commands ++ [command]) =
      List.replicate (times + 1) announced := by
    rw [List.replicate_succ', ← repeated, ← once]
    exact List.filterMap_append ..
  have stillLonger : ∀ earlier, earlier <+: commands ++ [command] →
      (participant.run earlier).1.ledger.tree.bestNumber? =
        participant.ledger.tree.bestNumber? := by
    intro earlier isPrefix
    rcases List.prefix_concat_iff.mp isPrefix with rfl | isPrefix
    · have unchanged :=
        ((participant.run commands).1.receiveStatus_frame status (some peer) now).1
      rw [run_append, ← still commands List.prefix_rfl]
      exact congrArg (·.tree.bestNumber?) unchanged
    · exact still earlier isPrefix
  -- the run with one more announcement asks for the same numbers, so this one adds none
  have longer := numbersAsked_of_repeated undisturbedLonger repeatedLonger within stillLonger
  rw [Nat.succ_mul, Nat.min_eq_right (by omega), run_append, numbersAsked_append, all] at longer
  have nothing := List.append_right_eq_self.mp longer
  simpa only [run, perform, command, List.append_nil] using nothing

end Run

/-- How a participant asks a peer for numbers, from when it does not know the peer on, whatever
happens, as long as it neither forgets the peer nor reopens requests to it.  The numbers of the
whole run ascend.  Every message leads to numbers in a row, and to no more than allowed; they are
above the best number at that moment and not above all that the peer has announced.  What was not
asked for up to the mark was not above the best number when some status of the peer came.  And while
the best number stays, a peer that announces the same number often enough, and no less than before,
is asked for all numbers up to it, each of them once, and then for nothing. -/
theorem requests_in_order {start : Participant σ} {peer : PeerId}
    (unknown : start.peers.record? peer = none) {commands : List (Command σ)}
    (undisturbed : ∀ command ∈ commands, ¬command.Disturbs peer) :
    let reached := (start.run commands).1
    let asked := numbersAsked peer (start.run commands).2
    let limit := start.syncLimit.count.toNat
    asked.Pairwise (· < ·) ∧
    (∀ message sender now,
      let batch := numbersAsked peer (reached.receive message sender now).sent
      (∃ first count, batch = List.range' first count ∧ count ≤ limit) ∧
        ∀ number ∈ batch,
          (∀ best, reached.ledger.tree.bestNumber? = some best → best.toNat < number) ∧
            ∃ announced ∈ announcements start.network peer
              (commands ++ [.receive message sender now]), number ≤ announced.toNat) ∧
    (∀ mark, reached.peers.requestedThrough? peer = some mark → ∀ number ≤ mark.toNat,
      number ∉ asked → ∃ earlier status now later,
        commands = earlier ++ .receive (.status status) (some peer) now :: later ∧
          status.network = start.network ∧
          ∃ best, (start.run earlier).1.ledger.tree.bestNumber? = some best ∧
            number ≤ best.toNat) ∧
    ∀ more times announced, (∀ command ∈ more, ¬command.Disturbs peer) →
      announcements start.network peer more = List.replicate times announced →
      (∀ registered, reached.peers.bestOf? peer = some registered → registered ≤ announced) →
      (∀ earlier, earlier <+: more →
        (reached.run earlier).1.ledger.tree.bestNumber? = reached.ledger.tree.bestNumber?) →
      let first := reached.nextWanted peer
      numbersAsked peer (reached.run more).2 =
          List.range' first (min (times * limit) (announced.toNat + 1 - first)) ∧
        ((announced.toNat + 1 - first) ⌈/⌉ limit ≤ times →
          numbersAsked peer (reached.run more).2 =
              List.range' first (announced.toNat + 1 - first) ∧
            ∀ status now, status.network = start.network → status.best = announced →
              numbersAsked peer
                ((reached.run more).1.receive (.status status) (some peer) now).sent = []) := by
  intro reached asked limit
  rcases start.run_frame commands with ⟨sameNetwork, sameLimit⟩
  have unmarked : start.peers.requestedThrough? peer = none := by
    simp only [Peers.requestedThrough?, unknown, Option.bind_none]
  refine ⟨(ascends_run undisturbed).ascending, ?batches, ?passed, ?repeated⟩
  case batches =>
      intro message sender now batch
      have hears := reached.hears_receive peer message sender now
      rw [show reached.network = start.network from sameNetwork] at hears
      constructor
      · rcases hears.asked_eq_range' with ⟨first, count, isRange, few⟩
        rw [show reached.syncLimit = start.syncLimit from sameLimit] at few
        exact ⟨first, count, isRange, few⟩
      · intro number mem
        constructor
        · intro best isBest
          have wanted := (Nat.le_max_left ..).trans (hears.between mem).1
          rw [isBest] at wanted
          exact wanted
        · rcases hears.exists_best_le mem with ⟨best, isBest, le⟩
          refine ⟨best, ?_, le⟩
          rw [announcements, List.filterMap_append, List.mem_append]
          rcases hears.best_or_heard isBest with old | heard
          · rcases best_or_announced_run undisturbed old with unheard | announced
            · simp [Peers.bestOf?, unknown] at unheard
            · exact .inl announced
          · exact .inr (by simpa [Command.announcement?] using heard)
  case passed =>
      intro mark isMark number below unasked
      have passed : number < above (reached.peers.requestedThrough? peer) := by
        rw [isMark]
        exact Nat.lt_succ_of_le below
      rcases asked_or_stored_run undisturbed passed with old | mem | found
      · rw [unmarked] at old
        cases old
      · exact absurd mem unasked
      · rcases found with ⟨earlier, command, later, isRun, announces, stored⟩
        rcases Option.isSome_iff_exists.mp announces with ⟨announced, announces⟩
        rcases Command.announcement?_eq_some_iff.mp announces with ⟨status, now, rfl, network, _⟩
        exact ⟨earlier, status, now, later, isRun, network, Word64.lt_above_iff.mp stored⟩
  case repeated =>
      intro more times announced undisturbedMore repeated within still first
      have sameNetwork' : start.network = reached.network := sameNetwork.symm
      have sameLimit' : limit = reached.syncLimit.count.toNat := by
        simp only [limit, reached, sameLimit]
      rw [sameNetwork'] at repeated ⊢
      rw [sameLimit']
      exact ⟨numbersAsked_of_repeated undisturbedMore repeated within still,
        numbersAsked_of_repeated_enough undisturbedMore repeated within still⟩

def orderPeer : PeerId := ⟨.replicate 32 7⟩

/-- A participant with a genesis block, which may ask for two numbers after one status. -/
def orderStart : Participant RootEngine where
  ledger := ((Ledger.empty (RootEngine.seeded .zero) 3).deliver ({} : GenesisSpec).block .epoch).ledger
  syncLimit := ⟨2, by decide⟩

/-- It hears of four blocks, loses its chain and forgets another peer. -/
def orderRun : List (Command RootEngine) :=
  [.receive (.status ⟨orderPeer, .mainnet, 3⟩) (some orderPeer) .epoch,
    .rebase (.empty (.seeded .zero) 3), .forget ⟨.replicate 32 8⟩]

def orderRepeats : List (Command RootEngine) :=
  List.replicate 2 (.receive (.status ⟨orderPeer, .mainnet, 5⟩) (some orderPeer) .epoch)

/-- Number zero is not asked for, since it was stored; the other numbers are, each of them once. -/
theorem orderRun_in_order :
    let reached := (orderStart.run orderRun).1
    numbersAsked orderPeer (orderStart.run orderRun).2 = [1, 2] ∧
      (∃ earlier status now later,
        orderRun = earlier ++ .receive (.status status) (some orderPeer) now :: later ∧
          status.network = orderStart.network ∧
          ∃ best, (orderStart.run earlier).1.ledger.tree.bestNumber? = some best ∧
            0 ≤ best.toNat) ∧
      numbersAsked orderPeer (reached.run orderRepeats).2 = [3, 4, 5] ∧
      ∀ status now, status.network = orderStart.network → status.best = 5 →
        numbersAsked orderPeer
          ((reached.run orderRepeats).1.receive (.status status) (some orderPeer) now).sent = [] := by
  intro reached
  have unknown : orderStart.peers.record? orderPeer = none := rfl
  have undisturbed : ∀ command ∈ orderRun, ¬command.Disturbs orderPeer := by
    simp [orderRun, Command.Disturbs, orderPeer]
    decide
  have inOrder := requests_in_order unknown undisturbed
  have evaluated : numbersAsked orderPeer (orderStart.run orderRun).2 = [1, 2] ∧
      reached.peers.requestedThrough? orderPeer = some 2 ∧
      reached.peers.bestOf? orderPeer = some 3 ∧ reached.nextWanted orderPeer = 3 := by
    decide +kernel
  rcases evaluated with ⟨asked, mark, best, first⟩
  refine ⟨asked, ?_, ?_⟩
  · apply inOrder.2.2.1 2 mark 0 (Nat.zero_le _)
    rw [asked]
    decide
  · have undisturbedRepeats : ∀ command ∈ orderRepeats, ¬command.Disturbs orderPeer := by
      simp [orderRepeats, Command.Disturbs]
    have within : ∀ registered, reached.peers.bestOf? orderPeer = some registered →
        registered ≤ 5 := by
      intro registered known
      rw [best] at known
      cases known
      decide
    have still : ∀ earlier, earlier <+: orderRepeats →
        (reached.run earlier).1.ledger.tree.bestNumber? = reached.ledger.tree.bestNumber? := by
      intro earlier isPrefix
      have listed : earlier ∈ orderRepeats.inits := (List.mem_inits _ _).mpr isPrefix
      simp only [orderRepeats, List.replicate, List.inits, List.map_cons, List.map_nil,
        List.mem_cons, List.not_mem_nil, or_false] at listed
      rcases listed with rfl | rfl | rfl
      · rfl
      · decide +kernel
      · decide +kernel
    have all := (inOrder.2.2.2 orderRepeats 2 5 undisturbedRepeats rfl within still).2
    rw [first] at all
    exact all (by decide)

end Participant

end HeaviestChain
