import HeaviestChain.Proofs.Ledger.Vetting
import HeaviestChain.Proofs.Mempool
import HeaviestChain.Proofs.Metrics.Counters
import HeaviestChain.RootEngine

/-!
# What the gauges show

A node sets its gauges at the end of every call but one: seeding the first block leaves them as they
are.  All that seeding can change is that the genesis block joins an empty tree, with the blocks
that wait for it (`participant_of_not_setsGauges`).  Gauges that were set before that do not show a
best block, so they are wrong afterwards.  Gauges that were never set are all zero, and so are the
sizes of a node that holds nothing but a genesis block.
-/

namespace HeaviestChain

/-! ## Seeding the first block -/

namespace Ledger

variable {σ : Type} [StateEngine σ] {ledger : Ledger σ} {genesis : Block}

/-- A genesis block joins an empty tree, or nothing happens. -/
theorem deliver_genesis (ledger : Ledger σ) (isGenesis : genesis.isGenesis = true)
    (now : Timestamp) :
    (ledger.deliver genesis now).ledger = ledger ∨
      ledger.tree.isEmpty = true ∧ Joins ledger.tree genesis := by
  have settled (verdict : (ledger.examine genesis now).verdict = .settled) :=
    deliver_of_settled verdict
  have examination := ledger.examination genesis now
  generalize ledger.examine genesis now = admission at examination settled
  cases examination with
  | known _ => exact .inl (settled rfl)
  | unsound _ _ => exact .inl (settled rfl)
  | secondGenesis _ _ _ _ => exact .inl (settled rfl)
  | first unknown sound _ empty => exact .inr ⟨empty, .of_empty unknown sound isGenesis empty⟩
  | parentless _ _ notGenesis _ => rw [isGenesis] at notGenesis; cases notGenesis
  | valid _ _ notGenesis _ _ => rw [isGenesis] at notGenesis; cases notGenesis
  | faulted _ _ notGenesis _ _ => rw [isGenesis] at notGenesis; cases notGenesis
  | invalid _ _ notGenesis _ _ => rw [isGenesis] at notGenesis; cases notGenesis

theorem examine_first (now : Timestamp) (isGenesis : genesis.isGenesis = true)
    (empty : ledger.tree.isEmpty = true) (joins : Joins ledger.tree genesis) :
    ledger.examine genesis now =
      settle { ledger with tree := (ledger.tree.attach genesis).1 } genesis
        (ledger.tree.attach genesis).2.change? := by
  rw [← ledger.connect_eq joins]
  simp only [examine, joins.unknown, joins.sound, isGenesis, empty, Bool.false_eq_true, if_false,
    if_true]

/-- The delivery of a first block ends with a best block. -/
theorem bestNumber?_deliver_first (now : Timestamp) (isGenesis : genesis.isGenesis = true)
    (empty : ledger.tree.isEmpty = true) (joins : Joins ledger.tree genesis)
    (headed : (ledger.deliver genesis now).ledger.tree.Headed) :
    (ledger.deliver genesis now).ledger.tree.bestNumber? ≠ none := by
  have verdict : (ledger.examine genesis now).verdict = .connected := by
    rw [examine_first now isGenesis empty joins]
    rfl
  rcases BlockTree.block?_eq_some_iff.mp (block?_deliver_of_connected verdict) with ⟨_, found, _⟩
  have mem := BlockTree.mem_of_lookup found
  rw [BlockTree.bestNumber?, ne_eq, Option.map_eq_none_iff, ← headed.stored_eq_nil_iff]
  exact List.ne_nil_of_mem mem

/-- A ledger that holds at most a first block. -/
structure Bare (ledger : Ledger σ) : Prop where
  tree : ledger.tree = .empty ∨ ledger.tree.bestNumber? = some 0
  orphans : ledger.orphans = { capacity := ledger.orphans.capacity }
  pool : ledger.pool = .empty

theorem Bare.deliver_first (bare : Bare ledger) (now : Timestamp)
    (isGenesis : genesis.isGenesis = true) (empty : ledger.tree = .empty)
    (joins : Joins ledger.tree genesis) :
    Bare (ledger.deliver genesis now).ledger ∧
      (ledger.deliver genesis now).ledger.tree.bestNumber? = some 0 := by
  have isEmpty : ledger.tree.isEmpty = true := by rw [empty]; rfl
  have examined := examine_first now isGenesis isEmpty joins
  have turn : Turn now (ledger, [genesis]) _ := .connected (by rw [examined]; rfl)
  rcases BlockTree.attach_first isGenesis with ⟨best, change, isChange, stays⟩
  rcases ledger with ⟨tree, orphans, pool, engine⟩
  obtain rfl : tree = .empty := empty
  obtain rfl : pool = .empty := bare.pool
  obtain ⟨capacity, rfl⟩ : ∃ capacity, orphans = { capacity } := ⟨_, bare.orphans⟩
  rw [examined, isChange] at turn
  have last : (deliver { orphans := { capacity }, engine } genesis now).ledger =
      { tree := (BlockTree.empty.attach genesis).1
        orphans := { capacity }
        pool := (Mempool.empty.reconcile change).1
        engine } :=
    congrArg Prod.fst (turns_nil (turns_end (.single turn)))
  rw [last]
  exact ⟨⟨.inr best, rfl, Mempool.reconcile_empty stays⟩, best⟩

end Ledger

/-! ## Gauges -/

namespace Participant

variable {σ : Type}

/-- Something that the gauges are about is not the same. -/
def Differs (left right : Participant σ) : Prop :=
  left.ledger.tree ≠ right.ledger.tree ∨ left.ledger.orphans ≠ right.ledger.orphans ∨
    left.ledger.pool ≠ right.ledger.pool ∨ left.peers ≠ right.peers

end Participant

namespace Gauges

variable {σ : Type} {participant : Participant σ}

/-- Without a best block, and only then, the number -1 is shown. -/
theorem bestNumber_eq_neg_one_iff :
    (ofParticipant participant).bestNumber = -1 ↔
      participant.ledger.tree.bestNumber? = none := by
  have nonneg : 0 ≤ maxShown := by decide
  simp only [ofParticipant]
  cases participant.ledger.tree.bestNumber? with
  | none => simp
  | some number => simp only [reduceCtorEq, iff_false]; omega

/-- The gauges of a node with nothing but a first block are those of a node that just started. -/
theorem ofParticipant_of_bare (bare : participant.ledger.Bare)
    (best : participant.ledger.tree.bestNumber? = some 0) (peers : participant.peers = .empty) :
    ofParticipant participant = {} := by
  have orphans : participant.ledger.orphans.size = 0 := by
    rw [bare.orphans]
    rfl
  simp only [ofParticipant, best, orphans, bare.pool, peers]
  rfl

end Gauges

namespace Node

variable {σ : Type}

/-- The gauges of a node that counts. -/
def gauges? (node : Node σ) : Option Gauges := node.metrics.map (·.gauges)

/-- Reopened requests change nothing that is shown. -/
theorem reopen_frame (node : Node σ) (requests : List (PeerId × UInt64)) :
    (node.reopen requests).participant.ledger = node.participant.ledger ∧
      (node.reopen requests).participant.peers.count = node.participant.peers.count := by
  induction requests generalizing node with
  | nil => exact ⟨rfl, rfl⟩
  | cons request rest ih =>
      let first : Node σ :=
        { node with participant := node.participant.reopenRequests request.1 request.2 }
      rcases ih first with ⟨ledger, count⟩
      exact ⟨ledger, count.trans (Peers.count_modifyRequested ..)⟩

theorem ofParticipant_reopen (node : Node σ) (requests : List (PeerId × UInt64)) :
    Gauges.ofParticipant (node.reopen requests).participant =
      Gauges.ofParticipant node.participant := by
  rcases node.reopen_frame requests with ⟨ledger, count⟩
  simp only [Gauges.ofParticipant, ledger, count]

/-! ## Calls to a node -/

/-- What a node can be asked to do, and what can happen to it in between. -/
inductive Call (σ : Type) where
  /-- The genesis block is to be connected. -/
  | seedGenesis (genesis : Block) (now : Timestamp)
  /-- A message is to be handled. -/
  | handle (inbound : Inbound) (now : Timestamp)
  /-- Old orphans are to be dropped. -/
  | upkeep (now : Timestamp)
  /-- A peer is to be forgotten. -/
  | forgetPeer (peer : PeerId)
  /-- Nothing is asked; the state engine and the outbox become others. -/
  | elsewhere (engine : σ) (outbox : Outbox)

/-- The gauges are set at the end of the call. -/
def Call.setsGauges : Call σ → Bool
  | handle .. | upkeep _ | forgetPeer _ => true
  | seedGenesis .. | elsewhere .. => false

variable [StateEngine σ]

/-- The node after a call. -/
def perform (node : Node σ) : Call σ → Node σ
  | .seedGenesis genesis now => (node.seedGenesis genesis now).node
  | .handle inbound now => (node.handle inbound now).node
  | .upkeep now => (node.upkeep now).1
  | .forgetPeer peer => (node.forgetPeer peer).1
  | .elsewhere engine outbox =>
      { node with
        participant := { node.participant with ledger := { node.participant.ledger with engine } }
        outbox }

/-- The node after several calls. -/
def run (node : Node σ) (calls : List (Call σ)) : Node σ := calls.foldl perform node

theorem run_append (node : Node σ) (calls : List (Call σ)) (call : Call σ) :
    node.run (calls ++ [call]) = (node.run calls).perform call :=
  List.foldl_append

variable {node : Node σ} {metrics : Metrics}

/-- A call at whose end the gauges are set leaves them at the sizes of the state. -/
theorem perform_of_setsGauges (collected : node.metrics = some metrics)
    (tally : metrics.Tally node.participant.ledger.tree) {call : Call σ}
    (sets : call.setsGauges = true) :
    ∃ later, (node.perform call).metrics = some later ∧
      later.Tally (node.perform call).participant.ledger.tree ∧
      later.gauges = .ofParticipant (node.perform call).participant := by
  cases call with
  | seedGenesis _ _ => cases sets
  | elsewhere _ _ => cases sets
  | upkeep now =>
      simp only [perform, upkeep, refreshGauges, collected, Option.map_some]
      exact ⟨_, rfl, tally.congr rfl rfl, rfl⟩
  | forgetPeer peer =>
      simp only [perform, forgetPeer, refreshGauges, collected, Option.map_some]
      exact ⟨_, rfl, tally.congr rfl rfl, rfl⟩
  | handle inbound now =>
      have received :=
        (tally.countMessage inbound.message).receive inbound.message inbound.sender now
      let reacted := (node.react inbound now).node
      let posted := (reacted.post (node.react inbound now).answer).1
      let lost :=
        requestsAt (node.react inbound now).answer (node.handle inbound now).answer.dropped
      have counted : reacted.metrics = some
          { (metrics.countMessage inbound.message).countEvents (node.react inbound now).events with
            gauges := .ofParticipant reacted.participant } := by
        simp only [reacted, react, countEvents, refreshGauges, collected, Option.map_some]
      have ledger : (node.perform (.handle inbound now)).participant.ledger =
          reacted.participant.ledger := (posted.reopen_frame lost).1
      have shown : Gauges.ofParticipant (node.perform (.handle inbound now)).participant =
          Gauges.ofParticipant reacted.participant := posted.ofParticipant_reopen lost
      rw [ledger, shown]
      exact ⟨_, counted, received.congr rfl rfl, rfl⟩

/-- The other calls count as well, but leave the gauges as they are. -/
theorem perform_of_not_setsGauges (collected : node.metrics = some metrics)
    (tally : metrics.Tally node.participant.ledger.tree) {call : Call σ}
    (keeps : call.setsGauges = false) :
    ∃ later, (node.perform call).metrics = some later ∧
      later.Tally (node.perform call).participant.ledger.tree ∧
      later.gauges = metrics.gauges := by
  cases call with
  | handle _ _ => cases keeps
  | upkeep _ => cases keeps
  | forgetPeer _ => cases keeps
  | elsewhere engine outbox => exact ⟨metrics, collected, tally, rfl⟩
  | seedGenesis genesis now =>
      simp only [perform, seedGenesis]
      split
      case isTrue => exact ⟨metrics, collected, tally, rfl⟩
      case isFalse =>
          split
          case isTrue => exact ⟨metrics, collected, tally, rfl⟩
          case isFalse =>
              refine ⟨_, ?_, tally.deliver genesis now, Metrics.gauges_countEvents _ _⟩
              simp only [countEvents, collected, Option.map_some]

/-- All that such a call can change is that a first block joins an empty tree. -/
theorem participant_of_not_setsGauges (node : Node σ) {call : Call σ}
    (keeps : call.setsGauges = false) :
    (node.perform call).participant.peers = node.participant.peers ∧
      (¬ (node.perform call).participant.Differs node.participant ∨
        ∃ genesis now, genesis.isGenesis = true ∧ node.participant.ledger.tree.isEmpty = true ∧
          Ledger.Joins node.participant.ledger.tree genesis ∧
          (node.perform call).participant.ledger =
            (node.participant.ledger.deliver genesis now).ledger) := by
  have unchanged {other : Participant σ} (ledger : other.ledger = node.participant.ledger)
      (peers : other.peers = node.participant.peers) : ¬ other.Differs node.participant := by
    simp [Participant.Differs, ledger, peers]
  cases call with
  | handle _ _ => cases keeps
  | upkeep _ => cases keeps
  | forgetPeer _ => cases keeps
  | elsewhere engine outbox => exact ⟨rfl, .inl (by simp [perform, Participant.Differs])⟩
  | seedGenesis genesis now =>
      simp only [perform, seedGenesis]
      split
      case isTrue => exact ⟨rfl, .inl (unchanged rfl rfl)⟩
      case isFalse =>
          split
          case isTrue => exact ⟨rfl, .inl (unchanged rfl rfl)⟩
          case isFalse isGenesis =>
              rw [Bool.not_eq_true', Bool.not_eq_false] at isGenesis
              refine ⟨rfl, ?_⟩
              rcases Ledger.deliver_genesis node.participant.ledger isGenesis now with
                same | ⟨isEmpty, joins⟩
              · exact .inl (unchanged same rfl)
              · exact .inr ⟨genesis, now, isGenesis, isEmpty, joins, rfl⟩

/-! ## Runs -/

/-- What a node that counts shows after some calls. -/
structure Shows (calls : List (Call σ)) (node : Node σ) (metrics : Metrics) : Prop where
  collected : node.metrics = some metrics
  tally : metrics.Tally node.participant.ledger.tree
  /-- As long as the gauges were never set, the node holds at most a first block. -/
  unset : (∀ call ∈ calls, call.setsGauges = false) →
    metrics.gauges = {} ∧ node.participant.ledger.Bare ∧ node.participant.peers = .empty
  /-- If they were set, they do not show a best block before there is one. -/
  unseeded : (∃ call ∈ calls, call.setsGauges = true) → node.participant.ledger.tree = .empty →
    metrics.gauges.bestNumber = -1

omit [StateEngine σ] in
theorem shows_of_start {settings : Settings} {engine : σ}
    (collects : settings.collectsMetrics = true)
    (started : Node.start settings engine = .ok node) : Shows [] node {} := by
  simp only [Node.start] at started
  split at started
  case h_1 => cases started
  case h_2 =>
      cases started
      refine ⟨if_pos collects, Metrics.tally_empty, fun _ => ⟨rfl, ⟨.inl rfl, rfl, rfl⟩, rfl⟩, ?_⟩
      rintro ⟨_, mem, _⟩
      cases mem

namespace Shows

variable {calls : List (Call σ)} (shows : Shows calls node metrics) {call : Call σ}

include shows

theorem set (sets : call.setsGauges = true) :
    ∃ later, Shows (calls ++ [call]) (node.perform call) later ∧
      later.gauges = .ofParticipant (node.perform call).participant := by
  rcases perform_of_setsGauges shows.collected shows.tally sets with
    ⟨later, collected, tally, shown⟩
  refine ⟨later, ⟨collected, tally, ?_, ?_⟩, shown⟩
  · intro never
    have kept := never call (by simp)
    rw [sets] at kept
    cases kept
  · intro _ empty
    rw [shown, Gauges.bestNumber_eq_neg_one_iff, empty]
    rfl

theorem bare_perform (keeps : call.setsGauges = false)
    (never : ∀ other ∈ calls, other.setsGauges = false) :
    (node.perform call).participant.ledger.Bare := by
  rcases shows.unset never with ⟨_, bare, _⟩
  rcases (node.participant_of_not_setsGauges keeps).2 with
    unchanged | ⟨genesis, now, isGenesis, isEmpty, joins, delivered⟩
  · simp only [Participant.Differs, not_or, not_not] at unchanged
    rcases unchanged with ⟨tree, orphans, pool, _⟩
    exact ⟨tree ▸ bare.tree, orphans ▸ bare.orphans, pool ▸ bare.pool⟩
  · rw [delivered]
    exact (bare.deliver_first now isGenesis (shows.tally.replayed.eq_empty isEmpty) joins).1

theorem empty_of_perform (keeps : call.setsGauges = false)
    (empty : (node.perform call).participant.ledger.tree = .empty) :
    node.participant.ledger.tree = .empty := by
  rcases (node.participant_of_not_setsGauges keeps).2 with unchanged | ⟨_, _, _, isEmpty, _⟩
  · simp only [Participant.Differs, not_or, not_not] at unchanged
    exact unchanged.1.symm.trans empty
  · exact shows.tally.replayed.eq_empty isEmpty

theorem keep (keeps : call.setsGauges = false) :
    ∃ later, Shows (calls ++ [call]) (node.perform call) later ∧ later.gauges = metrics.gauges := by
  rcases perform_of_not_setsGauges shows.collected shows.tally keeps with
    ⟨later, collected, tally, same⟩
  refine ⟨later, ⟨collected, tally, ?_, ?_⟩, same⟩
  · intro never
    have before (other) (mem : other ∈ calls) := never other (List.mem_append_left _ mem)
    rcases shows.unset before with ⟨gauges, _, nobody⟩
    exact ⟨same.trans gauges, shows.bare_perform keeps before,
      (node.participant_of_not_setsGauges keeps).1.trans nobody⟩
  · rintro ⟨other, mem, sets⟩ empty
    rcases List.mem_append.mp mem with mem | isLast
    · rw [same]
      exact shows.unseeded ⟨other, mem, sets⟩ (shows.empty_of_perform keeps empty)
    · rw [List.mem_singleton.mp isLast, keeps] at sets
      cases sets

/-- If such a call changes the node, its gauges are right exactly if they were never set. -/
theorem gauges_eq_iff (keeps : call.setsGauges = false)
    (differs : (node.perform call).participant.Differs node.participant) :
    metrics.gauges = .ofParticipant (node.perform call).participant ↔
      ∀ other ∈ calls, other.setsGauges = false := by
  rcases node.participant_of_not_setsGauges keeps with
    ⟨peers, unchanged | ⟨genesis, now, isGenesis, isEmpty, joins, delivered⟩⟩
  · exact absurd differs unchanged
  have empty := shows.tally.replayed.eq_empty isEmpty
  constructor
  · intro shown
    by_contra ever
    have set : ∃ other ∈ calls, other.setsGauges = true := by simpa using ever
    have headed := (shows.tally.deliver genesis now).replayed.headed
    have unseeded := shows.unseeded set empty
    rw [shown, Gauges.bestNumber_eq_neg_one_iff, delivered] at unseeded
    exact Ledger.bestNumber?_deliver_first now isGenesis isEmpty joins headed unseeded
  · intro never
    rcases shows.unset never with ⟨gauges, bare, nobody⟩
    have best := (bare.deliver_first now isGenesis empty joins).2
    rw [← delivered] at best
    rw [gauges, Gauges.ofParticipant_of_bare (shows.bare_perform keeps never) best
      (peers.trans nobody)]

end Shows

theorem exists_shows_run {settings : Settings} {engine : σ}
    (collects : settings.collectsMetrics = true)
    (started : Node.start settings engine = .ok node) (calls : List (Call σ)) :
    ∃ metrics, Shows calls (node.run calls) metrics := by
  induction calls using List.reverseRecOn with
  | nil => exact ⟨_, shows_of_start collects started⟩
  | append_singleton calls call ih =>
      rcases ih with ⟨metrics, shows⟩
      rw [run_append]
      cases sets : call.setsGauges with
      | true =>
          rcases shows.set sets with ⟨later, shows', _⟩
          exact ⟨later, shows'⟩
      | false =>
          rcases shows.keep sets with ⟨later, shows', _⟩
          exact ⟨later, shows'⟩

/-- Metrics follow the state, with one exception.  In whatever way blocks were seeded, messages
handled, old orphans dropped and peers forgotten, also if the state engine failed or became another
one: the counters agree with the tree.  A call at whose end the gauges are set leaves them at the
sizes of the present state.  The others leave them as they were; if such a call changes what the
gauges are about, they are right afterwards exactly if nothing has ever set them. -/
theorem metrics_of_run {settings : Settings} {engine : σ}
    (collects : settings.collectsMetrics = true)
    (started : Node.start settings engine = .ok node) (calls : List (Call σ)) :
    (∃ metrics, (node.run calls).metrics = some metrics ∧
      metrics.Tally (node.run calls).participant.ledger.tree) ∧
    ∀ call,
      let before := node.run calls
      let after := before.perform call
      (call.setsGauges = true → after.gauges? = some (.ofParticipant after.participant)) ∧
        (call.setsGauges = false → after.gauges? = before.gauges? ∧
          (after.participant.Differs before.participant →
            (after.gauges? = some (.ofParticipant after.participant) ↔
              ∀ other ∈ calls, other.setsGauges = false))) := by
  rcases exists_shows_run collects started calls with ⟨metrics, shows⟩
  refine ⟨⟨metrics, shows.collected, shows.tally⟩, ?_⟩
  intro call before after
  constructor
  · intro sets
    rcases shows.set sets with ⟨later, shows', shown⟩
    rw [gauges?, shows'.collected, Option.map_some, shown]
  · intro keeps
    rcases shows.keep keeps with ⟨later, shows', same⟩
    have gauges : after.gauges? = some metrics.gauges := by
      rw [gauges?, shows'.collected, Option.map_some, same]
    refine ⟨?_, fun differs => ?_⟩
    · rw [gauges, gauges?, shows.collected, Option.map_some]
    · rw [gauges, Option.some.injEq]
      exact shows.gauges_eq_iff keeps differs

/-- A block on a genesis block, and a heavier one beside it. -/
def shownBase : Block := ({} : GenesisSpec).block

def shownLow : Block :=
  .build 1 shownBase.hash [] [] shownBase.stateRoot .epoch .zero .one

def shownRival : Block :=
  .build 1 shownBase.hash [] [] shownBase.stateRoot .epoch .zero (.ofWord 5)

def shownPeer : PeerId := ⟨.zero 32⟩

def shownSettings : Settings := { collectsMetrics := true }

def shownStart : Node RootEngine where
  settings := shownSettings
  participant := { ledger := .empty (.seeded .zero) 65536 }
  outbox := { capacity := 1024 }
  metrics := some {}

theorem start_shownSettings : Node.start shownSettings (.seeded .zero) = .ok shownStart := by
  have usable : shownSettings.flaw? = none := by decide +kernel
  rw [Node.start, usable]
  rfl

/-- A block comes in before the genesis block is connected, and a heavier one later. -/
def shownCalls : List (Call RootEngine) :=
  [.handle ⟨.block shownLow, some shownPeer⟩ .epoch, .seedGenesis shownBase .epoch,
    .handle ⟨.block shownRival, some shownPeer⟩ .epoch]

/-- Three blocks are connected, and the canonical chain goes over to the heavier one once. -/
theorem shownCalls_metrics :
    shownSettings.collectsMetrics = true ∧
      Node.start shownSettings (.seeded .zero) = .ok shownStart ∧
      (shownStart.run shownCalls).participant.ledger.tree.count = 3 ∧
      (shownStart.run shownCalls).participant.ledger.tree.switches = 1 ∧
      (∃ metrics, (shownStart.run shownCalls).metrics = some metrics ∧
        metrics.Tally (shownStart.run shownCalls).participant.ledger.tree) ∧
      ((shownStart.run shownCalls).perform (.upkeep .epoch)).gauges? =
        some { bestNumber := 1, orphans := 0, pending := 0, peers := 0 } := by
  rcases metrics_of_run rfl start_shownSettings shownCalls with ⟨counted, perform⟩
  refine ⟨rfl, start_shownSettings, by decide +kernel, by decide +kernel, counted, ?_⟩
  rw [(perform (.upkeep .epoch)).1 rfl]
  decide +kernel

/-- When the genesis block is connected after another message, its child is connected as well, but
the gauges show the child still waiting and no best block. -/
theorem lateSeed_unshown :
    let before := shownStart.run [.handle ⟨.block shownLow, some shownPeer⟩ .epoch]
    let after := before.perform (.seedGenesis shownBase .epoch)
    Node.start shownSettings (.seeded .zero) = .ok shownStart ∧
      after.participant.Differs before.participant ∧
      after.gauges? = some { bestNumber := -1, orphans := 1, pending := 0, peers := 0 } ∧
      Gauges.ofParticipant after.participant =
        { bestNumber := 1, orphans := 0, pending := 0, peers := 0 } := by
  intro before after
  have grown : after.participant.ledger.tree ≠ before.participant.ledger.tree := by decide +kernel
  exact ⟨start_shownSettings, .inl grown, by decide +kernel, by decide +kernel⟩

end Node

end HeaviestChain
