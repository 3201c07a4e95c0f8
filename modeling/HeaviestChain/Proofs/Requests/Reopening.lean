import HeaviestChain.Node
import HeaviestChain.Proofs.Requests.Batch
import HeaviestChain.RootEngine
import Mathlib.Logic.Function.Basic
import Mathlib.Logic.Relation

/-!
# Requests that are not posted

A node handles a message in three steps: it reacts, it posts what it has to say, and it reopens the
requests that were not posted.  Other things can happen between these steps.  `Step` lets any
messages be handled at the same time, with their steps in any order, while blocks are connected and
peers are forgotten; which messages find no room when they are posted is left open.

A request that was not posted is not forgotten.  Reopening takes the mark of the peer back below its
number, and no other step moves a mark up but a status, which asks for all numbers that the mark
passes unless the ledger is past them (`Hears.asked_or_stored`).  So when the last call that asked
for a number has lost the request and reopened it, the mark is below that number, or a status came
later that found a best number that was no less.
-/

namespace HeaviestChain

open Word64 (above)

variable {σ : Type}

namespace Node

/-- Reopening takes all marks back that are not below a reopened request, and no others. -/
theorem above_reopen (node : Node σ) (requests : List (PeerId × UInt64)) (peer : PeerId) :
    above ((node.reopen requests).participant.peers.requestedThrough? peer) ≤
        above (node.participant.peers.requestedThrough? peer) ∧
      ∀ number, (peer, number) ∈ requests →
        above ((node.reopen requests).participant.peers.requestedThrough? peer) ≤
          number.toNat := by
  induction requests generalizing node with
  | nil => exact ⟨Nat.le_refl _, fun _ mem => nomatch mem⟩
  | cons request rest ih =>
      let first : Node σ :=
        { node with participant := node.participant.reopenRequests request.1 request.2 }
      have later : above ((first.reopen rest).participant.peers.requestedThrough? peer) ≤
          above (first.participant.peers.requestedThrough? peer) := (ih first).1
      have taken := node.participant.peers.above_reopenRequests request.1 peer request.2
      refine ⟨later.trans taken.1, ?_⟩
      intro number mem
      rcases List.mem_cons.mp mem with rfl | mem
      · exact later.trans taken.2
      · exact (ih first).2 number mem

theorem above_forgetPeer (node : Node σ) (forgotten peer : PeerId) :
    above ((node.forgetPeer forgotten).1.participant.peers.requestedThrough? peer) ≤
      above (node.participant.peers.requestedThrough? peer) := by
  have record : (node.forgetPeer forgotten).1.participant.peers.record? peer =
      if peer = forgotten then none else node.participant.peers.record? peer :=
    node.participant.peers.record?_forget forgotten peer
  simp only [Peers.requestedThrough?, record]
  split
  case isTrue => exact Nat.zero_le _
  case isFalse => exact Nat.le_refl _

end Node

variable [StateEngine σ]

/-! ## Calls -/

/-- A message that is handled, with the node as it was when it reacted. -/
structure Call (σ : Type) where
  before : Node σ
  inbound : Inbound
  now : Timestamp

namespace Call

/-- What the reaction is to send. -/
def batch (call : Call σ) : List Outbound := (call.before.react call.inbound call.now).answer

/-- The call asks a peer for the block with a number. -/
def Asks (call : Call σ) (peer : PeerId) (number : UInt64) : Prop :=
  ∃ outbound ∈ call.batch, outbound.numberRequest? = some (peer, number)

/-- The call handles a status of a peer at a moment when the ledger has reached a number. -/
def Passes (call : Call σ) (peer : PeerId) (number : UInt64) : Prop :=
  ∃ status, call.inbound = ⟨.status status, some peer⟩ ∧
    status.network = call.before.participant.network ∧
    ∃ best, call.before.participant.ledger.tree.bestNumber? = some best ∧ number ≤ best

/-- A reaction moves a mark past a number only if it asks for it or the ledger has reached it. -/
theorem asks_or_passes (call : Call σ) {peer : PeerId} {number : UInt64}
    (unmarked : above (call.before.participant.peers.requestedThrough? peer) ≤ number.toNat) :
    call.Asks peer number ∨ call.Passes peer number ∨
      above ((call.before.react call.inbound call.now).node.participant.peers.requestedThrough?
        peer) ≤ number.toNat := by
  have hears := call.before.participant.hears_receive peer call.inbound.message
    call.inbound.sender call.now
  by_cases passed : number.toNat < above
      ((call.before.react call.inbound call.now).node.participant.peers.requestedThrough? peer)
  · rcases hears.asked_or_stored passed with marked | asked | ⟨heard, stored⟩
    · omega
    · exact .inl (mem_numbersAsked.mp asked)
    · right
      left
      rcases Option.isSome_iff_exists.mp heard with ⟨announced, heard⟩
      rcases Participant.announcement?_eq_some_iff.mp heard with
        ⟨status, isStatus, isSender, sameNetwork, _⟩
      rcases Word64.lt_above_iff.mp stored with ⟨best, isBest, reached⟩
      rcases call with ⟨before, ⟨message, sender⟩, now⟩
      cases isStatus
      cases isSender
      exact ⟨status, rfl, sameNetwork, best, isBest, UInt64.le_iff_toNat_le.mpr reached⟩
  · exact .inr (.inr (Nat.not_lt.mp passed))

end Call

/-- How far a call has come. -/
inductive Stage where
  /-- The node has reacted. -/
  | reacted
  /-- The reaction was posted, but for the messages at these positions. -/
  | posted (dropped : List Nat)
  /-- The requests among those were reopened: the call is over. -/
  | reopened (dropped : List Nat)

/-- A node and the calls to it, oldest first, with their stages by position. -/
structure Traffic (σ : Type) where
  node : Node σ
  calls : List (Call σ)
  stage : Nat → Stage

namespace Traffic

/-- No message has been handled. -/
def idle (node : Node σ) : Traffic σ := ⟨node, [], fun _ => .reacted⟩

/-- What can happen next.  What becomes of the outbox when a reaction is posted, and which positions
are dropped, is left open, and so is all that leaves the peers alone: blocks that are connected by
others, upkeep, frames that are taken out. -/
inductive Step : Traffic σ → Traffic σ → Prop
  | react (traffic : Traffic σ) (inbound : Inbound) (now : Timestamp) :
      Step traffic
        { node := (traffic.node.react inbound now).node
          calls := traffic.calls ++ [⟨traffic.node, inbound, now⟩]
          stage := Function.update traffic.stage traffic.calls.length .reacted }
  | post {traffic : Traffic σ} {position : Nat} {call : Call σ}
      (isCall : traffic.calls[position]? = some call)
      (reacted : traffic.stage position = .reacted) (outbox : Outbox) (dropped : List Nat) :
      Step traffic
        { traffic with
          node := { traffic.node with outbox }
          stage := Function.update traffic.stage position (.posted dropped) }
  | reopen {traffic : Traffic σ} {position : Nat} {call : Call σ} {dropped : List Nat}
      (isCall : traffic.calls[position]? = some call)
      (posted : traffic.stage position = .posted dropped) :
      Step traffic
        { traffic with
          node := traffic.node.reopen (Node.requestsAt call.batch dropped)
          stage := Function.update traffic.stage position (.reopened dropped) }
  | forget (traffic : Traffic σ) (peer : PeerId) :
      Step traffic { traffic with node := (traffic.node.forgetPeer peer).1 }
  | aside {traffic : Traffic σ} {node : Node σ}
      (samePeers : node.participant.peers = traffic.node.participant.peers) :
      Step traffic { traffic with node }

/-- From one moment to a later one. -/
abbrev Steps : Traffic σ → Traffic σ → Prop := Relation.ReflTransGen Step

/-- Handling a message at once is one way to take its steps. -/
theorem steps_handle (traffic : Traffic σ) (inbound : Inbound) (now : Timestamp) :
    Steps traffic
      { node := (traffic.node.handle inbound now).node
        calls := traffic.calls ++ [⟨traffic.node, inbound, now⟩]
        stage := Function.update traffic.stage traffic.calls.length
          (.reopened (traffic.node.handle inbound now).answer.dropped) } := by
  let reacted : Traffic σ :=
    { node := (traffic.node.react inbound now).node
      calls := traffic.calls ++ [⟨traffic.node, inbound, now⟩]
      stage := Function.update traffic.stage traffic.calls.length .reacted }
  let posted : Traffic σ :=
    { reacted with
      node := (reacted.node.post (traffic.node.react inbound now).answer).1
      stage := Function.update traffic.stage traffic.calls.length
        (.posted (traffic.node.handle inbound now).answer.dropped) }
  have isCall : reacted.calls[traffic.calls.length]? = some ⟨traffic.node, inbound, now⟩ := by
    simp [reacted]
  have react : Step traffic reacted := .react traffic inbound now
  have post : Step reacted posted := by
    have step := Step.post isCall (Function.update_self ..) posted.node.outbox
      (traffic.node.handle inbound now).answer.dropped
    simp only [reacted, Function.update_idem] at step
    exact step
  have reopen := @Step.reopen _ _ posted _ _ _ isCall (Function.update_self ..)
  simp only [posted, Function.update_idem] at reopen
  exact .tail (.tail (.single react) post) reopen

/-! ## Dropped requests -/

/-- Requests that were not posted are reopened, unless that is no longer of use. -/
def Reopens (traffic : Traffic σ) : Prop :=
  ∀ position call dropped peer number, traffic.calls[position]? = some call →
    traffic.stage position = .reopened dropped →
    (peer, number) ∈ Node.requestsAt call.batch dropped →
    (∀ later ∈ traffic.calls.drop (position + 1), ¬later.Asks peer number) →
      (∃ later ∈ traffic.calls.drop (position + 1), later.Passes peer number) ∨
        above (traffic.node.participant.peers.requestedThrough? peer) ≤ number.toNat

namespace Reopens

variable {traffic : Traffic σ} (reopens : traffic.Reopens)

include reopens

/-- This is kept while no mark moves up and no call is over. -/
theorem lower {node : Node σ} {stage : Nat → Stage}
    (lower : ∀ peer, above (node.participant.peers.requestedThrough? peer) ≤
      above (traffic.node.participant.peers.requestedThrough? peer))
    (isOver : ∀ position dropped, stage position = .reopened dropped →
      traffic.stage position = .reopened dropped) :
    Reopens { traffic with node, stage } := by
  intro position call dropped peer number isCall reopened lost latest
  rcases reopens position call dropped peer number isCall (isOver _ _ reopened) lost latest with
    passes | below
  · exact .inl passes
  · exact .inr ((lower peer).trans below)

theorem react (inbound : Inbound) (now : Timestamp) :
    Reopens
      { node := (traffic.node.react inbound now).node
        calls := traffic.calls ++ [⟨traffic.node, inbound, now⟩]
        stage := Function.update traffic.stage traffic.calls.length .reacted } := by
  intro position call dropped peer number isCall isOver lost latest
  dsimp only at isCall isOver latest ⊢
  have within : position < traffic.calls.length + 1 := by
    simpa using (List.getElem?_eq_some_iff.mp isCall).1
  -- the new call is not over
  have isOld : position < traffic.calls.length := by
    rcases Nat.lt_succ_iff_lt_or_eq.mp within with old | new
    · exact old
    · rw [new, Function.update_self] at isOver
      cases isOver
  rw [List.getElem?_append_left isOld] at isCall
  rw [Function.update_of_ne (Nat.ne_of_lt isOld)] at isOver
  rw [List.drop_append_of_le_length isOld] at latest ⊢
  simp only [List.mem_append, List.mem_singleton, or_imp, forall_and, forall_eq] at latest
  rcases reopens position call dropped peer number isCall isOver lost latest.1 with
    ⟨later, mem, passes⟩ | below
  · exact .inl ⟨later, List.mem_append_left _ mem, passes⟩
  · rcases Call.asks_or_passes ⟨traffic.node, inbound, now⟩ below with asks | passes | below
    · exact absurd asks latest.2
    · exact .inl ⟨_, List.mem_append_right _ (List.mem_singleton_self _), passes⟩
    · exact .inr below

theorem reopen {position : Nat} {call : Call σ} {dropped : List Nat}
    (isCall : traffic.calls[position]? = some call) :
    Reopens
      { traffic with
        node := traffic.node.reopen (Node.requestsAt call.batch dropped)
        stage := Function.update traffic.stage position (.reopened dropped) } := by
  intro other call' dropped' peer number isCall' isOver lost latest
  have marks := traffic.node.above_reopen (Node.requestsAt call.batch dropped) peer
  dsimp only at isCall' isOver latest ⊢
  by_cases same : other = position
  · subst same
    rw [Function.update_self, Stage.reopened.injEq] at isOver
    rw [isCall, Option.some.injEq] at isCall'
    rw [← isOver, ← isCall'] at lost
    exact .inr (marks.2 number lost)
  · rw [Function.update_of_ne same] at isOver
    rcases reopens other call' dropped' peer number isCall' isOver lost latest with passes | below
    · exact .inl passes
    · exact .inr (marks.1.trans below)

theorem step {next : Traffic σ} (step : Step traffic next) : next.Reopens := by
  cases step with
  | react inbound now => exact reopens.react inbound now
  | @post position call isCall reacted outbox dropped =>
      apply reopens.lower fun _ => Nat.le_refl _
      intro other dropped' isOver
      by_cases same : other = position
      · rw [same, Function.update_self] at isOver
        cases isOver
      · rwa [Function.update_of_ne same] at isOver
  | reopen isCall posted => exact reopens.reopen isCall
  | forget peer =>
      exact reopens.lower (traffic.node.above_forgetPeer peer) fun _ _ isOver => isOver
  | aside samePeers =>
      apply reopens.lower _ fun _ _ isOver => isOver
      intro peer
      rw [samePeers]

end Reopens

theorem reopens_of_steps {start : Node σ} {traffic : Traffic σ}
    (leads : Steps (idle start) traffic) : traffic.Reopens := by
  induction leads with
  | refl => exact fun _ _ _ _ _ isCall => nomatch isCall
  | tail _ step ih => exact ih.step step

/-- A request that was not posted is not forgotten, whatever else is being handled.  If a call is
over, its request for a number to a peer was not posted, and no later call has asked the peer for
that number, then the peer's mark is below the number, so that it will be asked for again; or a
later call handled a status of the peer when the ledger had reached the number. -/
theorem dropped_request_reopened {start : Node σ} {traffic : Traffic σ}
    (leads : Steps (idle start) traffic) {position : Nat} {call : Call σ} {dropped : List Nat}
    (isCall : traffic.calls[position]? = some call)
    (isOver : traffic.stage position = .reopened dropped) {peer : PeerId} {number : UInt64}
    (lost : (peer, number) ∈ Node.requestsAt call.batch dropped)
    (latest : ∀ later ∈ traffic.calls.drop (position + 1), ¬later.Asks peer number) :
    (∃ later ∈ traffic.calls.drop (position + 1), later.Passes peer number) ∨
      ∀ mark, traffic.node.participant.peers.requestedThrough? peer = some mark →
        mark < number := by
  rcases reopens_of_steps leads position call dropped peer number isCall isOver lost latest with
    passes | below
  · exact .inl passes
  · right
    intro mark isMark
    rw [isMark] at below
    exact UInt64.lt_iff_toNat_lt.mpr below

/-- A peer from which a node hears twice before its first answer is posted. -/
def lostPeer : PeerId := ⟨.replicate 32 7⟩

def lostStart : Node RootEngine where
  settings := {}
  participant := { ledger := .empty (.seeded .zero) 3 }
  outbox := { capacity := 6 }
  metrics := none

def lostStatus (best : UInt64) : Inbound :=
  ⟨.status ⟨lostPeer, .mainnet, best⟩, some lostPeer⟩

/-- The first answer asks for the numbers up to five, and the request for number two is lost.  The
second answer asks for six and seven and is over first. -/
theorem lostNumber_reopened : ∃ traffic : Traffic RootEngine, Steps (idle lostStart) traffic ∧
    traffic.stage 0 = .reopened [2] ∧ traffic.stage 1 = .reopened [] ∧
    traffic.node.participant.peers.requestedThrough? lostPeer = some 1 ∧
    ((∃ later ∈ traffic.calls.drop 1, later.Passes lostPeer 2) ∨
      ∀ mark, traffic.node.participant.peers.requestedThrough? lostPeer = some mark → mark < 2) := by
  let first : Call RootEngine := ⟨lostStart, lostStatus 5, .epoch⟩
  let afterFirst := (lostStart.react (lostStatus 5) .epoch).node
  let second : Call RootEngine := ⟨afterFirst, lostStatus 7, .epoch⟩
  have heard : Steps (idle lostStart)
      { node := (afterFirst.react (lostStatus 7) .epoch).node
        calls := [first, second]
        stage := Function.update (Function.update (fun _ => .reacted) 0 .reacted) 1 .reacted } :=
    .tail (.single (.react _ (lostStatus 5) .epoch)) (.react _ (lostStatus 7) .epoch)
  have secondOver := (heard.tail (@Step.post _ _ _ 1 second rfl rfl lostStart.outbox [])).tail
    (@Step.reopen _ _ _ 1 second [] rfl rfl)
  have bothOver := (secondOver.tail (@Step.post _ _ _ 0 first rfl rfl lostStart.outbox [2])).tail
    (@Step.reopen _ _ _ 0 first [2] rfl rfl)
  have lost : (lostPeer, 2) ∈ Node.requestsAt first.batch [2] := by decide +kernel
  have latest : ∀ later ∈ [second], ¬later.Asks lostPeer 2 := by
    have unasked : ∀ outbound ∈ second.batch, outbound.numberRequest? ≠ some (lostPeer, 2) := by
      decide +kernel
    rintro later mem ⟨outbound, listed, asks⟩
    rw [List.mem_singleton] at mem
    subst mem
    exact unasked outbound listed asks
  exact ⟨_, bothOver, rfl, rfl, by decide +kernel,
    @dropped_request_reopened _ _ _ _ bothOver 0 first [2] rfl rfl _ _ lost latest⟩

end Traffic

end HeaviestChain
