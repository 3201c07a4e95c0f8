import HeaviestChain.Participant
import HeaviestChain.Proofs.Ledger.Custody
import Mathlib.Data.Fintype.Basic
import Mathlib.Data.Multiset.Bind
import Mathlib.Logic.Embedding.Basic

/-!
# Networks of participants

Participants that talk to each other.  What one of them sends travels as letters, one for each
receiver, and any letter in flight may be the next to be delivered (`Delivers`).  Participants know
each other by name; a message for everyone goes to everyone but its sender.

A participant is reachable if it comes from an empty one by messages and upkeep.  Its ledger then
comes from an empty one by a run of commands, so that all that lasts over runs holds of it.
-/

namespace HeaviestChain

/-! ## Reachable participants -/

namespace Participant

open Ledger (Command)

variable {σ : Type} [StateEngine σ]

/-- The participants that messages and upkeep lead to from an empty one, while the state engine may
become any allowed one. -/
inductive Reachable (allowed : σ → Prop) : Participant σ → Prop
  | fresh {engine : σ} (isAllowed : allowed engine) (capacity : Nat) (network : NetworkId)
      (syncLimit : SyncLimit) :
      Reachable allowed { ledger := .empty engine capacity, network, syncLimit }
  | received {participant : Participant σ} (reachable : Reachable allowed participant)
      (message : Message) (sender : Option PeerId) (now : Timestamp) :
      Reachable allowed (participant.receive message sender now).participant
  | altered {participant : Participant σ} (reachable : Reachable allowed participant) {engine : σ}
      (isAllowed : allowed engine) :
      Reachable allowed { participant with ledger := { participant.ledger with engine } }
  | expired {participant : Participant σ} (reachable : Reachable allowed participant)
      (maxAge : UInt64) (now : Timestamp) :
      Reachable allowed (participant.expireOrphans maxAge now).1
  | forgot {participant : Participant σ} (reachable : Reachable allowed participant)
      (peer : PeerId) : Reachable allowed (participant.forgetPeer peer).1
  | reopened {participant : Participant σ} (reachable : Reachable allowed participant)
      (peer : PeerId) (firstUnsent : UInt64) :
      Reachable allowed (participant.reopenRequests peer firstUnsent)

omit [StateEngine σ] in
theorem receiveStatus_frame (participant : Participant σ) (status : Status)
    (sender : Option PeerId) (now : Timestamp) :
    (participant.receiveStatus status sender now).1.ledger = participant.ledger ∧
      (participant.receiveStatus status sender now).1.network = participant.network ∧
      (participant.receiveStatus status sender now).1.syncLimit = participant.syncLimit := by
  simp only [receiveStatus]
  split
  case h_1 => exact ⟨rfl, rfl, rfl⟩
  case h_2 =>
      split
      case isTrue => exact ⟨rfl, rfl, rfl⟩
      case isFalse =>
          split
          case h_1 => exact ⟨rfl, rfl, rfl⟩
          case h_2 =>
              split
              case isTrue => exact ⟨rfl, rfl, rfl⟩
              case isFalse => exact ⟨rfl, rfl, rfl⟩

/-- A message does to the ledger what a run of commands does. -/
theorem exists_run_receive (participant : Participant σ) (message : Message)
    (sender : Option PeerId) (now : Timestamp) :
    ∃ commands : List (Command σ), (∀ engine, Command.alter engine ∉ commands) ∧
      (participant.receive message sender now).participant.ledger =
        participant.ledger.run commands := by
  cases message with
  | block block => exact ⟨[.deliver block now], by simp, rfl⟩
  | transaction tx => exact ⟨[.submit tx], by simp, rfl⟩
  | status status => exact ⟨[], by simp, (participant.receiveStatus_frame status sender now).1⟩
  | blockByHash _ => exact ⟨[], by simp, rfl⟩
  | blockByNumber _ => exact ⟨[], by simp, rfl⟩

/-! ## What a status leads to -/

omit [StateEngine σ] in
theorem numbers_eq (first last : UInt64) :
    numbers first last =
      (List.range' first.toNat (last.toNat + 1 - first.toNat)).map UInt64.ofNat := by
  simp only [numbers]
  split
  case isTrue ordered =>
      rw [UInt64.le_iff_toNat_le] at ordered
      have length : last.toNat - first.toNat + 1 = last.toNat + 1 - first.toNat := by omega
      rw [length, List.range'_eq_map_range, List.map_map]
      apply List.map_congr_left
      intro offset _
      simp
  case isFalse reversed =>
      rw [UInt64.le_iff_toNat_le] at reversed
      have none : last.toNat + 1 - first.toNat = 0 := by omega
      simp [none]

omit [StateEngine σ] in
theorem length_numbers_le (first last : UInt64) :
    (numbers first last).length ≤ last.toNat + 1 := by
  rw [numbers_eq, List.length_map, List.length_range']
  exact Nat.sub_le _ _

omit [StateEngine σ] in
theorem mem_numbers {first last number : UInt64} :
    number ∈ numbers first last ↔ first ≤ number ∧ number ≤ last := by
  have bound := last.toNat_lt
  simp only [numbers_eq, List.mem_map, List.mem_range'_1, UInt64.le_iff_toNat_le]
  constructor
  · rintro ⟨value, within, rfl⟩
    rw [UInt64.toNat_ofNat_of_lt' (by rw [UInt64.size]; omega)]
    omega
  · intro within
    exact ⟨number.toNat, by omega, UInt64.ofNat_toNat⟩

omit [StateEngine σ] in
/-- A status leads to requests for numbers. -/
theorem sent_receiveStatus (participant : Participant σ) (status : Status) (peer : PeerId)
    (now : Timestamp) :
    (participant.receiveStatus status (some peer) now).2 = [] ∨
      ∃ first last, (participant.receiveStatus status (some peer) now).2 =
        (numbers first last).map fun number => ⟨.peer peer, .blockByNumber number⟩ := by
  simp only [receiveStatus]
  split
  case isTrue => exact .inl rfl
  case isFalse =>
      split
      case h_1 => exact .inl rfl
      case h_2 =>
          split
          case isTrue => exact .inl rfl
          case isFalse => exact .inr ⟨_, _, rfl⟩

omit [StateEngine σ] in
theorem messages_fanOut (sender : Option PeerId) (messages : List Message) :
    (fanOut sender messages).map (·.message) = messages := by
  cases messages with
  | nil => rfl
  | cons first others => simp [fanOut, Function.comp_def]

/-! ## What a block leads to -/

section Block

variable {participant : Participant σ} {block : Block} {peer : PeerId} {now : Timestamp}

theorem sent_receiveBlock_of_fault {fault : StateFault}
    (outcome : (participant.ledger.deliver block now).outcome = .error fault) :
    (participant.receiveBlock block (some peer) now).sent = [] := by
  simp only [receiveBlock, outcome]

theorem sent_receiveBlock_of_none
    (outcome : (participant.ledger.deliver block now).outcome = .ok []) :
    (participant.receiveBlock block (some peer) now).sent =
      askForAncestor (participant.ledger.deliver block now).ledger block.hash peer := by
  simp only [receiveBlock, outcome]

theorem sent_receiveBlock_of_some {first : Block} {others : List Block}
    (outcome : (participant.ledger.deliver block now).outcome = .ok (first :: others)) :
    (participant.receiveBlock block (some peer) now).sent =
      fanOut (some peer) ((first :: others).map .block) := by
  simp only [receiveBlock, outcome]

omit [StateEngine σ] in
/-- A request for an ancestor asks for the start of the block's line, if that is elsewhere. -/
theorem askForAncestor_eq {ledger : Ledger σ} {hash : BlockHash} :
    askForAncestor ledger hash peer =
      if hash = .zero ∨ OrphanBuffer.lineStart ledger.orphans.parents hash = hash then []
      else [⟨.peer peer, .blockByHash (OrphanBuffer.lineStart ledger.orphans.parents hash)⟩] := by
  simp only [askForAncestor, OrphanBuffer.missingAncestor?]
  by_cases null : hash = .zero
  · simp only [null, if_true, true_or]
  · simp only [null, if_false, false_or]

end Block

/-- Whatever is sent in answer to a message goes to its sender or to everyone. -/
theorem recipient_of_sent {participant : Participant σ} {message : Message} {peer : PeerId}
    {now : Timestamp} {outbound : Outbound}
    (sent : outbound ∈ (participant.receive message (some peer) now).sent) :
    outbound.recipient = .peer peer ∨ outbound.recipient = .everyone := by
  have fanned : ∀ messages, ∀ outbound ∈ fanOut (some peer) messages,
      outbound.recipient = .peer peer ∨ outbound.recipient = .everyone := by
    intro messages outbound mem
    cases messages with
    | nil => cases mem
    | cons first others =>
        simp only [fanOut, List.mem_cons, List.mem_map] at mem
        rcases mem with rfl | ⟨_, _, rfl⟩
        · exact .inl rfl
        · exact .inr rfl
  have replied : ∀ found, ∀ outbound ∈ reply found (some peer),
      outbound.recipient = .peer peer := by
    intro found outbound mem
    cases found with
    | none => cases mem
    | some block =>
        simp only [reply, List.mem_singleton] at mem
        rw [mem]
  cases message with
  | block block =>
      simp only [receive] at sent
      cases outcome : (participant.ledger.deliver block now).outcome with
      | error fault =>
          rw [sent_receiveBlock_of_fault outcome] at sent
          cases sent
      | ok connected =>
          cases connected with
          | nil =>
              rw [sent_receiveBlock_of_none outcome, askForAncestor_eq] at sent
              split at sent
              case isTrue => cases sent
              case isFalse =>
                  rw [List.mem_singleton] at sent
                  rw [sent]
                  exact .inl rfl
          | cons first others =>
              rw [sent_receiveBlock_of_some outcome] at sent
              exact fanned _ outbound sent
  | transaction tx =>
      simp only [receive] at sent
      split at sent
      case isTrue => exact fanned _ outbound sent
      case isFalse => cases sent
  | status status =>
      simp only [receive] at sent
      rcases participant.sent_receiveStatus status peer now with nothing | ⟨first, last, requests⟩
      · rw [nothing] at sent
        cases sent
      · rw [requests, List.mem_map] at sent
        rcases sent with ⟨number, _, rfl⟩
        exact .inl rfl
  | blockByHash hash => exact .inl (replied _ outbound sent)
  | blockByNumber number => exact .inl (replied _ outbound sent)

theorem Reachable.exists_run {allowed : σ → Prop} {participant : Participant σ}
    (reachable : Reachable allowed participant) :
    ∃ engine capacity, ∃ commands : List (Command σ), allowed engine ∧
      (∀ other, Command.alter other ∈ commands → allowed other) ∧
      participant.ledger = (Ledger.empty engine capacity).run commands := by
  induction reachable with
  | fresh isAllowed capacity network syncLimit => exact ⟨_, capacity, [], isAllowed, by simp, rfl⟩
  | @received participant _ message sender now ih =>
      rcases ih with ⟨engine, capacity, commands, isAllowed, alters, isRun⟩
      rcases participant.exists_run_receive message sender now with ⟨more, none, isMore⟩
      refine ⟨engine, capacity, commands ++ more, isAllowed, ?_, ?_⟩
      · intro other mem
        simp only [List.mem_append, none, or_false] at mem
        exact alters other mem
      · simp only [isMore, isRun, Ledger.run, List.foldl_append]
  | @altered participant _ other otherAllowed ih =>
      rcases ih with ⟨engine, capacity, commands, isAllowed, alters, isRun⟩
      refine ⟨engine, capacity, commands ++ [.alter other], isAllowed, ?_, ?_⟩
      · intro another mem
        simp only [List.mem_append, List.mem_singleton, Command.alter.injEq] at mem
        rcases mem with old | rfl
        · exact alters another old
        · exact otherAllowed
      · simp only [isRun, Ledger.run, List.foldl_append]
        rfl
  | @expired participant _ maxAge now ih =>
      rcases ih with ⟨engine, capacity, commands, isAllowed, alters, isRun⟩
      refine ⟨engine, capacity, commands ++ [.expire maxAge now], isAllowed, ?_, ?_⟩
      · simpa using alters
      · simp only [expireOrphans, isRun, Ledger.run, List.foldl_append]
        rfl
  | forgot _ _ ih => exact ih
  | reopened _ _ _ ih => exact ih

theorem Reachable.exists_onward {allowed : σ → Prop} {participant : Participant σ}
    (reachable : Reachable allowed participant) :
    ∃ engine capacity, Ledger.Onward (Ledger.empty engine capacity, []) (participant.ledger, []) := by
  rcases reachable.exists_run with ⟨engine, capacity, commands, _, _, isRun⟩
  rw [isRun]
  exact ⟨engine, capacity, Ledger.onward_run _ _⟩

section Reachable

variable {allowed : σ → Prop} {participant : Participant σ}
  (reachable : participant.Reachable allowed)

include reachable

theorem Reachable.custody : Ledger.Custody participant.ledger [] := by
  rcases reachable.exists_onward with ⟨engine, capacity, onward⟩
  exact Ledger.custody_onward onward (Ledger.custody_empty engine capacity)

theorem Reachable.headed : participant.ledger.tree.Headed := by
  rcases reachable.exists_onward with ⟨engine, capacity, onward⟩
  exact Ledger.headed_onward onward BlockTree.headed_empty

theorem Reachable.grown : BlockTree.Grown Ledger.Admitted participant.ledger.tree.stored := by
  rcases reachable.exists_onward with ⟨engine, capacity, onward⟩
  exact (Ledger.sound_onward onward BlockTree.sound_empty).grown

end Reachable

end Participant

/-! ## Letters -/

/-- A message on its way between two participants. -/
structure Letter (ι : Type) where
  sender : ι
  receiver : ι
  message : Message

/-- Participants and the letters in flight between them. -/
structure Network (ι σ : Type) where
  node : ι → Participant σ
  inFlight : Multiset (Letter ι)

variable {ι σ : Type} [Fintype ι] [DecidableEq ι] (name : ι ↪ PeerId)

/-- The participants that a message is for. -/
def Recipient.nodes (sender : ι) : Recipient → Finset ι
  | .peer addressee => Finset.univ.filter fun receiver => name receiver = addressee
  | .everyone => Finset.univ.erase sender

/-- What goes out when a participant sends a message. -/
def Outbound.letters (sender : ι) (outbound : Outbound) : Multiset (Letter ι) :=
  (outbound.recipient.nodes name sender).val.map fun receiver =>
    ⟨sender, receiver, outbound.message⟩

theorem Recipient.nodes_peer (sender receiver : ι) :
    (Recipient.peer (name receiver)).nodes name sender = {receiver} := by
  ext other
  simp [nodes]

theorem Outbound.mem_letters {sender : ι} {outbound : Outbound} {letter : Letter ι} :
    letter ∈ outbound.letters name sender ↔
      ∃ receiver ∈ outbound.recipient.nodes name sender,
        letter = ⟨sender, receiver, outbound.message⟩ := by
  simp only [letters, Multiset.mem_map, Finset.mem_val, eq_comm]

namespace Network

variable [StateEngine σ]

/-- The network after a letter has been delivered, when `rest` are the others in flight. -/
def deliver (network : Network ι σ) (letter : Letter ι) (rest : Multiset (Letter ι))
    (now : Timestamp) : Network ι σ :=
  let reaction :=
    (network.node letter.receiver).receive letter.message (some (name letter.sender)) now
  { node := Function.update network.node letter.receiver reaction.participant
    inFlight := rest + Multiset.bind reaction.sent (Outbound.letters name letter.receiver) }

/-- Some letter in flight is delivered, at some time. -/
inductive Delivers (network : Network ι σ) : Network ι σ → Prop
  | deliver {letter : Letter ι} {rest : Multiset (Letter ι)}
      (taken : network.inFlight = letter ::ₘ rest) (now : Timestamp) :
      Delivers network (network.deliver name letter rest now)

/-- While a letter is in flight, it can be delivered. -/
theorem exists_delivers_of_ne_zero {network : Network ι σ} (busy : network.inFlight ≠ 0) :
    ∃ next, network.Delivers name next := by
  rcases Multiset.exists_mem_of_ne_zero busy with ⟨letter, mem⟩
  rcases Multiset.exists_cons_of_mem mem with ⟨rest, taken⟩
  exact ⟨_, .deliver taken .epoch⟩

theorem mem_inFlight_deliver {network : Network ι σ} {letter other : Letter ι}
    {rest : Multiset (Letter ι)} {now : Timestamp} :
    other ∈ (network.deliver name letter rest now).inFlight ↔
      other ∈ rest ∨ ∃ outbound ∈ ((network.node letter.receiver).receive letter.message
        (some (name letter.sender)) now).sent, other ∈ outbound.letters name letter.receiver := by
  simp only [deliver, Multiset.mem_add, Multiset.mem_bind, Multiset.mem_coe]

end Network

/-! ## Runs that come to an end -/

section Measure

variable {α : Type} {step : α → α → Prop} {holds : α → Prop} {measure : α → Nat}
  (lowers : ∀ first next, holds first → step first next →
    holds next ∧ measure next < measure first)

include lowers

/-- If every step lowers a measure, no run is longer than the measure at its start. -/
theorem length_le_of_lowers {first : α} (start : holds first) {run : List α}
    (isRun : (first :: run).IsChain step) : run.length ≤ measure first := by
  induction run generalizing first with
  | nil => exact Nat.zero_le _
  | cons next rest ih =>
      rw [List.isChain_cons_cons] at isRun
      rcases lowers first next start isRun.1 with ⟨holdsNext, lower⟩
      have few := ih holdsNext isRun.2
      simp only [List.length_cons]
      omega

theorem not_exists_path_of_lowers {first : α} (start : holds first) :
    ¬∃ path : Nat → α, path 0 = first ∧ ∀ time, step (path time) (path (time + 1)) := by
  rintro ⟨path, rfl, steps⟩
  have bound : ∀ time, holds (path time) ∧ measure (path time) + time ≤ measure (path 0) := by
    intro time
    induction time with
    | zero => exact ⟨start, Nat.le_refl _⟩
    | succ time ih =>
        rcases lowers _ _ ih.1 (steps time) with ⟨holdsNext, lower⟩
        refine ⟨holdsNext, ?_⟩
        have earlier := ih.2
        omega
  have late := (bound (measure (path 0) + 1)).2
  omega

theorem holds_of_lowers {first last : α} (start : holds first)
    (leads : Relation.ReflTransGen step first last) : holds last := by
  induction leads with
  | refl => exact start
  | tail _ next ih => exact (lowers _ _ ih next).1

/-- From everywhere some run comes to its end. -/
theorem exists_last_of_lowers {first : α} (start : holds first) :
    ∃ last, Relation.ReflTransGen step first last ∧ ∀ next, ¬step last next := by
  induction height : measure first using Nat.strong_induction_on generalizing first with
  | _ _ lower =>
      by_cases stuck : ∀ next, ¬step first next
      · exact ⟨first, .refl, stuck⟩
      · simp only [not_forall, not_not] at stuck
        rcases stuck with ⟨next, isNext⟩
        rcases lowers first next start isNext with ⟨holdsNext, below⟩
        rcases lower _ (height ▸ below) holdsNext rfl with ⟨last, leads, isLast⟩
        exact ⟨last, .head isNext leads, isLast⟩

end Measure

end HeaviestChain
