import HeaviestChain.Exchange
import HeaviestChain.Proofs.Gossip.Fetching
import HeaviestChain.Proofs.Ledger.OrderIndependence
import Mathlib.Algebra.Order.BigOperators.Group.List
import Mathlib.Algebra.Order.Group.Nat

/-!
# Catching up

One status is enough for a participant that is behind to receive the whole chain of the other one, in
whatever order letters are delivered.

It asks for the numbers above its own head.  On another branch these do not connect, and each one
that has to wait makes it ask for the block below the line of waiting blocks.  At every moment, a
block that is still wanted has been delivered, or is on its way, or has been asked for
(`CatchingUp`).  So when no letter is in flight, all that is wanted has been delivered, and that is
enough (`Fetching.caughtUp`).

There is such an end: a request leads to the block, a block to a request further down the chain, and
what is passed on when blocks are connected is not answered.
-/

namespace HeaviestChain

open Relation (ReflTransGen)
open StateEngine (Answers)

/-! ## Two participants -/

instance : Fintype Side where
  elems := {.left, .right}
  complete := by
    intro side
    cases side with
    | left => decide
    | right => decide

/-- Messages on their way from one side to the other. -/
def Side.mail (side : Side) (messages : List Message) : Multiset (Letter Side) :=
  messages.map fun message => (⟨side, side.other, message⟩ : Letter Side)

section Sides

variable (name : Side ↪ PeerId)

theorem Outbound.letters_side {side : Side} {outbound : Outbound}
    (addressed : outbound.recipient = .peer (name side.other) ∨ outbound.recipient = .everyone) :
    outbound.letters name side = {⟨side, side.other, outbound.message⟩} := by
  have nodes : outbound.recipient.nodes name side = {side.other} := by
    rcases addressed with isPeer | isEveryone
    · rw [isPeer, Recipient.nodes_peer]
    · rw [isEveryone]
      cases side with
      | left => rfl
      | right => rfl
  simp only [letters, nodes, Finset.singleton_val, Multiset.map_singleton]

theorem Side.bind_letters {side : Side} {sent : List Outbound}
    (addressed : ∀ outbound ∈ sent,
      outbound.recipient = .peer (name side.other) ∨ outbound.recipient = .everyone) :
    Multiset.bind sent (Outbound.letters name side) = side.mail (sent.map (·.message)) := by
  induction sent with
  | nil => rfl
  | cons outbound others ih =>
      rw [List.forall_mem_cons] at addressed
      rw [← Multiset.cons_coe, Multiset.cons_bind, Outbound.letters_side name addressed.1,
        ih addressed.2]
      rfl

variable {σ : Type} [StateEngine σ]

theorem Network.inFlight_deliver_side (network : Network Side σ) (side : Side) (message : Message)
    (rest : Multiset (Letter Side)) (now : Timestamp) :
    (network.deliver name ⟨side.other, side, message⟩ rest now).inFlight =
      rest + side.mail
        (((network.node side).receive message (some (name side.other)) now).sent.map (·.message)) := by
  have addressed : ∀ outbound ∈
      ((network.node side).receive message (some (name side.other)) now).sent,
      outbound.recipient = .peer (name side.other) ∨ outbound.recipient = .everyone :=
    fun _ => Participant.recipient_of_sent
  simp only [deliver, Side.bind_letters name addressed]

end Sides

theorem Side.mem_mail {side : Side} {messages : List Message} {letter : Letter Side} :
    letter ∈ side.mail messages ↔ ∃ message ∈ messages, letter = ⟨side, side.other, message⟩ := by
  simp only [mail, Multiset.mem_coe, List.mem_map, eq_comm]

/-! ## What is under way -/

/-- Letters that bring the block at a height of the chain to the one behind, or ask for it. -/
inductive Brings (chain : Nat → Block) (height : Nat) : Letter Side → Prop
  | block : Brings chain height ⟨.left, .right, .block (chain height)⟩
  | byHash : Brings chain height ⟨.right, .left, .blockByHash (chain height).hash⟩
  | byNumber : Brings chain height ⟨.right, .left, .blockByNumber (.ofNat height)⟩

variable {σ : Type} [StateEngine σ]

/-- The one ahead, on the left, stays as it is.  What is wanted by the one behind has been delivered
or is coming, and no letters are in flight but those that bring blocks of the chain or pass them
on. -/
structure CatchingUp (ahead behind : Participant σ) (chain : Nat → Block) (top : UInt64)
    (delivered : List Block) (network : Network Side σ) : Prop where
  still : (network.node .left).ledger = ahead.ledger
  fetching : Fetching behind chain top delivered (network.node .right).ledger
  coming : ∀ height, Wanted chain top (network.node .right).ledger height →
    chain height ∈ delivered ∨ ∃ letter ∈ network.inFlight, Brings chain height letter
  letters : ∀ letter ∈ network.inFlight, ∃ height ≤ top.toNat,
    Brings chain height letter ∨ letter = ⟨.right, .left, .block (chain height)⟩

/-- What a letter can still lead to. -/
def catchUpWeight (ahead : Participant σ) : Letter Side → Nat
  | ⟨.left, _, .block block⟩ => 2 * ahead.heightOf block.hash + 2
  | ⟨.right, _, .block _⟩ => 1
  | ⟨_, _, .blockByHash hash⟩ => 2 * ahead.heightOf hash + 3
  | ⟨_, _, .blockByNumber number⟩ => 2 * number.toNat + 3
  | ⟨_, _, .status status⟩ => (status.best.toNat + 1) * (2 * status.best.toNat + 3) + 1
  | ⟨_, _, .transaction _⟩ => 0

/-- What can still happen: each block that is connected leads to a letter. -/
def catchUpTotal (ahead behind : Participant σ) (chain : Nat → Block) (top : UInt64)
    (network : Network Side σ) : Nat :=
  2 * ((behind.storedAnd (chainBlocks chain top)).card - (network.node .right).ledger.tree.count) +
    (network.inFlight.map (catchUpWeight ahead)).sum

section Deliver

variable {answer : Root → ExecutionContext → List Transaction → Root} {name : Side ↪ PeerId}
  {ahead behind : Participant σ} {chain : Nat → Block} {top : UInt64}
  (lagging : Lagging answer (name .left) ahead behind chain top)

include lagging

/-- A letter brings one block. -/
theorem Brings.unique {height other : Nat} {letter : Letter Side} (brings : Brings chain height letter)
    (brings' : Brings chain other letter) (within : height ≤ top.toNat)
    (otherWithin : other ≤ top.toNat) : other = height := by
  generalize isLetter : letter = letter' at brings'
  cases brings with
  | block =>
      cases brings' with
      | block =>
          apply lagging.height_eq_of_hash otherWithin within
          simp only [Letter.mk.injEq, Message.block.injEq] at isLetter
          rw [isLetter.2.2]
      | byHash => cases isLetter
      | byNumber => cases isLetter
  | byHash =>
      cases brings' with
      | block => cases isLetter
      | byHash =>
          apply lagging.height_eq_of_hash otherWithin within
          simp only [Letter.mk.injEq, Message.blockByHash.injEq] at isLetter
          exact isLetter.2.2.symm
      | byNumber => cases isLetter
  | byNumber =>
      cases brings' with
      | block => cases isLetter
      | byHash => cases isLetter
      | byNumber =>
          simp only [Letter.mk.injEq, Message.blockByNumber.injEq, true_and] at isLetter
          have numbers := congrArg UInt64.toNat isLetter
          rw [Word64.toNat_ofNat_of_le within, Word64.toNat_ofNat_of_le otherWithin] at numbers
          exact numbers.symm

namespace CatchingUp

variable {delivered : List Block} {network : Network Side σ}
  (catching : CatchingUp ahead behind chain top delivered network)

include catching

/-- The one ahead answers a request with the block. -/
theorem reply {height : Nat} (within : height ≤ top.toNat) {message : Message}
    (brings : Brings chain height ⟨.right, .left, message⟩) {rest : Multiset (Letter Side)}
    (taken : network.inFlight = ⟨.right, .left, message⟩ ::ₘ rest) (now : Timestamp) :
    CatchingUp ahead behind chain top delivered
        (network.deliver name ⟨.right, .left, message⟩ rest now) ∧
      catchUpTotal ahead behind chain top (network.deliver name ⟨.right, .left, message⟩ rest now) <
        catchUpTotal ahead behind chain top network := by
  have answered : (network.node .left).receive message (some (name .right)) now =
      { sent := [⟨.peer (name .right), .block (chain height)⟩]
        events := []
        participant := network.node .left } := by
    cases brings with
    | byHash =>
        simp only [Participant.receive, catching.still, lagging.block?_ahead within,
          Participant.reply]
    | byNumber =>
        simp only [Participant.receive, catching.still, lagging.blockAt?_ahead within,
          Participant.reply]
  have sameNodes : (network.deliver name ⟨.right, .left, message⟩ rest now).node = network.node := by
    simp only [Network.deliver, answered, Function.update_eq_self]
  have letters : (network.deliver name ⟨.right, .left, message⟩ rest now).inFlight =
      rest + {⟨.left, .right, .block (chain height)⟩} := by
    have side := network.inFlight_deliver_side name .left message rest now
    simp only [Side.other, answered] at side
    exact side
  constructor
  · constructor
    · rw [sameNodes]
      exact catching.still
    · rw [sameNodes]
      exact catching.fetching
    · intro other wanted
      rw [sameNodes] at wanted
      rw [letters]
      rcases catching.coming other wanted with arrived | ⟨letter, mem, bringsOther⟩
      · exact .inl arrived
      · right
        rw [taken, Multiset.mem_cons] at mem
        rcases mem with rfl | later
        · rw [brings.unique lagging bringsOther within wanted.le]
          exact ⟨_, Multiset.mem_add.mpr (.inr (Multiset.mem_singleton_self _)), .block⟩
        · exact ⟨letter, Multiset.mem_add.mpr (.inl later), bringsOther⟩
    · intro letter mem
      rw [letters, Multiset.mem_add, Multiset.mem_singleton] at mem
      rcases mem with later | rfl
      · exact catching.letters letter (by simp [taken, later])
      · exact ⟨height, within, .inl .block⟩
  · have request : catchUpWeight ahead ⟨.right, .left, message⟩ = 2 * height + 3 := by
      cases brings with
      | byHash => simp only [catchUpWeight, lagging.heightOf_chain within]
      | byNumber =>
          simp only [catchUpWeight, Word64.toNat_ofNat_of_le within]
    have answer : catchUpWeight ahead ⟨.left, .right, .block (chain height)⟩ = 2 * height + 2 := by
      simp only [catchUpWeight, lagging.heightOf_chain within]
    simp only [catchUpTotal, sameNodes, letters, taken, Multiset.map_add, Multiset.sum_add,
      Multiset.map_cons, Multiset.sum_cons, Multiset.map_singleton, Multiset.sum_singleton, request,
      answer]
    omega

/-- The one ahead does not answer a block that is passed on to it. -/
theorem acknowledge {height : Nat} (within : height ≤ top.toNat) {rest : Multiset (Letter Side)}
    (taken : network.inFlight = ⟨.right, .left, .block (chain height)⟩ ::ₘ rest) (now : Timestamp) :
    CatchingUp ahead behind chain top delivered
        (network.deliver name ⟨.right, .left, .block (chain height)⟩ rest now) ∧
      catchUpTotal ahead behind chain top
          (network.deliver name ⟨.right, .left, .block (chain height)⟩ rest now) <
        catchUpTotal ahead behind chain top network := by
  rcases lagging.silent_ahead catching.still within (name .right) now with ⟨nothing, unchanged⟩
  have sameRight : (network.deliver name ⟨.right, .left, .block (chain height)⟩ rest now).node .right =
      network.node .right := rfl
  have letters : (network.deliver name ⟨.right, .left, .block (chain height)⟩ rest now).inFlight =
      rest := by
    have side := network.inFlight_deliver_side name .left (.block (chain height)) rest now
    simp only [Side.other, Participant.receive, nothing] at side
    rw [side]
    exact Multiset.add_zero rest
  constructor
  · constructor
    · exact unchanged
    · exact catching.fetching
    · intro other wanted
      rw [letters]
      rcases catching.coming other wanted with arrived | ⟨letter, mem, brings⟩
      · exact .inl arrived
      · right
        rw [taken, Multiset.mem_cons] at mem
        rcases mem with rfl | later
        · cases brings
        · exact ⟨letter, later, brings⟩
    · intro letter mem
      rw [letters] at mem
      exact catching.letters letter (by simp [taken, mem])
  · simp only [catchUpTotal, sameRight, letters, taken, Multiset.map_cons, Multiset.sum_cons,
      catchUpWeight]
    omega

/-- The one behind takes the block in; what is wanted now and was not before is asked for. -/
theorem arrive {height : Nat} (within : height ≤ top.toNat) {rest : Multiset (Letter Side)}
    (taken : network.inFlight = ⟨.left, .right, .block (chain height)⟩ ::ₘ rest) (now : Timestamp) :
    CatchingUp ahead behind chain top (chain height :: delivered)
        (network.deliver name ⟨.left, .right, .block (chain height)⟩ rest now) ∧
      catchUpTotal ahead behind chain top
          (network.deliver name ⟨.left, .right, .block (chain height)⟩ rest now) <
        catchUpTotal ahead behind chain top network := by
  have after := (catching.fetching.deliver lagging within now).1
  have response := catching.fetching.response lagging rfl within now
  have wanted : ∀ other,
      Wanted chain top ((network.node .right).ledger.deliver (chain height) now).ledger other →
        Wanted chain top (network.node .right).ledger other ∨ chain other ∈ chain height :: delivered ∨
          (⟨.peer (name .left), .blockByHash (chain other).hash⟩ : Outbound) ∈
            ((network.node .right).receiveBlock (chain height) (some (name .left)) now).sent :=
    fun _ => catching.fetching.wanted_deliver lagging rfl within now
  have isRight : ((network.deliver name ⟨.left, .right, .block (chain height)⟩ rest now).node
      .right).ledger = ((network.node .right).ledger.deliver (chain height) now).ledger := rfl
  have letters := network.inFlight_deliver_side name .right (.block (chain height)) rest now
  simp only [Side.other, Participant.receive] at letters
  generalize ((network.node .right).receiveBlock (chain height) (some (name .left)) now).sent = sent
    at response wanted letters
  constructor
  · constructor
    · exact catching.still
    · rw [isRight]
      exact after
    · intro other isWanted
      rw [isRight] at isWanted
      rw [letters]
      rcases wanted other isWanted with before | arrived | asked
      · rcases catching.coming other before with arrived | ⟨letter, mem, brings⟩
        · exact .inl (List.mem_cons_of_mem _ arrived)
        · rw [taken, Multiset.mem_cons] at mem
          rcases mem with rfl | later
          · left
            rw [Brings.block.unique lagging brings within before.le]
            exact List.mem_cons_self ..
          · exact .inr ⟨letter, Multiset.mem_add.mpr (.inl later), brings⟩
      · exact .inl arrived
      · right
        refine ⟨_, Multiset.mem_add.mpr (.inr (Side.mem_mail.mpr ⟨_, ?_, rfl⟩)), .byHash⟩
        exact List.mem_map_of_mem (f := Outbound.message) asked
    · intro letter mem
      rw [letters, Multiset.mem_add, Side.mem_mail] at mem
      rcases mem with later | ⟨message, isSent, rfl⟩
      · exact catching.letters letter (by simp [taken, later])
      · cases response with
        | connects fromChain _ _ =>
            rw [Participant.messages_fanOut, List.mem_map] at isSent
            rcases isSent with ⟨block, mem, rfl⟩
            rcases mem_chainBlocks.mp (fromChain block mem) with ⟨lower, lowerWithin, rfl⟩
            exact ⟨lower, lowerWithin, .inr rfl⟩
        | @asks lower below _ _ _ =>
            rw [List.map_singleton, List.mem_singleton] at isSent
            rw [isSent]
            exact ⟨lower, by omega, .inl .byHash⟩
        | silent _ _ => cases isSent
  · have arrived : catchUpWeight ahead ⟨.left, .right, .block (chain height)⟩ = 2 * height + 2 := by
      simp only [catchUpWeight, lagging.heightOf_chain within]
    have bound := after.gathers.grown.length_le_card after.gathers.comprises.stored
    simp only [catchUpTotal, isRight, letters, taken, Multiset.map_add, Multiset.sum_add,
      Multiset.map_cons, Multiset.sum_cons, arrived]
    cases response with
    | @connects connected fromChain grows _ =>
        have light : ((Side.right.mail (connected.map .block)).map (catchUpWeight ahead)).sum =
            connected.length := by
          simp only [Side.mail, Multiset.map_coe, Multiset.sum_coe, List.map_map, Function.comp_def,
            catchUpWeight, List.map_const', List.sum_replicate_nat, Nat.mul_one]
        rw [Participant.messages_fanOut, light]
        simp only [BlockTree.count] at grows ⊢
        omega
    | @asks lower below same _ _ =>
        have request : catchUpWeight ahead ⟨.right, .left, .blockByHash (chain lower).hash⟩ =
            2 * lower + 3 := by
          simp only [catchUpWeight, lagging.heightOf_chain (Nat.le_trans (Nat.le_of_lt below) within)]
        simp only [same, Side.mail, List.map_singleton, Multiset.coe_singleton,
          Multiset.map_singleton, Multiset.sum_singleton, Side.other, request]
        omega
    | silent same _ =>
        simp only [same, List.map_nil, Side.mail, Multiset.coe_nil, Multiset.map_zero,
          Multiset.sum_zero]
        omega

theorem delivers {next : Network Side σ} (delivers : network.Delivers name next) :
    (∃ delivered', CatchingUp ahead behind chain top delivered' next) ∧
      catchUpTotal ahead behind chain top next < catchUpTotal ahead behind chain top network := by
  cases delivers with
  | @deliver letter rest taken now =>
      rcases catching.letters letter (by simp [taken]) with ⟨height, within, brings | rfl⟩
      · cases brings with
        | block =>
            rcases catching.arrive lagging within taken now with ⟨next, lower⟩
            exact ⟨⟨_, next⟩, lower⟩
        | byHash =>
            rcases catching.reply lagging within .byHash taken now with ⟨next, lower⟩
            exact ⟨⟨_, next⟩, lower⟩
        | byNumber =>
            rcases catching.reply lagging within .byNumber taken now with ⟨next, lower⟩
            exact ⟨⟨_, next⟩, lower⟩
      · rcases catching.acknowledge lagging within taken now with ⟨next, lower⟩
        exact ⟨⟨_, next⟩, lower⟩

theorem caughtUp (idle : network.inFlight = 0) :
    CaughtUp ahead chain top (network.node .right).ledger := by
  apply catching.fetching.caughtUp lagging
  intro height wanted
  rcases catching.coming height wanted with arrived | ⟨letter, mem, _⟩
  · exact arrived
  · rw [idle] at mem
    cases Multiset.notMem_zero _ mem

end CatchingUp

/-! ## From one status -/

omit lagging in
/-- The one ahead has sent its status to the one behind, and no other letter is in flight. -/
def statusSent (ahead behind : Participant σ) (peer : PeerId) (top : UInt64) : Network Side σ where
  node
    | .left => ahead
    | .right => behind
  inFlight := {⟨.left, .right, .status ⟨peer, ahead.network, top⟩⟩}

theorem Lagging.catchingUp_of_status {next : Network Side σ}
    (delivers : (statusSent ahead behind (name .left) top).Delivers name next) :
    CatchingUp ahead behind chain top [] next ∧
      catchUpTotal ahead behind chain top next <
        catchUpTotal ahead behind chain top (statusSent ahead behind (name .left) top) := by
  generalize isStart : statusSent ahead behind (name .left) top = network at delivers
  cases delivers with
  | @deliver letter rest taken now =>
      subst isStart
      rcases (Multiset.singleton_eq_cons_iff rest).mp taken with ⟨rfl, rfl⟩
      rcases lagging.sent_status now with ⟨first, ordered, requests⟩
      have frame := behind.receiveStatus_frame ⟨name .left, ahead.network, top⟩ (some (name .left)) now
      have letters := (statusSent ahead behind (name .left) top).inFlight_deliver_side name .right
        (.status ⟨name .left, ahead.network, top⟩) 0 now
      simp only [Side.other, statusSent, Participant.receive, requests, List.map_map,
        Function.comp_def, Multiset.zero_add] at letters
      have isRight : ((Network.deliver name (statusSent ahead behind (name .left) top)
          ⟨.left, .right, .status ⟨name .left, ahead.network, top⟩⟩ 0 now).node .right).ledger =
            behind.ledger := frame.1
      constructor
      · constructor
        · rfl
        · rw [isRight]
          exact lagging.fetching
        · intro height wanted
          rw [isRight] at wanted
          right
          rcases wanted with rfl | ⟨_, waits⟩
          · refine ⟨_, ?_, .byNumber⟩
            rw [UInt64.ofNat_toNat]
            simp only [statusSent, letters]
            exact Side.mem_mail.mpr
              ⟨_, List.mem_map_of_mem (Participant.mem_numbers.mpr ⟨ordered, UInt64.le_refl _⟩), rfl⟩
          · rw [OrphanBuffer.isEmpty_iff.mp lagging.noOrphans] at waits
            cases waits
        · intro letter mem
          simp only [statusSent, letters] at mem
          rcases Side.mem_mail.mp mem with ⟨_, isSent, rfl⟩
          rcases List.mem_map.mp isSent with ⟨number, listed, rfl⟩
          have within := UInt64.le_iff_toNat_le.mp (Participant.mem_numbers.mp listed).2
          refine ⟨number.toNat, within, .inl ?_⟩
          have brings : Brings chain number.toNat _ := .byNumber
          rw [UInt64.ofNat_toNat] at brings
          exact brings
      · have each : ∀ weight ∈ (Participant.numbers first top).map fun number =>
            catchUpWeight ahead ⟨.right, .left, .blockByNumber number⟩, weight ≤ 2 * top.toNat + 3 := by
          intro weight mem
          rcases List.mem_map.mp mem with ⟨number, listed, rfl⟩
          have within := UInt64.le_iff_toNat_le.mp (Participant.mem_numbers.mp listed).2
          simp only [catchUpWeight]
          omega
        have few := Nat.mul_le_mul_right (2 * top.toNat + 3) (Participant.length_numbers_le first top)
        have total := List.sum_le_card_nsmul _ _ each
        simp only [List.length_map, Nat.nsmul_eq_mul] at total
        simp only [catchUpTotal, isRight]
        simp only [statusSent, letters, Side.mail, Multiset.map_coe, Multiset.sum_coe, List.map_map,
          Function.comp_def, Side.other, Multiset.map_singleton, Multiset.sum_singleton]
        have status : catchUpWeight ahead
            ⟨.left, .right, .status ⟨name .left, ahead.network, top⟩⟩ =
              (top.toNat + 1) * (2 * top.toNat + 3) + 1 := rfl
        rw [status]
        omega

theorem Lagging.delivers_lowers (network next : Network Side σ)
    (holds : network = statusSent ahead behind (name .left) top ∨
      ∃ delivered, CatchingUp ahead behind chain top delivered network)
    (delivers : network.Delivers name next) :
    (next = statusSent ahead behind (name .left) top ∨
        ∃ delivered, CatchingUp ahead behind chain top delivered next) ∧
      catchUpTotal ahead behind chain top next < catchUpTotal ahead behind chain top network := by
  rcases holds with rfl | ⟨delivered, catching⟩
  · rcases lagging.catchingUp_of_status delivers with ⟨catching, lower⟩
    exact ⟨.inr ⟨_, catching⟩, lower⟩
  · rcases catching.delivers lagging delivers with ⟨next, lower⟩
    exact ⟨.inr next, lower⟩

/-- Whatever the order of the deliveries, they come to an end.  Then the ledger of the one ahead is
as it was, and the one behind has its whole chain, no block that waits, and a best chain that is at
least as heavy. -/
theorem Lagging.caughtUp_of_status :
    let start := statusSent ahead behind (name .left) top
    (∃ bound, ∀ run, (start :: run).IsChain (Network.Delivers name) → run.length ≤ bound) ∧
    (∃ later, ReflTransGen (Network.Delivers name) start later ∧ later.inFlight = 0) ∧
    ∀ later, ReflTransGen (Network.Delivers name) start later → later.inFlight = 0 →
      (later.node .left).ledger = ahead.ledger ∧
        CaughtUp ahead chain top (later.node .right).ledger := by
  intro start
  have lowers := lagging.delivers_lowers
  refine ⟨⟨_, fun run => length_le_of_lowers lowers (.inl rfl)⟩, ?_, ?_⟩
  · rcases @exists_last_of_lowers _ _ _ _ lowers start (.inl rfl) with ⟨later, leads, stuck⟩
    refine ⟨later, leads, ?_⟩
    by_contra busy
    rcases Network.exists_delivers_of_ne_zero name busy with ⟨next, delivers⟩
    exact stuck next delivers
  · intro later leads idle
    rcases holds_of_lowers lowers (.inl rfl) leads with rfl | ⟨delivered, catching⟩
    · exact absurd idle (Multiset.singleton_ne_zero _)
    · exact ⟨catching.still, catching.caughtUp lagging idle⟩

end Deliver

/-- The participants of an exchange under their names. -/
def Side.name : Side ↪ PeerId where
  toFun := peer
  inj' := by
    intro first second
    revert first second
    decide

/-- A branch of two blocks, and one of a single block. -/
def forkBase : Block := ({} : GenesisSpec).block

def forkLower : Block := .build 1 forkBase.hash [] [] forkBase.stateRoot .epoch .zero .one

def forkUpper : Block := .build 2 forkLower.hash [] [] forkLower.stateRoot .epoch .zero .one

def forkOther : Block := .build 1 forkBase.hash [] [] forkBase.stateRoot ⟨5⟩ .zero .one

def forkChain : Nat → Block
  | 0 => forkBase
  | 1 => forkLower
  | _ => forkUpper

/-- A participant to which blocks have been submitted. -/
def forkParticipant (blocks : List Block) : Participant Ledger.OpenEngine :=
  blocks.foldl (fun participant block => (participant.receive (.block block) none .epoch).participant)
    { ledger := .empty .mk 3 }

def forkAhead : Participant Ledger.OpenEngine := forkParticipant [forkBase, forkLower, forkUpper]

def forkBehind : Participant Ledger.OpenEngine := forkParticipant [forkBase, forkOther]

theorem reachable_forkParticipant {allowed : Ledger.OpenEngine → Prop} (isAllowed : allowed .mk)
    (blocks : List Block) : (forkParticipant blocks).Reachable allowed := by
  have start : Participant.Reachable allowed { ledger := .empty .mk 3 } :=
    .fresh isAllowed 3 .mainnet .standard
  simp only [forkParticipant]
  generalize ({ ledger := .empty .mk 3 } : Participant Ledger.OpenEngine) = participant at start ⊢
  induction blocks generalizing participant with
  | nil => exact start
  | cons block rest ih => exact ih _ (start.received _ _ _)

theorem mem_of_holds_forkParticipant {blocks : List Block} {block : Block}
    (holds : (forkParticipant blocks).ledger.Holds block) : block ∈ blocks := by
  let commands : List (Ledger.Command Ledger.OpenEngine) :=
    blocks.map fun block => .deliver block .epoch
  have isRun : (forkParticipant blocks).ledger = (Ledger.empty .mk 3).run commands := by
    simp only [forkParticipant, Ledger.run, commands, List.foldl_map]
    exact (List.foldl_hom Participant.ledger fun _ _ => rfl).symm
  have offers : ∀ block now, Ledger.Command.deliver block now ∈ commands → block ∈ blocks := by
    simp [commands]
  have comprises := Ledger.comprises_run (fun _ mem _ => mem)
    (Ledger.custody_empty Ledger.OpenEngine.mk 3) (Ledger.comprises_empty Ledger.OpenEngine.mk 3)
    fun block now mem _ => offers block now mem
  rw [← isRun] at comprises
  rcases holds with ⟨entry, mem, rfl⟩ | ⟨parent, orphan, filed, rfl⟩
  · exact comprises.stored entry mem
  · exact comprises.buffered parent orphan filed

theorem hasChain_forkAhead : forkAhead.ledger.tree.HasChain forkChain 2 := by
  have evaluated : (∀ height < 3,
      forkAhead.ledger.tree.blockAt? (.ofNat height) = some (forkChain height)) ∧
        forkAhead.ledger.tree.best? = some (forkChain 2) := by
    decide +kernel
  refine ⟨by decide +kernel, by decide +kernel, by decide +kernel, ?_, evaluated.2⟩
  intro number within
  have below := Nat.lt_succ_of_le (UInt64.le_iff_toNat_le.mp within)
  have indexed := evaluated.1 number.toNat below
  rw [UInt64.ofNat_toNat] at indexed
  exact indexed

/-- The one behind has the other branch and asks for number two only; the block below arrives
because it is asked for when that one has to wait. -/
theorem fork_caughtUp :
    forkBehind.ledger.tree.bestNumber? = some 1 ∧
      forkBehind.ledger.tree.contains forkLower.hash = false ∧
      ∃ later, ReflTransGen (Network.Delivers Side.name)
          (statusSent forkAhead forkBehind (Side.name .left) 2) later ∧
        later.inFlight = 0 ∧ (later.node .left).ledger = forkAhead.ledger ∧
          CaughtUp forkAhead forkChain 2 (later.node .right).ledger := by
  rcases Ledger.steady_openEngine with ⟨answer, answers⟩
  have isAllowed : Answers answer Ledger.OpenEngine.mk := answers
  have hashes : ∀ block ∈ [forkBase, forkLower, forkUpper, forkOther],
      ∀ other ∈ [forkBase, forkLower, forkUpper, forkOther],
        block.hash = other.hash → block = other := by
    decide +kernel
  have holds : ∀ block, (forkAhead.ledger.Holds block ∨ forkBehind.ledger.Holds block) →
      block ∈ [forkBase, forkLower, forkUpper, forkOther] := by
    intro block held
    simp only [List.mem_cons, List.not_mem_nil, or_false]
    rcases held with isAhead | isBehind
    · have mem := @mem_of_holds_forkParticipant [forkBase, forkLower, forkUpper] block isAhead
      simp only [List.mem_cons, List.not_mem_nil, or_false] at mem
      rcases mem with here | here | here
      · exact .inl here
      · exact .inr (.inl here)
      · exact .inr (.inr (.inl here))
    · have mem := @mem_of_holds_forkParticipant [forkBase, forkOther] block isBehind
      simp only [List.mem_cons, List.not_mem_nil, or_false] at mem
      rcases mem with here | here
      · exact .inl here
      · exact .inr (.inr (.inr here))
  have evaluated :
      (forkBehind.ledger.tree.bestNumber? = some 1 ∧
        forkBehind.ledger.tree.contains forkLower.hash = false) ∧
      forkBehind.ledger.tree.block? (forkChain 0).hash = some (forkChain 0) ∧
      (2 : UInt64).toNat - (1 : UInt64).toNat ≤ forkBehind.syncLimit.count.toNat ∧
      forkBehind.ledger.orphans.isEmpty = true ∧
      (2 : UInt64).toNat + 1 ≤ forkBehind.ledger.orphans.capacity ∧
      forkBehind.peers.record? (Side.name .left) = none ∧ forkAhead.network = forkBehind.network := by
    decide +kernel
  rcases evaluated with ⟨other, sameFirst, enough, noOrphans, room, unheard, sameNetwork⟩
  have lagging : Lagging answer (Side.name .left) forkAhead forkBehind forkChain 2 :=
    { aheadReachable := reachable_forkParticipant isAllowed _
      behindReachable := reachable_forkParticipant isAllowed _
      sameNetwork
      distinct := fun block other held otherHeld _ _ =>
        hashes block (holds block held) other (holds other otherHeld)
      hasChain := hasChain_forkAhead
      nonzero := by decide +kernel
      lags := .inr ⟨1, other.1, sameFirst, by decide, enough⟩
      noOrphans
      room
      unheard }
  rcases lagging.caughtUp_of_status with ⟨_, ⟨later, leads, idle⟩, caughtUp⟩
  exact ⟨other.1, other.2, later, leads, idle, caughtUp later leads idle⟩

end HeaviestChain
