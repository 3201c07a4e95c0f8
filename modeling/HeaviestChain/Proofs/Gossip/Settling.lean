import HeaviestChain.Proofs.Gossip.Network
import HeaviestChain.Proofs.Mempool
import HeaviestChain.RootEngine
import Mathlib.Algebra.Order.BigOperators.Group.Finset
import Mathlib.Algebra.Order.BigOperators.Group.List
import Mathlib.Algebra.Order.BigOperators.Group.Multiset
import Mathlib.Data.Set.Finite.Lattice

/-!
# Gossip settles

Whatever the state engines answer and in whatever order letters are delivered, the participants of a
network stop talking, if no block in play is its own ancestor.

Every delivery lowers one number.  Letters count by what they can still lead to: a block leads to a
request for a strict ancestor, a request for a block to that block, a request for a number to any
block, and a status to requests for numbers.  The depth of a block, the number of blocks in play
among its ancestors, puts these in order.  What can be sent beyond that is paid for by the receiver:
a block that is connected is passed on to everyone and can bring transactions back into the mempool,
but there are only so many blocks to connect; and a transaction that is passed on is pending
afterwards.
-/

namespace HeaviestChain

open Relation (ReflTransGen TransGen)

/-! ## Depth -/

/-- From the hash of a block to that of its parent. -/
def Climbs (blocks : Finset Block) (hash parentHash : BlockHash) : Prop :=
  ∃ block ∈ blocks, block.hash = hash ∧ block.parentHash = parentHash

/-- No block is its own ancestor. -/
def Acyclic (blocks : Finset Block) : Prop :=
  ∀ block ∈ blocks, ¬TransGen (Climbs blocks) block.hash block.hash

open Classical in
/-- The number of blocks among a hash and its ancestors. -/
noncomputable def depth (blocks : Finset Block) (hash : BlockHash) : Nat :=
  (blocks.filter fun block => ReflTransGen (Climbs blocks) hash block.hash).card

open Classical in
theorem depth_le_card (blocks : Finset Block) (hash : BlockHash) :
    depth blocks hash ≤ blocks.card :=
  Finset.card_filter_le _ _

theorem depth_lt_of_climbs {blocks : Finset Block} (acyclic : Acyclic blocks)
    {hash parentHash : BlockHash} (climbs : Climbs blocks hash parentHash) :
    depth blocks parentHash < depth blocks hash := by
  apply Finset.card_lt_card
  rw [Finset.ssubset_iff_of_subset]
  · rcases climbs with ⟨block, mem, rfl, rfl⟩
    refine ⟨block, ?_, ?_⟩
    · simp only [Finset.mem_filter, mem, true_and]
      exact .refl
    · simp only [Finset.mem_filter, mem, true_and]
      intro back
      exact acyclic block mem (TransGen.head' ⟨block, mem, rfl, rfl⟩ back)
  · intro block above
    simp only [Finset.mem_filter] at above ⊢
    exact ⟨above.1, .head climbs above.2⟩

/-! ## What is in play -/

/-- What is in play in a network, and how many participants it has. -/
structure Play where
  blocks : Finset Block
  transactions : Finset TxHash
  participants : Nat

namespace Play

variable (play : Play)

/-- A message says nothing that is not in play. -/
def Offers : Message → Prop
  | .block block => block ∈ play.blocks
  | .transaction tx => tx.hash ∈ play.transactions
  | _ => True

/-- What a message can still lead to, but for what its receiver pays. -/
noncomputable def weight : Message → Nat
  | .block block => 2 * depth play.blocks block.hash + 1
  | .transaction _ => 1
  | .status _ => UInt64.size * (2 * play.blocks.card + 2) + 1
  | .blockByHash hash => 2 * depth play.blocks hash + 2
  | .blockByNumber _ => 2 * play.blocks.card + 2

/-- What all letters of a message weigh at most. -/
noncomputable def postage (outbound : Outbound) : Nat :=
  match outbound.recipient with
  | .peer _ => play.weight outbound.message
  | .everyone => play.participants * play.weight outbound.message

/-- What the letters about a connected block weigh at most. -/
def announcementCost : Nat := play.participants * (2 * play.blocks.card + 1)

/-- What a participant can still pay for: blocks to connect and transactions that are not pending. -/
def reserve {σ : Type} (participant : Participant σ) : Nat :=
  (play.blocks.card - participant.ledger.tree.count) *
      (play.announcementCost + play.transactions.card) +
    (play.transactions.filter fun hash =>
      participant.ledger.pool.contains hash = false).card

/-- A participant whose blocks are in play. -/
structure Bounds {σ : Type} (participant : Participant σ) : Prop where
  wellFormed : participant.ledger.orphans.WellFormed
  grown : BlockTree.Grown Ledger.Admitted participant.ledger.tree.stored
  comprises : Ledger.Comprises (· ∈ play.blocks) (· ∈ play.blocks) participant.ledger []

variable {play} {σ : Type}

theorem Bounds.count_le {participant : Participant σ} (bounds : play.Bounds participant) :
    participant.ledger.tree.count ≤ play.blocks.card :=
  bounds.grown.length_le_card bounds.comprises.stored

theorem weight_block_le (block : Block) :
    play.weight (.block block) ≤ 2 * play.blocks.card + 1 := by
  have deep := depth_le_card play.blocks block.hash
  simp only [weight]
  omega

/-- Each block that is connected pays for its announcements and for the mempool. -/
theorem reserve_add_le {participant later : Participant σ} (bounds : play.Bounds later) {more : Nat}
    (positive : 0 < more)
    (grown : later.ledger.tree.count = participant.ledger.tree.count + more) :
    play.reserve later + more * play.announcementCost ≤ play.reserve participant := by
  have count := bounds.count_le
  have missing := Finset.card_filter_le play.transactions fun hash =>
    later.ledger.pool.contains hash = false
  have room : play.blocks.card - participant.ledger.tree.count =
      play.blocks.card - later.ledger.tree.count + more := by omega
  have once : play.transactions.card ≤ more * play.transactions.card :=
    Nat.le_mul_of_pos_left _ positive
  simp only [reserve, room, Nat.add_mul, Nat.mul_add]
  omega

theorem reserve_eq {participant later : Participant σ}
    (tree : later.ledger.tree = participant.ledger.tree)
    (pool : later.ledger.pool = participant.ledger.pool) :
    play.reserve later = play.reserve participant := by
  simp only [reserve, tree, pool]

/-! ## Reactions -/

/-- A reaction stays within what is in play and costs less than the message that caused it. -/
structure Pays (play : Play) (participant : Participant σ) (message : Message)
    (reaction : Reaction σ) : Prop where
  bounds : play.Bounds reaction.participant
  offers : ∀ outbound ∈ reaction.sent, play.Offers outbound.message
  lower : play.reserve reaction.participant + (reaction.sent.map play.postage).sum <
    play.reserve participant + play.weight message

theorem postage_fanOut_le (someone : 0 < play.participants) (peer : PeerId)
    {messages : List Message} {bound : Nat}
    (light : ∀ message ∈ messages, play.weight message ≤ bound) :
    ((Participant.fanOut (some peer) messages).map play.postage).sum ≤
      messages.length * (play.participants * bound) := by
  cases messages with
  | nil => exact Nat.zero_le _
  | cons first others =>
      have each : ∀ cost ∈ (Participant.fanOut (some peer) (first :: others)).map play.postage,
          cost ≤ play.participants * bound := by
        intro cost mem
        simp only [Participant.fanOut, List.map_cons, List.map_map, List.mem_cons, List.mem_map,
          Function.comp_apply] at mem
        rcases mem with rfl | ⟨message, listed, rfl⟩
        · exact Nat.le_trans (light first (List.mem_cons_self ..))
            (Nat.le_mul_of_pos_left _ someone)
        · exact Nat.mul_le_mul_left _ (light message (List.mem_cons_of_mem _ listed))
      have total := List.sum_le_card_nsmul _ _ each
      simpa only [Participant.fanOut, List.map_cons, List.length_cons, List.length_map,
        Nat.nsmul_eq_mul] using total

section Receive

variable [StateEngine σ] {participant : Participant σ} (bounds : play.Bounds participant)

include bounds

theorem Bounds.deliver {block : Block} (mem : block ∈ play.blocks) (now : Timestamp) :
    play.Bounds
      { participant with ledger := (participant.ledger.deliver block now).ledger } where
  wellFormed := Ledger.wellFormed_deliver bounds.wellFormed block now
  grown := Ledger.grown_deliver bounds.grown block now
  comprises := Ledger.comprises_deliver (fun _ mem _ => mem) bounds.wellFormed bounds.comprises
    mem now

omit [StateEngine σ] in
/-- An ancestor that is asked for lies strictly above the block. -/
theorem Bounds.depth_lineStart_lt (acyclic : Acyclic play.blocks) {hash : BlockHash}
    (elsewhere : OrphanBuffer.lineStart participant.ledger.orphans.parents hash ≠ hash) :
    depth play.blocks (OrphanBuffer.lineStart participant.ledger.orphans.parents hash) <
      depth play.blocks hash := by
  apply OrphanBuffer.rank_lineStart_lt _ elsewhere
  intro child parent leads
  rcases bounds.wellFormed.exists_of_leads leads with ⟨orphan, filed, isChild, isParent⟩
  apply depth_lt_of_climbs acyclic
  exact ⟨orphan.block, bounds.comprises.buffered _ orphan filed, isChild, isParent⟩

section Block

variable {block : Block} (mem : block ∈ play.blocks) (peer : PeerId) {now : Timestamp}

include mem

theorem pays_block_of_fault {fault : StateFault}
    (outcome : (participant.ledger.deliver block now).outcome = .error fault) :
    play.Pays participant (.block block) (participant.receiveBlock block (some peer) now) := by
  have after := bounds.deliver mem now
  have silent : (participant.receiveBlock block (some peer) now).sent = [] :=
    Participant.sent_receiveBlock_of_fault outcome
  have paid : play.reserve (participant.receiveBlock block (some peer) now).participant ≤
      play.reserve participant := by
    rcases participant.ledger.grows_deliver block now with ⟨tree, pool⟩ | more
    · exact Nat.le_of_eq (reserve_eq tree pool)
    · have cost := reserve_add_le after (Nat.sub_pos_of_lt more)
        (Nat.add_sub_of_le (Nat.le_of_lt more)).symm
      exact Nat.le_trans (Nat.le_add_right _ _) cost
  refine ⟨after, ?_, ?_⟩
  · simp only [silent, List.not_mem_nil, false_implies, implies_true]
  · simp only [silent, List.map_nil, List.sum_nil, weight]
    omega

theorem pays_block_of_none (acyclic : Acyclic play.blocks)
    (outcome : (participant.ledger.deliver block now).outcome = .ok []) :
    play.Pays participant (.block block) (participant.receiveBlock block (some peer) now) := by
  have after := bounds.deliver mem now
  have unchanged : play.reserve (participant.receiveBlock block (some peer) now).participant =
      play.reserve participant := by
    have count := Ledger.count_deliver _ _ _ outcome
    rcases participant.ledger.grows_deliver block now with ⟨tree, pool⟩ | more
    · exact reserve_eq tree pool
    · simp only [count, List.length_nil, Nat.add_zero, Nat.lt_irrefl] at more
  have nothing : (participant.receiveBlock block (some peer) now).sent =
      Participant.askForAncestor (participant.ledger.deliver block now).ledger block.hash peer :=
    Participant.sent_receiveBlock_of_none outcome
  have asks := nothing.trans Participant.askForAncestor_eq
  refine ⟨after, ?_, ?_⟩
  · intro outbound sent
    rw [asks] at sent
    split at sent
    case isTrue => cases sent
    case isFalse =>
        rw [List.mem_singleton.mp sent]
        trivial
  · rw [unchanged, asks]
    split
    case isTrue =>
        simp only [List.map_nil, List.sum_nil, weight]
        omega
    case isFalse elsewhere =>
        rw [not_or] at elsewhere
        have above : depth play.blocks (OrphanBuffer.lineStart
            (participant.ledger.deliver block now).ledger.orphans.parents block.hash) <
              depth play.blocks block.hash := after.depth_lineStart_lt acyclic elsewhere.2
        simp only [List.map_singleton, List.sum_singleton, postage, weight]
        omega

theorem pays_block_of_some (someone : 0 < play.participants) {first : Block} {others : List Block}
    (outcome : (participant.ledger.deliver block now).outcome = .ok (first :: others)) :
    play.Pays participant (.block block) (participant.receiveBlock block (some peer) now) := by
  have after := bounds.deliver mem now
  have announces : (participant.receiveBlock block (some peer) now).sent =
      Participant.fanOut (some peer) ((first :: others).map .block) :=
    Participant.sent_receiveBlock_of_some outcome
  refine ⟨after, ?_, ?_⟩
  · -- what is announced is stored now
    have announced : ∀ other ∈ first :: others, other ∈ play.blocks := by
      intro other listed
      have stored : other ∈
          (participant.ledger.deliver block now).ledger.tree.stored.map (·.block) := by
        rw [participant.ledger.stored_deliver block now outcome]
        exact List.mem_append_left _ (List.mem_reverse.mpr listed)
      rcases List.mem_map.mp stored with ⟨entry, isStored, rfl⟩
      exact after.comprises.stored entry isStored
    simp only [List.forall_mem_cons] at announced
    intro outbound sent
    simp only [announces, Participant.fanOut, List.map_cons, List.map_map, List.mem_cons,
      List.mem_map, Function.comp_apply] at sent
    rcases sent with rfl | ⟨other, listed, rfl⟩
    · exact announced.1
    · exact announced.2 other listed
  · have cost : ((Participant.fanOut (some peer) ((first :: others).map .block)).map
        play.postage).sum ≤ ((first :: others).map Message.block).length *
          (play.participants * (2 * play.blocks.card + 1)) := by
      apply postage_fanOut_le someone
      intro message listed
      rcases List.mem_map.mp listed with ⟨other, _, rfl⟩
      exact weight_block_le other
    have positive : 0 < others.length + 1 := Nat.succ_pos _
    have paid : play.reserve (participant.receiveBlock block (some peer) now).participant +
        (others.length + 1) * play.announcementCost ≤ play.reserve participant :=
      reserve_add_le after positive (Ledger.count_deliver _ _ _ outcome)
    have weight : 0 < play.weight (.block block) := Nat.succ_pos _
    simp only [List.length_map, List.length_cons] at cost
    simp only [announcementCost] at paid
    rw [announces]
    omega

end Block

theorem pays_transaction {tx : Transaction} (mem : tx.hash ∈ play.transactions) (peer : PeerId)
    (now : Timestamp) :
    play.Pays participant (.transaction tx)
      (participant.receive (.transaction tx) (some peer) now) := by
  by_cases pending : participant.ledger.pool.contains tx.hash = true
  · have same : participant.ledger.submit tx = (participant.ledger, false) := by
      simp only [Ledger.submit, Mempool.add, pending, if_true]
    have silent : participant.receive (.transaction tx) (some peer) now =
        { sent := [], events := [], participant } := by
      simp only [Participant.receive, same, Bool.false_eq_true, if_false]
    rw [silent]
    refine ⟨bounds, List.forall_mem_nil _, ?_⟩
    simp only [List.map_nil, List.sum_nil, weight]
    omega
  · have isNew : (participant.ledger.submit tx).2 = true := by
      simp only [Ledger.submit, Mempool.add, pending, Bool.false_eq_true, if_false]
    -- one transaction fewer is not pending
    have fewer : (play.transactions.filter fun hash =>
        (participant.ledger.submit tx).1.pool.contains hash = false).card <
          (play.transactions.filter fun hash =>
            participant.ledger.pool.contains hash = false).card := by
      apply Finset.card_lt_card
      rw [Finset.ssubset_iff_of_subset]
      · refine ⟨tx.hash, ?_, ?_⟩
        · simpa [mem] using pending
        · simp [Ledger.submit, ← Bool.not_eq_true, Mempool.contains_add]
      · intro hash
        simp only [Finset.mem_filter, ← Bool.not_eq_true, Ledger.submit, Mempool.contains_add,
          not_or]
        rintro ⟨listed, _, missing⟩
        exact ⟨listed, missing⟩
    simp only [Participant.receive, isNew, if_true, Participant.fanOut, List.map_nil]
    refine ⟨⟨bounds.wellFormed, bounds.grown, { bounds.comprises with }⟩, ?_, ?_⟩
    · simpa [Offers] using mem
    · have count : (participant.ledger.submit tx).1.tree = participant.ledger.tree := rfl
      simp only [reserve, count, List.map_cons, List.map_nil, List.sum_singleton, postage, weight]
      omega

theorem pays_status (status : Status) (peer : PeerId) (now : Timestamp) :
    play.Pays participant (.status status)
      (participant.receive (.status status) (some peer) now) := by
  have frame := (participant.receiveStatus_frame status (some peer) now).1
  have same : play.reserve (participant.receive (.status status) (some peer) now).participant =
      play.reserve participant := by
    apply reserve_eq
    · exact congrArg Ledger.tree frame
    · exact congrArg Ledger.pool frame
  have after : play.Bounds (participant.receive (.status status) (some peer) now).participant := by
    simp only [Participant.receive]
    refine ⟨?_, ?_, ?_⟩
    · rw [frame]
      exact bounds.wellFormed
    · rw [frame]
      exact bounds.grown
    · rw [frame]
      exact bounds.comprises
  rcases participant.sent_receiveStatus status peer now with silent | ⟨first, last, requests⟩
  · refine ⟨after, ?_, ?_⟩
    · simp only [Participant.receive, silent, List.not_mem_nil, false_implies, implies_true]
    · rw [same]
      simp only [Participant.receive, silent, List.map_nil, List.sum_nil, weight]
      omega
  · refine ⟨after, ?_, ?_⟩
    · intro outbound sent
      simp only [Participant.receive, requests, List.mem_map] at sent
      rcases sent with ⟨number, _, rfl⟩
      trivial
    · rw [same]
      have each : ∀ cost ∈ ((Participant.numbers first last).map fun number =>
          (⟨.peer peer, .blockByNumber number⟩ : Outbound)).map play.postage,
            cost ≤ 2 * play.blocks.card + 2 := by
        intro cost mem
        simp only [List.map_map, List.mem_map, Function.comp_apply] at mem
        rcases mem with ⟨number, _, rfl⟩
        exact Nat.le_refl _
      have total := List.sum_le_card_nsmul _ _ each
      have inRange : (Participant.numbers first last).length ≤ UInt64.size :=
        (Participant.length_numbers_le first last).trans last.toNat_lt
      have few := Nat.mul_le_mul_right (2 * play.blocks.card + 2) inRange
      simp only [List.length_map, Nat.nsmul_eq_mul] at total
      simp only [Participant.receive, requests, weight]
      omega

omit [StateEngine σ] in
theorem pays_reply {message : Message} {found : Option Block} {peer : PeerId}
    {reaction : Reaction σ} (keeps : reaction.participant = participant)
    (replies : reaction.sent = Participant.reply found (some peer))
    (stored : ∀ block, found = some block → block ∈ play.blocks)
    (lighter : ∀ block, found = some block →
      play.weight (.block block) < play.weight message)
    (positive : 0 < play.weight message) : play.Pays participant message reaction := by
  cases found with
  | none =>
      simp only [Participant.reply] at replies
      refine ⟨keeps ▸ bounds, ?_, ?_⟩
      · simp only [replies, List.not_mem_nil, false_implies, implies_true]
      · simp only [replies, keeps, List.map_nil, List.sum_nil]
        omega
  | some block =>
      simp only [Participant.reply] at replies
      refine ⟨keeps ▸ bounds, ?_, ?_⟩
      · intro outbound sent
        rw [replies, List.mem_singleton] at sent
        rw [sent]
        exact stored block rfl
      · have less := lighter block rfl
        simp only [replies, keeps, List.map_cons, List.map_nil, List.sum_singleton, postage]
        omega

theorem pays_receive (acyclic : Acyclic play.blocks) (someone : 0 < play.participants)
    {message : Message} (offers : play.Offers message) (peer : PeerId) (now : Timestamp) :
    play.Pays participant message (participant.receive message (some peer) now) := by
  have stored {hash : BlockHash} {block : Block}
      (found : participant.ledger.tree.block? hash = some block) :
      block ∈ play.blocks ∧ block.hash = hash := by
    rcases BlockTree.block?_eq_some_iff.mp found with ⟨entry, isEntry, rfl⟩
    exact ⟨bounds.comprises.stored entry (BlockTree.mem_of_lookup isEntry),
      BlockTree.hash_of_lookup isEntry⟩
  cases message with
  | block block =>
      cases outcome : (participant.ledger.deliver block now).outcome with
      | error fault => exact pays_block_of_fault bounds offers peer outcome
      | ok connected =>
          cases connected with
          | nil => exact pays_block_of_none bounds offers peer acyclic outcome
          | cons first others => exact pays_block_of_some bounds offers peer someone outcome
  | transaction tx => exact pays_transaction bounds offers peer now
  | status status => exact pays_status bounds status peer now
  | blockByHash hash =>
      apply pays_reply bounds rfl rfl
      · exact fun block found => (stored found).1
      · intro block found
        simp only [weight, (stored found).2]
        omega
      · exact Nat.succ_pos _
  | blockByNumber number =>
      apply pays_reply bounds rfl rfl
      · intro block found
        rcases Option.bind_eq_some_iff.mp found with ⟨hash, _, isBlock⟩
        exact (stored isBlock).1
      · intro block _
        have light : play.weight (.block block) ≤ _ := weight_block_le block
        simp only [weight] at light ⊢
        omega
      · exact Nat.succ_pos _

end Receive

end Play

/-! ## What is in play -/

variable {ι σ : Type} [Fintype ι]

namespace Play

/-- The participants and the letters of a network are within what is in play. -/
structure Covers (play : Play) (network : Network ι σ) : Prop where
  participants : play.participants = Fintype.card ι
  bounds : ∀ participant, play.Bounds (network.node participant)
  offers : ∀ letter ∈ network.inFlight, play.Offers letter.message

/-- What can still happen in a network. -/
noncomputable def total (play : Play) (network : Network ι σ) : Nat :=
  ∑ participant, play.reserve (network.node participant) +
    (network.inFlight.map fun letter => play.weight letter.message).sum

end Play

namespace Network

/-- The block is in flight, stored or waits somewhere. -/
def InPlay (network : Network ι σ) (block : Block) : Prop :=
  (∃ letter ∈ network.inFlight, letter.message = .block block) ∨
    ∃ participant, (network.node participant).ledger.Holds block

/-- From the hash of a block in play to the hash of its parent. -/
def Ascends (network : Network ι σ) (hash parentHash : BlockHash) : Prop :=
  ∃ block, network.InPlay block ∧ block.hash = hash ∧ block.parentHash = parentHash

theorem finite_inPlay (network : Network ι σ) : {block | network.InPlay block}.Finite := by
  have messages := (network.inFlight.map (·.message)).finite_toSet
  have sent := messages.preimage (f := Message.block) fun _ _ _ _ same => Message.block.inj same
  have held := Set.finite_iUnion fun participant =>
    (network.node participant).ledger.finite_holds
  apply (sent.union held).subset
  rintro block (⟨letter, mem, isBlock⟩ | ⟨participant, holds⟩)
  · exact .inl (Multiset.mem_map.mpr ⟨letter, mem, isBlock⟩)
  · exact .inr (Set.mem_iUnion.mpr ⟨participant, holds⟩)

omit [Fintype ι] in
theorem finite_transactions (network : Network ι σ) :
    {hash | ∃ letter ∈ network.inFlight, ∃ tx, letter.message = .transaction tx ∧
      tx.hash = hash}.Finite := by
  have messages := (network.inFlight.map (·.message)).finite_toSet
  have sent := messages.preimage (f := Message.transaction) fun _ _ _ _ same =>
    Message.transaction.inj same
  apply (sent.image Transaction.hash).subset
  rintro hash ⟨letter, mem, tx, isTx, rfl⟩
  refine ⟨tx, ?_, rfl⟩
  exact Multiset.mem_map.mpr ⟨letter, mem, isTx⟩

/-- What is in play in a network. -/
noncomputable def play (network : Network ι σ) : Play where
  blocks := network.finite_inPlay.toFinset
  transactions := network.finite_transactions.toFinset
  participants := Fintype.card ι

theorem mem_blocks_play {network : Network ι σ} {block : Block} :
    block ∈ network.play.blocks ↔ network.InPlay block :=
  Set.Finite.mem_toFinset _

theorem climbs_play (network : Network ι σ) : Climbs network.play.blocks = network.Ascends := by
  ext hash parentHash
  simp only [Climbs, Ascends, mem_blocks_play]

variable [StateEngine σ]

theorem covers_play {network : Network ι σ}
    (reachable : ∀ participant, (network.node participant).Reachable fun _ => True) :
    network.play.Covers network where
  participants := rfl
  bounds := by
    intro participant
    refine ⟨(reachable participant).custody.wellFormed, (reachable participant).grown, ?_⟩
    apply Ledger.comprises_of_holds
    intro block holds
    exact mem_blocks_play.mpr (.inr ⟨participant, holds⟩)
  offers := by
    intro letter mem
    cases isMessage : letter.message with
    | block block => exact mem_blocks_play.mpr (.inl ⟨letter, mem, isMessage⟩)
    | transaction tx =>
        exact (Set.Finite.mem_toFinset _).mpr ⟨letter, mem, tx, isMessage, rfl⟩
    | status _ => trivial
    | blockByHash _ => trivial
    | blockByNumber _ => trivial

end Network

/-! ## Deliveries -/

section Deliver

variable [DecidableEq ι] (name : ι ↪ PeerId)

theorem Play.weight_letters_le {play : Play} (fits : play.participants = Fintype.card ι)
    (sender : ι) (outbound : Outbound) :
    ((outbound.letters name sender).map fun letter => play.weight letter.message).sum ≤
      play.postage outbound := by
  rcases outbound with ⟨recipient, message⟩
  have even : (((⟨recipient, message⟩ : Outbound).letters name sender).map fun letter =>
      play.weight letter.message).sum =
        (recipient.nodes name sender).card * play.weight message := by
    simp only [Outbound.letters, Multiset.map_map, Function.comp_def, Multiset.map_const',
      Multiset.sum_replicate, Finset.card_val, Nat.nsmul_eq_mul]
  rw [even]
  cases recipient with
  | peer addressee =>
      have atMostOne : ((Recipient.peer addressee).nodes name sender).card ≤ 1 := by
        apply Finset.card_le_one.mpr
        intro first firstMem second secondMem
        simp only [Recipient.nodes, Finset.mem_filter, Finset.mem_univ, true_and]
          at firstMem secondMem
        exact name.injective (firstMem.trans secondMem.symm)
      have light := Nat.mul_le_mul_right (play.weight message) atMostOne
      simpa only [Play.postage, Nat.one_mul] using light
  | everyone =>
      simp only [Play.postage, fits]
      exact Nat.mul_le_mul_right _ (Finset.card_le_univ _)

theorem Play.weight_sent_le {play : Play} (fits : play.participants = Fintype.card ι) (sender : ι)
    (sent : List Outbound) :
    ((Multiset.bind sent (Outbound.letters name sender)).map fun letter =>
      play.weight letter.message).sum ≤ (sent.map play.postage).sum := by
  induction sent with
  | nil => exact Nat.zero_le _
  | cons outbound others ih =>
      have here := Play.weight_letters_le name fits sender outbound
      rw [← Multiset.cons_coe, Multiset.cons_bind, Multiset.map_add, Multiset.sum_add,
        List.map_cons, List.sum_cons]
      omega

namespace Play

variable {play : Play}

variable [StateEngine σ] {network next : Network ι σ}

theorem Covers.delivers (acyclic : Acyclic play.blocks) (covers : play.Covers network)
    (delivers : network.Delivers name next) :
    play.Covers next ∧ play.total next < play.total network := by
  cases delivers with
  | @deliver letter rest taken now =>
      have someone : 0 < play.participants := by
        rw [covers.participants]
        exact Fintype.card_pos_iff.mpr ⟨letter.receiver⟩
      have offered := covers.offers letter (by simp [taken])
      have pays := pays_receive (covers.bounds letter.receiver) acyclic someone offered
        (name letter.sender) now
      generalize isReaction : (network.node letter.receiver).receive letter.message
        (some (name letter.sender)) now = reaction at pays
      refine ⟨⟨covers.participants, ?_, ?_⟩, ?_⟩
      · intro participant
        simp only [Network.deliver, isReaction]
        by_cases here : participant = letter.receiver
        · subst here
          simpa using pays.bounds
        · simpa [here] using covers.bounds participant
      · intro other mem
        rw [Network.mem_inFlight_deliver] at mem
        rcases mem with old | ⟨outbound, sent, mem⟩
        · exact covers.offers other (by simp [taken, old])
        · rcases (Outbound.mem_letters name).mp mem with ⟨receiver, _, rfl⟩
          rw [isReaction] at sent
          exact pays.offers outbound sent
      · have sent := weight_sent_le name covers.participants letter.receiver reaction.sent
        have others : ∑ participant ∈ Finset.univ.erase letter.receiver,
            play.reserve (Function.update network.node letter.receiver reaction.participant
              participant) =
              ∑ participant ∈ Finset.univ.erase letter.receiver,
                play.reserve (network.node participant) := by
          apply Finset.sum_congr rfl
          intro participant mem
          rw [Function.update_of_ne (Finset.ne_of_mem_erase mem)]
        have lower := pays.lower
        simp only [total, Network.deliver, isReaction, taken, Multiset.map_add, Multiset.sum_add,
          Multiset.map_cons, Multiset.sum_cons]
        rw [← Finset.add_sum_erase _ _ (Finset.mem_univ letter.receiver),
          ← Finset.add_sum_erase _ (fun participant => play.reserve (network.node participant))
            (Finset.mem_univ letter.receiver), Function.update_self, others]
        omega

end Play

end Deliver

/-! ## Arbitrary answers -/

namespace Network

/-- The network with other state engines. -/
def withEngines (network : Network ι σ) (engines : ι → σ) : Network ι σ :=
  { network with
    node := fun participant =>
      { network.node participant with
        ledger := { (network.node participant).ledger with engine := engines participant } } }

section Proceed

variable [StateEngine σ] [DecidableEq ι] (name : ι ↪ PeerId)

/-- A letter is delivered after the state engines have become any others. -/
inductive Proceeds (network : Network ι σ) : Network ι σ → Prop
  | deliver (engines : ι → σ) {next : Network ι σ}
      (delivers : (network.withEngines engines).Delivers name next) : Proceeds network next

theorem proceeds_lowers {play : Play} (acyclic : Acyclic play.blocks) (network next : Network ι σ)
    (covers : play.Covers network) (proceeds : network.Proceeds name next) :
    play.Covers next ∧ play.total next < play.total network := by
  cases proceeds with
  | deliver engines delivers =>
      have anyhow : play.Covers (network.withEngines engines) := by
        refine ⟨covers.participants, ?_, covers.offers⟩
        intro participant
        have bounds := covers.bounds participant
        exact ⟨bounds.wellFormed, bounds.grown, { bounds.comprises with }⟩
      have after := anyhow.delivers name acyclic delivers
      exact after

/-- Gossip settles.  From any participants that can be reached and any letters between them, if no
block in play is its own ancestor, the number of deliveries is bounded, whatever the state engines
answer and whichever letters are delivered first; so there is no infinite sequence of them, and
where it cannot go on no letter is in flight. -/
theorem gossip_settles {network : Network ι σ}
    (reachable : ∀ participant, (network.node participant).Reachable fun _ => True)
    (acyclic : ∀ block, network.InPlay block →
      ¬TransGen network.Ascends block.hash block.hash) :
    (∃ bound, ∀ run, (network :: run).IsChain (Proceeds name) → run.length ≤ bound) ∧
    (¬∃ path : Nat → Network ι σ, path 0 = network ∧
      ∀ time, (path time).Proceeds name (path (time + 1))) ∧
    ∀ later, ReflTransGen (Proceeds name) network later →
      (∀ next, ¬later.Proceeds name next) → later.inFlight = 0 := by
  have covers := covers_play reachable
  have acyclicPlay : Acyclic network.play.blocks := by
    intro block mem
    rw [climbs_play]
    exact acyclic block (mem_blocks_play.mp mem)
  have lowers := proceeds_lowers (σ := σ) name acyclicPlay
  refine ⟨⟨_, fun run => length_le_of_lowers lowers covers⟩,
    not_exists_path_of_lowers lowers covers, ?_⟩
  intro later _ stuck
  by_contra busy
  rcases exists_delivers_of_ne_zero name busy with ⟨next, delivers⟩
  exact stuck next (.deliver (fun participant => (later.node participant).ledger.engine) delivers)

end Proceed

/-- Two empty participants; one sends the other a genesis block, a block on it and a payment. -/
def gossipName : Bool ↪ PeerId where
  toFun := fun second => ⟨.replicate 32 (if second then 1 else 0)⟩
  inj' := by
    intro first second
    revert first second
    decide

def gossipBase : Block := ({} : GenesisSpec).block

def gossipChild : Block :=
  .build 1 gossipBase.hash [] [] gossipBase.stateRoot .epoch .zero .one

def gossipPayment : Transaction := .ofContent ⟨.zero, .zero, .zero, 0, [], 0, .zero⟩

def gossipNetwork : Network Bool RootEngine where
  node := fun _ => { ledger := .empty (.seeded .zero) 4 }
  inFlight := {⟨false, true, .block gossipChild⟩, ⟨false, true, .block gossipBase⟩,
    ⟨false, true, .transaction gossipPayment⟩}

theorem gossipNetwork_settles :
    (∃ next, gossipNetwork.Proceeds gossipName next) ∧
      ∃ bound, ∀ run, (gossipNetwork :: run).IsChain (Proceeds gossipName) →
        run.length ≤ bound := by
  have reachable : ∀ participant,
      (gossipNetwork.node participant).Reachable fun _ => True :=
    fun _ => .fresh trivial 4 .mainnet .standard
  have blocks : ∀ block, gossipNetwork.InPlay block → block = gossipBase ∨ block = gossipChild := by
    rintro block (⟨letter, mem, isBlock⟩ | ⟨_, ⟨_, mem, _⟩ | ⟨_, _, mem, _⟩⟩)
    · simp only [gossipNetwork, Multiset.insert_eq_cons, Multiset.mem_cons,
        Multiset.mem_singleton] at mem
      rcases mem with rfl | rfl | rfl
      · exact .inr (Message.block.inj isBlock).symm
      · exact .inl (Message.block.inj isBlock).symm
      · cases isBlock
    · cases mem
    · cases mem
  have hashes : gossipBase.hash ≠ .zero ∧ gossipChild.hash ≠ .zero ∧
      gossipChild.hash ≠ gossipBase.hash ∧ gossipBase.parentHash = .zero ∧
      gossipChild.parentHash = gossipBase.hash := by decide +kernel
  rcases hashes with ⟨baseHash, childHash, different, baseParent, childParent⟩
  have ascends : ∀ hash parentHash, gossipNetwork.Ascends hash parentHash →
      parentHash = .zero ∨ hash = gossipChild.hash ∧ parentHash = gossipBase.hash := by
    rintro hash parentHash ⟨block, inPlay, rfl, rfl⟩
    rcases blocks block inPlay with rfl | rfl
    · exact .inl baseParent
    · exact .inr ⟨rfl, childParent⟩
  -- nothing leads back to the upper block
  have above : ∀ hash parentHash, TransGen gossipNetwork.Ascends hash parentHash →
      parentHash = .zero ∨ hash = gossipChild.hash ∧ parentHash = gossipBase.hash := by
    intro hash parentHash line
    induction line with
    | single step => exact ascends _ _ step
    | tail _ step ih =>
        rcases ascends _ _ step with null | ⟨atChild, _⟩
        · exact .inl null
        · rcases ih with null | ⟨_, atBase⟩
          · exact absurd (atChild.symm.trans null) childHash
          · exact absurd (atChild.symm.trans atBase) different
  have acyclic : ∀ block, gossipNetwork.InPlay block →
      ¬TransGen gossipNetwork.Ascends block.hash block.hash := by
    intro block inPlay line
    rcases blocks block inPlay with rfl | rfl
    · rcases above _ _ line with null | ⟨same, _⟩
      · exact baseHash null
      · exact different same.symm
    · rcases above _ _ line with null | ⟨_, same⟩
      · exact childHash null
      · exact different same
  have busy : (gossipNetwork.withEngines fun _ => .seeded .zero).inFlight ≠ 0 :=
    by simp [gossipNetwork, withEngines]
  rcases exists_delivers_of_ne_zero gossipName busy with ⟨next, delivers⟩
  exact ⟨⟨next, .deliver _ delivers⟩, (gossip_settles gossipName reachable acyclic).1⟩

end Network

end HeaviestChain
