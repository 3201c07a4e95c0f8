import HeaviestChain.Proofs.Gossip.Network
import HeaviestChain.Proofs.Ledger.Gathering
import HeaviestChain.Proofs.Ledger.Honest
import HeaviestChain.Proofs.Requests.Batch

/-!
# One participant behind another

The canonical chain of one participant reaches higher than that of another one (`Lagging`).  Both
have honest engines with the same answers and tell blocks apart by their hashes, so the blocks of the
chain are a stock that the one behind never refuses, whatever branch it is on (`Lagging.supply`).

After the status of the one ahead it asks for all numbers from some one on
(`Lagging.sent_status`).
-/

namespace HeaviestChain

open BlockTree (Grown lookup)
open Ledger (Honest Supply)
open StateEngine (Answers)

/-! ## A canonical chain -/

/-- The canonical chain of a tree up to a number: it starts with a genesis block, the index leads
along it, each block lies on the one before, and the head is the last one. -/
structure BlockTree.HasChain (tree : BlockTree) (chain : Nat → Block) (top : UInt64) : Prop where
  first : (chain 0).isGenesis = true
  numbered : ∀ height ≤ top.toNat, (chain height).number.toNat = height
  linked : ∀ height < top.toNat, (chain (height + 1)).parentHash = (chain height).hash
  indexed : ∀ number ≤ top, tree.blockAt? number = some (chain number.toNat)
  last : tree.best? = some (chain top.toNat)

/-- As long as the blocks can be counted in a word, a tree with a head has its canonical chain. -/
theorem BlockTree.Canonical.exists_hasChain {tree : BlockTree} (canonical : tree.Canonical)
    {top : UInt64} (isTop : tree.bestNumber? = some top) : ∃ chain, tree.HasChain chain top := by
  have follows := canonical.indexFollowsHead
  rcases follows.top top isTop with ⟨best, isBest, topBlock⟩
  let chain := fun height => (tree.blockAt? (.ofNat height)).getD best
  have blockAt : ∀ height ≤ top.toNat, tree.blockAt? (.ofNat height) = some (chain height) := by
    intro height within
    have bounded := Word64.ofNat_le within
    rcases Option.isSome_iff_exists.mp ((follows.defined _).mpr ⟨top, isTop, bounded⟩) with
      ⟨block, isBlock⟩
    simp only [chain, isBlock, Option.getD_some]
  have numbered : ∀ height ≤ top.toNat, (chain height).number.toNat = height := by
    intro height within
    rw [(canonical.blockAt?_eq_some_iff.mp (blockAt height within)).2, Word64.toNat_ofNat_of_le within]
  refine ⟨chain, ?_, numbered, ?_, ?_, ?_⟩
  · have onLine := (canonical.blockAt?_eq_some_iff.mp (blockAt 0 (Nat.zero_le _))).1
    rcases canonical.exists_entry onLine with ⟨entry, mem, isBlock⟩
    rcases canonical.grown.first_or_child mem with ⟨_, genesis, _⟩ | ⟨parent, _, above, _⟩
    · rw [← isBlock]
      exact genesis
    · have zero := numbered 0 (Nat.zero_le _)
      simp only [Follows, isBlock, zero] at above
      omega
  · intro height within
    have number := Word64.toNat_ofNat_of_le (Nat.succ_le_of_lt within)
    have positive : 0 < UInt64.ofNat (height + 1) := by
      rw [UInt64.lt_iff_toNat_lt, number]
      exact Nat.succ_pos height
    rcases follows.linked _ _ (blockAt (height + 1) within) positive with ⟨below, isBelow, linked⟩
    have before : UInt64.ofNat (height + 1) - 1 = UInt64.ofNat height := by
      rw [UInt64.ofNat_add]
      exact UInt64.add_sub_cancel _ _
    rw [before, blockAt height (Nat.le_of_lt within), Option.some.injEq] at isBelow
    rw [linked, isBelow]
  · intro number within
    have indexed := blockAt number.toNat (UInt64.le_iff_toNat_le.mp within)
    rw [UInt64.ofNat_toNat] at indexed
    exact indexed
  · have last := blockAt top.toNat (Nat.le_refl _)
    rw [UInt64.ofNat_toNat, topBlock] at last
    exact isBest.trans last

/-- The blocks of a chain. -/
def chainBlocks (chain : Nat → Block) (top : UInt64) : Finset Block :=
  (Finset.range (top.toNat + 1)).image chain

theorem mem_chainBlocks {chain : Nat → Block} {top : UInt64} {block : Block} :
    block ∈ chainBlocks chain top ↔ ∃ height ≤ top.toNat, chain height = block := by
  simp only [chainBlocks, Finset.mem_image, Finset.mem_range, Nat.lt_succ_iff]

theorem chain_mem {chain : Nat → Block} {top : UInt64} {height : Nat} (within : height ≤ top.toNat) :
    chain height ∈ chainBlocks chain top :=
  mem_chainBlocks.mpr ⟨height, within, rfl⟩

theorem card_chainBlocks_le (chain : Nat → Block) (top : UInt64) :
    (chainBlocks chain top).card ≤ top.toNat + 1 :=
  Finset.card_image_le.trans (Finset.card_range _).le

variable {σ : Type}

namespace Participant

/-- The blocks that a participant has stored, and those of a chain. -/
def storedAnd (participant : Participant σ) (blocks : Finset Block) : Finset Block :=
  (participant.ledger.tree.stored.map (·.block)).toFinset ∪ blocks

theorem mem_storedAnd {participant : Participant σ} {blocks : Finset Block} {block : Block} :
    block ∈ participant.storedAnd blocks ↔
      (∃ entry ∈ participant.ledger.tree.stored, entry.block = block) ∨ block ∈ blocks := by
  simp only [storedAnd, Finset.mem_union, List.mem_toFinset, List.mem_map]

/-- The height at which a participant has a block. -/
def heightOf (participant : Participant σ) (hash : BlockHash) : Nat :=
  ((participant.ledger.tree.block? hash).map fun block => block.number.toNat).getD 0

variable [StateEngine σ]

theorem Reachable.honest {answer : Root → ExecutionContext → List Transaction → Root}
    {participant : Participant σ} (reachable : participant.Reachable (Answers answer)) :
    Honest answer participant.ledger := by
  rcases reachable.exists_run with ⟨engine, capacity, commands, answers, alters, isRun⟩
  rw [isRun]
  exact (Ledger.honest_empty answers capacity).run alters

end Participant

/-! ## Falling behind -/

variable [StateEngine σ]

/-- A participant is behind another one on their network: it is on another branch or has no blocks
at all, has not heard from the other, may ask for all that it lacks at its end, and has room for
it. -/
structure Lagging (answer : Root → ExecutionContext → List Transaction → Root) (peer : PeerId)
    (ahead behind : Participant σ) (chain : Nat → Block) (top : UInt64) : Prop where
  aheadReachable : ahead.Reachable (Answers answer)
  behindReachable : behind.Reachable (Answers answer)
  sameNetwork : ahead.network = behind.network
  distinct : ∀ block other, (ahead.ledger.Holds block ∨ behind.ledger.Holds block) →
    (ahead.ledger.Holds other ∨ behind.ledger.Holds other) →
    block.checkBody = .ok () → other.checkBody = .ok () → block.hash = other.hash → block = other
  hasChain : ahead.ledger.tree.HasChain chain top
  -- the first block names the null hash as its parent, so no block above it may have that hash:
  -- it stands for no block, and nothing would be asked for below one that waits under it
  nonzero : ∀ height ≤ top.toNat, 0 < height → (chain height).hash ≠ .zero
  lags : (behind.ledger.tree.isEmpty = true ∧ top.toNat + 1 ≤ behind.syncLimit.count.toNat) ∨
    ∃ best, behind.ledger.tree.bestNumber? = some best ∧
      behind.ledger.tree.block? (chain 0).hash = some (chain 0) ∧
      best < top ∧ top.toNat - best.toNat ≤ behind.syncLimit.count.toNat
  noOrphans : behind.ledger.orphans.isEmpty = true
  room : top.toNat + 1 ≤ behind.ledger.orphans.capacity
  unheard : behind.peers.record? peer = none

namespace Lagging

variable {answer : Root → ExecutionContext → List Transaction → Root} {peer : PeerId}
  {ahead behind : Participant σ} {chain : Nat → Block} {top : UInt64}
  (lagging : Lagging answer peer ahead behind chain top)

include lagging

/-! ## The blocks of the chain -/

theorem blockAt?_ahead {height : Nat} (within : height ≤ top.toNat) :
    ahead.ledger.tree.blockAt? (.ofNat height) = some (chain height) := by
  have indexed := lagging.hasChain.indexed _ (Word64.ofNat_le within)
  rw [Word64.toNat_ofNat_of_le within] at indexed
  exact indexed

theorem block?_ahead {height : Nat} (within : height ≤ top.toNat) :
    ahead.ledger.tree.block? (chain height).hash = some (chain height) := by
  have indexed := lagging.blockAt?_ahead within
  rw [BlockTree.blockAt?, Option.bind_eq_some_iff] at indexed
  rcases indexed with ⟨hash, _, stored⟩
  rcases BlockTree.block?_eq_some_iff.mp stored with ⟨entry, found, isBlock⟩
  rw [← isBlock, BlockTree.hash_of_lookup found, isBlock]
  exact stored

theorem exists_entry_ahead {height : Nat} (within : height ≤ top.toNat) :
    ∃ entry, lookup ahead.ledger.tree.stored (chain height).hash = some entry ∧
      entry.block = chain height :=
  BlockTree.block?_eq_some_iff.mp (lagging.block?_ahead within)

theorem holds_ahead {height : Nat} (within : height ≤ top.toNat) :
    ahead.ledger.Holds (chain height) := by
  rcases lagging.exists_entry_ahead within with ⟨entry, found, isBlock⟩
  exact .inl ⟨entry, BlockTree.mem_of_lookup found, isBlock⟩

theorem sound_chain {height : Nat} (within : height ≤ top.toNat) :
    (chain height).checkBody = .ok () := by
  rcases lagging.exists_entry_ahead within with ⟨entry, found, isBlock⟩
  rw [← isBlock]
  exact lagging.aheadReachable.honest.sound entry (BlockTree.mem_of_lookup found)

/-- Every block of the chain but the first follows from the one before. -/
theorem valid_chain {height : Nat} (within : height < top.toNat) :
    (chain (height + 1)).isGenesis = false ∧
      (chain (height + 1)).ValidOn answer (chain height) := by
  rcases lagging.exists_entry_ahead (Nat.succ_le_of_lt within) with ⟨entry, found, isBlock⟩
  rcases lagging.exists_entry_ahead (Nat.le_of_lt within) with ⟨below, foundBelow, isBelow⟩
  rcases lagging.aheadReachable.honest.valid.first_or_child (BlockTree.mem_of_lookup found) with
    ⟨_, genesis, _⟩ | ⟨parent, linked, obeys, _⟩
  · have zero := BlockTree.number_of_isGenesis genesis
    rw [isBlock, lagging.hasChain.numbered _ (Nat.succ_le_of_lt within)] at zero
    cases zero
  · rw [isBlock, lagging.hasChain.linked height within, foundBelow] at linked
    cases linked
    rw [isBlock, isBelow] at obeys
    exact obeys

theorem exists_best_ahead :
    ∃ best, lookup ahead.ledger.tree.stored (chain top.toNat).hash = some best ∧
      ahead.ledger.tree.bestWeight? = some best.totalWeight := by
  have topBlock := lagging.hasChain.last
  rw [BlockTree.best?, Option.bind_eq_some_iff] at topBlock
  rcases topBlock with ⟨head, isHead, isTop⟩
  rcases lagging.aheadReachable.headed.exists_heaviest isHead with ⟨best, heaviest, rfl⟩
  have found := lagging.aheadReachable.grown.lookup_of_mem (BlockTree.mem_of_heaviest? heaviest)
  rcases BlockTree.block?_eq_some_iff.mp isTop with ⟨entry, found', isBlock⟩
  rw [← isBlock, BlockTree.hash_of_lookup found']
  refine ⟨best, found, ?_⟩
  rw [BlockTree.bestWeight?, isHead]
  rfl

theorem height_eq_of_hash {height other : Nat} (within : height ≤ top.toNat)
    (otherWithin : other ≤ top.toNat) (same : (chain height).hash = (chain other).hash) :
    height = other := by
  have blocks := lagging.block?_ahead within
  rw [same, lagging.block?_ahead otherWithin, Option.some.injEq] at blocks
  rw [← lagging.hasChain.numbered height within, ← lagging.hasChain.numbered other otherWithin,
    blocks]

theorem heightOf_chain {height : Nat} (within : height ≤ top.toNat) :
    ahead.heightOf (chain height).hash = height := by
  simp only [Participant.heightOf, lagging.block?_ahead within, Option.map_some, Option.getD_some,
    lagging.hasChain.numbered height within]

/-- A held block is known by its hash. -/
theorem eq_of_hash {block : Block} (held : block ∈ behind.storedAnd (chainBlocks chain top)) {height : Nat}
    (within : height ≤ top.toNat) (same : block.hash = (chain height).hash) :
    block = chain height := by
  apply lagging.distinct block (chain height) _ (.inl (lagging.holds_ahead within)) _
    (lagging.sound_chain within) same
  · rcases Participant.mem_storedAnd.mp held with stored | onChain
    · exact .inr (.inl stored)
    · rcases mem_chainBlocks.mp onChain with ⟨other, otherWithin, rfl⟩
      exact .inl (lagging.holds_ahead otherWithin)
  · rcases Participant.mem_storedAnd.mp held with ⟨entry, stored, rfl⟩ | onChain
    · exact lagging.behindReachable.honest.sound entry stored
    · rcases mem_chainBlocks.mp onChain with ⟨other, otherWithin, rfl⟩
      exact lagging.sound_chain otherWithin

/-- The first block of the chain is the only genesis block. -/
theorem eq_first_of_isGenesis {block : Block} (held : block ∈ behind.storedAnd (chainBlocks chain top))
    (genesis : block.isGenesis = true) : block = chain 0 := by
  rcases Participant.mem_storedAnd.mp held with ⟨entry, stored, rfl⟩ | onChain
  · have grown := lagging.behindReachable.grown
    -- a genesis block in a tree is its first block
    have isLast : ∀ {other}, other ∈ behind.ledger.tree.stored → other.block.isGenesis = true →
        behind.ledger.tree.stored.getLast? = some other := by
      intro other mem otherGenesis
      rcases grown.first_or_child mem with ⟨last, _⟩ | ⟨_, _, admitted, _⟩
      · exact last
      · rw [admitted.1] at otherGenesis
        cases otherGenesis
    rcases lagging.lags with ⟨empty, _⟩ | ⟨_, _, sameFirst, _⟩
    · rw [BlockTree.isEmpty, List.isEmpty_iff] at empty
      rw [empty] at stored
      cases stored
    · rcases BlockTree.block?_eq_some_iff.mp sameFirst with ⟨first, found, isFirst⟩
      have firstLast := isLast (BlockTree.mem_of_lookup found)
        (by rw [isFirst]; exact lagging.hasChain.first)
      rw [isLast stored genesis] at firstLast
      cases firstLast
      exact isFirst
  · rcases mem_chainBlocks.mp onChain with ⟨height, within, rfl⟩
    cases height with
    | zero => rfl
    | succ below =>
        rw [(lagging.valid_chain within).1] at genesis
        cases genesis

/-- The one behind never refuses a block of the chain. -/
theorem supply :
    Supply behind.ledger.engine (· ∈ behind.storedAnd (chainBlocks chain top)) (chainBlocks chain top) where
  within := fun block mem => Participant.mem_storedAnd.mpr (.inr mem)
  sound := by
    intro block mem
    rcases mem_chainBlocks.mp mem with ⟨height, within, rfl⟩
    exact lagging.sound_chain within
  distinct := by
    intro block mem other held same
    rcases mem_chainBlocks.mp mem with ⟨height, within, rfl⟩
    exact lagging.eq_of_hash held within same
  single := by
    intro block mem genesis other held otherGenesis
    rw [lagging.eq_first_of_isGenesis (Participant.mem_storedAnd.mpr (.inr mem)) genesis,
      lagging.eq_first_of_isGenesis held otherGenesis]
  accepted := by
    intro block mem notGenesis parent held linked
    rcases mem_chainBlocks.mp mem with ⟨height, within, rfl⟩
    cases height with
    | zero =>
        rw [lagging.hasChain.first] at notGenesis
        cases notGenesis
    | succ below =>
        rw [lagging.hasChain.linked below within] at linked
        rw [lagging.eq_of_hash held (Nat.le_of_succ_le within) linked]
        apply (Block.checkOn_eq_ok_iff_validOn lagging.behindReachable.honest.answers).mpr
        exact (lagging.valid_chain within).2

/-- The one ahead knows the blocks of the chain, so it has nothing to say when it receives one. -/
theorem silent_ahead {participant : Participant σ} (isLedger : participant.ledger = ahead.ledger)
    {height : Nat} (within : height ≤ top.toNat) (sender : PeerId) (now : Timestamp) :
    (participant.receiveBlock (chain height) (some sender) now).sent = [] ∧
      (participant.receiveBlock (chain height) (some sender) now).participant.ledger =
        ahead.ledger := by
  rcases lagging.exists_entry_ahead within with ⟨entry, found, isBlock⟩
  have known : participant.ledger.tree.contains (chain height).hash = true := by
    rw [isLedger]
    exact BlockTree.contains_iff.mpr ⟨entry, found⟩
  have nothing := Ledger.deliver_of_known known now
  have notWaiting := lagging.aheadReachable.custody.not_waiting (BlockTree.mem_of_lookup found)
  rw [isBlock] at notWaiting
  have outcome : (participant.ledger.deliver (chain height) now).outcome = .ok [] := by
    rw [nothing]
  constructor
  · rw [Participant.sent_receiveBlock_of_none outcome, Participant.askForAncestor_eq, nothing,
      isLedger, OrphanBuffer.lineStart_of_not_contains notWaiting, if_pos (.inr rfl)]
  · simp only [Participant.receiveBlock, nothing]
    exact isLedger

/-! ## The status -/

/-- What the one behind lacks begins within the chain, and it may ask for all of it at once. -/
theorem nextWanted_le :
    behind.nextWanted peer ≤ top.toNat ∧
      top.toNat + 1 - behind.nextWanted peer ≤ behind.syncLimit.count.toNat := by
  have unasked : behind.peers.requestedThrough? peer = none := by
    simp only [Peers.requestedThrough?, lagging.unheard, Option.bind_none]
  rcases lagging.lags with ⟨empty, few⟩ | ⟨best, isBest, _, below, few⟩
  · rw [← lagging.behindReachable.headed.head_eq_none_iff] at empty
    simp only [Participant.nextWanted, BlockTree.bestNumber?, empty, unasked, Option.map_none,
      Word64.above_none, Nat.max_self]
    omega
  · rw [UInt64.lt_iff_toNat_lt] at below
    simp only [Participant.nextWanted, isBest, unasked, Word64.above_none, Word64.above_some]
    omega

/-- The one behind asks for all numbers from some one on. -/
theorem sent_status (now : Timestamp) :
    ∃ first ≤ top,
      (behind.receiveStatus ⟨peer, ahead.network, top⟩ (some peer) now).2 =
        (Participant.numbers first top).map fun number => ⟨.peer peer, .blockByNumber number⟩ := by
  rcases lagging.nextWanted_le with ⟨within, few⟩
  have answer := behind.receiveStatus_eq peer ⟨peer, ahead.network, top⟩ now lagging.sameNetwork
  have length : behind.batchLength peer top = top.toNat + 1 - behind.nextWanted peer :=
    Nat.min_eq_left few
  refine ⟨.ofNat (behind.nextWanted peer), Word64.ofNat_le within, ?_⟩
  simp only [lagging.unheard, Peers.announced, length] at answer
  rw [answer.1, Participant.numbers_eq, Word64.toNat_ofNat_of_le within, List.map_map]
  rfl

end Lagging

end HeaviestChain
