import HeaviestChain.Proofs.Gossip.Lagging

/-!
# Fetching a chain

What happens to a participant that is behind while it receives blocks of the chain, in any order and
any number of times (`Fetching`).  Every block that it received is connected, or it waits and the
block before it is not connected.  When a block arrives that has to wait, the participant asks for
the block of the chain below the line of those that wait, unless that one has been received too
(`Fetching.wanted_deliver`).

If everything that is wanted has been received, then by induction on the height no received block
waits, and down from the last block the whole chain is connected (`Fetching.caughtUp`).
-/

namespace HeaviestChain

open BlockTree (lookup)
open Ledger (Gathers)

variable {σ : Type}

/-- The block at a height of the chain is still needed: it is the last one, or the one above waits
for it. -/
def Wanted (chain : Nat → Block) (top : UInt64) (ledger : Ledger σ) (height : Nat) : Prop :=
  height = top.toNat ∨
    height < top.toNat ∧ ledger.orphans.contains (chain (height + 1)).hash = true

theorem Wanted.le {chain : Nat → Block} {top : UInt64} {ledger : Ledger σ} {height : Nat}
    (wanted : Wanted chain top ledger height) : height ≤ top.toNat := by
  rcases wanted with rfl | ⟨within, _⟩
  · exact Nat.le_refl _
  · exact Nat.le_of_lt within

variable [StateEngine σ]

/-- The ledger of the one behind, when some blocks of the chain have been delivered to it. -/
structure Fetching (behind : Participant σ) (chain : Nat → Block) (top : UInt64)
    (delivered : List Block) (ledger : Ledger σ) : Prop where
  gathers : Gathers behind.ledger.engine (· ∈ behind.storedAnd (chainBlocks chain top))
    (chainBlocks chain top) delivered ledger []
  waits : ∀ parent, ∀ orphan ∈ ledger.orphans.filedUnder parent, orphan.block ∈ delivered
  headed : ledger.tree.Headed

/-- A ledger has the chain of a participant, nothing waits, and its head is at least as heavy. -/
structure CaughtUp (ahead : Participant σ) (chain : Nat → Block) (top : UInt64) (ledger : Ledger σ) :
    Prop where
  stored : ∀ height ≤ top.toNat, ledger.tree.block? (chain height).hash = some (chain height)
  noOrphans : ledger.orphans.isEmpty = true
  heavy : ∃ weight weight', ahead.ledger.tree.bestWeight? = some weight ∧
    ledger.tree.bestWeight? = some weight' ∧ weight ≤ weight'

variable {answer : Root → ExecutionContext → List Transaction → Root} {peer : PeerId}
  {ahead behind : Participant σ} {chain : Nat → Block} {top : UInt64}
  (lagging : Lagging answer peer ahead behind chain top)

include lagging

theorem Lagging.fetching : Fetching behind chain top [] behind.ledger := by
  have nothing : ∀ parent, behind.ledger.orphans.filedUnder parent = [] := by
    intro parent
    rw [List.eq_nil_iff_forall_not_mem]
    intro orphan filed
    have held := lagging.behindReachable.custody.wellFormed.contains_iff.mpr
      ⟨parent, orphan, filed, rfl⟩
    rw [OrphanBuffer.isEmpty_iff.mp lagging.noOrphans] at held
    cases held
  refine ⟨?_, ?_, lagging.behindReachable.headed⟩
  · constructor
    · exact lagging.behindReachable.custody
    · exact lagging.behindReachable.grown
    · refine ⟨?_, ?_, List.forall_mem_nil _⟩
      · intro entry stored
        exact Participant.mem_storedAnd.mpr (.inl ⟨entry, stored, rfl⟩)
      · intro parent
        rw [nothing parent]
        exact List.forall_mem_nil _
    · exact List.forall_mem_nil _
    · exact (card_chainBlocks_le chain top).trans lagging.room
    · exact .refl
  · intro parent
    rw [nothing parent]
    exact List.forall_mem_nil _

namespace Fetching

variable {delivered : List Block} {ledger : Ledger σ}
  (fetching : Fetching behind chain top delivered ledger)

include fetching

/-- A block that was delivered is connected, or it waits and the one before is not connected. -/
theorem stored_or_waits {height : Nat} (within : height ≤ top.toNat)
    (mem : chain height ∈ delivered) :
    ledger.tree.block? (chain height).hash = some (chain height) ∨
      ∃ below, height = below + 1 ∧ ledger.tree.contains (chain below).hash = false ∧
        ledger.orphans.contains (chain height).hash = true := by
  rcases fetching.gathers.connected_or_waits lagging.supply (chain_mem within) mem with
    connected | ⟨notGenesis, missing, waits⟩
  · exact .inl connected
  · right
    cases height with
    | zero =>
        rw [lagging.hasChain.first] at notGenesis
        cases notGenesis
    | succ below =>
        rw [lagging.hasChain.linked below within] at missing
        refine ⟨below, rfl, missing, ?_⟩
        rcases OrphanBuffer.mem_waitingFor.mp waits with ⟨orphan, filed, isBlock⟩
        rw [← isBlock]
        exact fetching.gathers.custody.wellFormed.contains_iff.mpr ⟨_, orphan, filed, rfl⟩

/-- Only blocks above the first one wait. -/
theorem exists_of_filed {parent : BlockHash} {orphan : Orphan}
    (filed : orphan ∈ ledger.orphans.filedUnder parent) :
    ∃ height < top.toNat, orphan.block = chain (height + 1) ∧ parent = (chain height).hash := by
  have custody := fetching.gathers.custody
  have held := custody.wellFormed.contains_iff.mpr ⟨parent, orphan, filed, rfl⟩
  have isParent := custody.wellFormed.filed parent orphan filed
  have mem := fetching.waits parent orphan filed
  rcases mem_chainBlocks.mp (fetching.gathers.comprises.buffered parent orphan filed) with
    ⟨height, within, isBlock⟩
  rw [← isBlock] at held isParent mem
  rcases fetching.stored_or_waits lagging within mem with connected | ⟨below, rfl, _⟩
  · rcases BlockTree.block?_eq_some_iff.mp connected with ⟨entry, found, same⟩
    rw [← same, custody.not_waiting (BlockTree.mem_of_lookup found)] at held
    cases held
  · rw [lagging.hasChain.linked below within] at isParent
    exact ⟨below, within, isBlock.symm, isParent.symm⟩

theorem exists_of_contains {hash : BlockHash} (held : ledger.orphans.contains hash = true) :
    ∃ height < top.toNat, hash = (chain (height + 1)).hash ∧ chain (height + 1) ∈ delivered := by
  rcases fetching.gathers.custody.wellFormed.contains_iff.mp held with ⟨parent, orphan, filed, rfl⟩
  rcases fetching.exists_of_filed lagging filed with ⟨height, within, isBlock, _⟩
  have mem := fetching.waits parent orphan filed
  rw [isBlock] at mem ⊢
  exact ⟨height, within, rfl, mem⟩

/-- A line of waiting blocks goes down the chain. -/
theorem exists_of_leads {child parent : BlockHash}
    (leads : OrphanBuffer.Leads ledger.orphans.parents child parent) :
    ∃ height < top.toNat, child = (chain (height + 1)).hash ∧ parent = (chain height).hash := by
  rcases fetching.gathers.custody.wellFormed.exists_of_leads leads with ⟨orphan, filed, rfl, _⟩
  rcases fetching.exists_of_filed lagging filed with ⟨height, within, isBlock, isParent⟩
  rw [isBlock]
  exact ⟨height, within, rfl, isParent⟩

/-- The line of waiting blocks below a block of the chain starts at a block of the chain that does
not wait; all between the two do. -/
theorem exists_lineStart {height : Nat} (within : height ≤ top.toNat) :
    ∃ lower ≤ height,
      OrphanBuffer.lineStart ledger.orphans.parents (chain height).hash = (chain lower).hash ∧
      ledger.orphans.contains (chain lower).hash = false ∧
      ∀ between, lower < between → between ≤ height →
        ledger.orphans.contains (chain between).hash = true := by
  have descends : ∀ child parent, OrphanBuffer.Leads ledger.orphans.parents child parent →
      ahead.heightOf parent < ahead.heightOf child := by
    intro child parent leads
    rcases fetching.exists_of_leads lagging leads with ⟨below, belowWithin, rfl, rfl⟩
    rw [lagging.heightOf_chain (Nat.le_of_lt belowWithin), lagging.heightOf_chain belowWithin]
    exact Nat.lt_succ_self below
  rcases OrphanBuffer.lineStart_spec descends (chain height).hash with ⟨line, missing⟩
  generalize OrphanBuffer.lineStart ledger.orphans.parents (chain height).hash = start
    at line missing ⊢
  have onChain : ∃ lower ≤ height, start = (chain lower).hash ∧
      ∀ between, lower < between → between ≤ height →
        ledger.orphans.contains (chain between).hash = true := by
    clear missing
    induction line with
    | refl =>
        refine ⟨height, Nat.le_refl _, rfl, ?_⟩
        intro between above upTo
        omega
    | tail _ leads ih =>
        rcases ih with ⟨upper, upTo, rfl, waiting⟩
        rcases fetching.exists_of_leads lagging leads with ⟨lower, lowerWithin, same, rfl⟩
        have next := lagging.height_eq_of_hash (upTo.trans within) lowerWithin same
        refine ⟨lower, by omega, rfl, ?_⟩
        intro between above betweenUpTo
        by_cases here : between = upper
        · rw [here, OrphanBuffer.contains, Table.contains, leads]
          rfl
        · exact waiting between (by omega) betweenUpTo
  rcases onChain with ⟨lower, upTo, rfl, waiting⟩
  refine ⟨lower, upTo, rfl, ?_, waiting⟩
  rw [OrphanBuffer.contains, Table.contains, missing]
  rfl

/-! ## Another block arrives -/

theorem deliver {height : Nat} (within : height ≤ top.toNat) (now : Timestamp) :
    Fetching behind chain top (chain height :: delivered)
        (ledger.deliver (chain height) now).ledger ∧
      ∃ connected, (ledger.deliver (chain height) now).outcome = .ok connected := by
  have steady := lagging.behindReachable.honest.answers.steady
  rcases fetching.gathers.deliver lagging.supply steady (chain_mem within) now with ⟨gathers, outcome⟩
  refine ⟨⟨gathers, ?_, ?_⟩, outcome⟩
  · have earlier : Ledger.Comprises (fun _ => True) (· ∈ chain height :: delivered) ledger [] := by
      refine ⟨fun _ _ => trivial, ?_, List.forall_mem_nil _⟩
      intro parent orphan filed
      exact List.mem_cons_of_mem _ (fetching.waits parent orphan filed)
    exact (Ledger.comprises_deliver (fun _ _ _ => trivial) fetching.gathers.custody.wellFormed earlier
      (List.mem_cons_self ..) now).buffered
  · exact Ledger.headed_onward (ledger.onward_perform (.deliver (chain height) now)) fetching.headed

/-- What the one behind sends when it has received a block of the chain: the blocks that are now
connected, or a request for a block further down the chain, or nothing. -/
inductive Response (chain : Nat → Block) (top : UInt64) (peer : PeerId) (height : Nat)
    (before after : Ledger σ) : List Outbound → Prop
  | connects {connected : List Block} (fromChain : ∀ block ∈ connected, block ∈ chainBlocks chain top)
      (grows : after.tree.count = before.tree.count + connected.length)
      (notWaiting : after.orphans.contains (chain height).hash = false) :
      Response chain top peer height before after
        (Participant.fanOut (some peer) (connected.map .block))
  | asks {lower : Nat} (below : lower < height) (same : after.tree.count = before.tree.count)
      (missing : after.orphans.contains (chain lower).hash = false)
      (waiting : ∀ between, lower < between → between ≤ height →
        after.orphans.contains (chain between).hash = true) :
      Response chain top peer height before after [⟨.peer peer, .blockByHash (chain lower).hash⟩]
  | silent (same : after.tree.count = before.tree.count)
      (notWaiting : after.orphans.contains (chain height).hash = false) :
      Response chain top peer height before after []

theorem response {participant : Participant σ} (isLedger : participant.ledger = ledger)
    {height : Nat} (within : height ≤ top.toNat) (now : Timestamp) :
    Response chain top peer height ledger (ledger.deliver (chain height) now).ledger
      (participant.receiveBlock (chain height) (some peer) now).sent := by
  subst isLedger
  rcases fetching.deliver lagging within now with ⟨after, connected, outcome⟩
  have stored := Ledger.stored_deliver participant.ledger (chain height) now outcome
  have grows := Ledger.count_deliver participant.ledger (chain height) now outcome
  cases connected with
  | nil =>
      rw [Participant.sent_receiveBlock_of_none outcome, Participant.askForAncestor_eq]
      rcases after.exists_lineStart lagging within with ⟨lower, upTo, isStart, missing, waiting⟩
      simp only [isStart]
      split
      case isTrue here =>
          refine .silent grows ?_
          rcases here with null | same
          · -- only the first block of the chain may have the null hash, and it does not wait
            rw [← Bool.not_eq_true]
            intro waits
            rcases after.exists_of_contains lagging waits with ⟨below, belowWithin, same, _⟩
            apply lagging.nonzero (below + 1) belowWithin (Nat.succ_pos _)
            rw [← same, null]
          · rw [← same]
            exact missing
      case isFalse elsewhere =>
          have different : lower ≠ height := by
            rintro rfl
            exact elsewhere (.inr rfl)
          exact .asks (by omega) grows missing waiting
  | cons first others =>
      rw [Participant.sent_receiveBlock_of_some outcome]
      refine .connects ?_ grows ?_
      · exact Ledger.offered_of_connected _ _ _ fetching.gathers.grown
          fetching.gathers.custody.wellFormed fetching.gathers.comprises.buffered (chain_mem within)
          outcome
      · -- the block is among those that were connected, so it does not wait
        have here : chain height ∈ first :: others := by
          rcases Ledger.mem_connected _ _ _ outcome with none | here
          · cases none
          · exact here
        have isStored : chain height ∈
            (participant.ledger.deliver (chain height) now).ledger.tree.stored.map (·.block) := by
          rw [stored, List.mem_append, List.mem_reverse]
          exact .inl here
        rcases List.mem_map.mp isStored with ⟨entry, entryMem, isBlock⟩
        have notWaiting := after.gathers.custody.not_waiting entryMem
        rw [isBlock] at notWaiting
        exact notWaiting

/-- What is wanted after a block has arrived was wanted before, or has been delivered, or is asked
for. -/
theorem wanted_deliver {participant : Participant σ} (isLedger : participant.ledger = ledger)
    {height : Nat} (within : height ≤ top.toNat) (now : Timestamp) {other : Nat}
    (wanted : Wanted chain top (ledger.deliver (chain height) now).ledger other) :
    Wanted chain top ledger other ∨ chain other ∈ chain height :: delivered ∨
      (⟨.peer peer, .blockByHash (chain other).hash⟩ : Outbound) ∈
        (participant.receiveBlock (chain height) (some peer) now).sent := by
  have after := (fetching.deliver lagging within now).1
  have response := fetching.response lagging isLedger within now
  have wellFormed := fetching.gathers.custody.wellFormed
  rcases wanted with last | ⟨otherWithin, waits⟩
  · exact .inl (.inl last)
  have known : Ledger.Comprises (fun _ => True)
      (fun block => ledger.orphans.contains block.hash = true ∨ block = chain height) ledger [] := by
    refine ⟨fun _ _ => trivial, ?_, List.forall_mem_nil _⟩
    intro parent orphan filed
    exact .inl (wellFormed.contains_iff.mpr ⟨parent, orphan, filed, rfl⟩)
  have knownAfter := Ledger.comprises_deliver (fun _ _ _ => trivial) wellFormed known (.inr rfl) now
  rcases after.gathers.custody.wellFormed.contains_iff.mp waits with ⟨parent, orphan, filed, same⟩
  rcases knownAfter.buffered parent orphan filed with earlier | here
  · rw [same] at earlier
    exact .inl (.inr ⟨otherWithin, earlier⟩)
  · -- the block that has arrived waits now
    rw [here] at same
    have next := lagging.height_eq_of_hash within otherWithin same
    subst next
    right
    generalize (participant.receiveBlock _ _ now).sent = sent at response ⊢
    cases response with
    | connects _ _ notWaiting =>
        rw [notWaiting] at waits
        cases waits
    | silent _ notWaiting =>
        rw [notWaiting] at waits
        cases waits
    | @asks lower below _ missing waiting =>
        by_cases buffered :
            (ledger.deliver (chain (other + 1)) now).ledger.orphans.contains (chain other).hash = true
        · left
          rcases after.exists_of_contains lagging buffered with ⟨lower', lowerWithin, same', mem⟩
          have equal := lagging.height_eq_of_hash (Nat.le_of_lt otherWithin) lowerWithin same'
          rw [← congrArg chain equal] at mem
          exact mem
        · right
          have isLower : lower = other := by
            by_contra different
            exact buffered (waiting other (by omega) (by omega))
          rw [isLower]
          exact List.mem_singleton_self _

/-! ## Nothing is missing -/

theorem stored_of_delivered
    (complete : ∀ height, Wanted chain top ledger height → chain height ∈ delivered) {height : Nat}
    (within : height ≤ top.toNat) (mem : chain height ∈ delivered) :
    ledger.tree.block? (chain height).hash = some (chain height) := by
  induction height with
  | zero =>
      rcases fetching.stored_or_waits lagging within mem with connected | ⟨_, isAbove, _⟩
      · exact connected
      · cases isAbove
  | succ height ih =>
      rcases fetching.stored_or_waits lagging within mem with connected | ⟨below, isAbove, missing, held⟩
      · exact connected
      · -- the block waits, so the one below was delivered too, and is connected
        cases isAbove
        have connected := ih (Nat.le_of_succ_le within) (complete height (.inr ⟨within, held⟩))
        rcases BlockTree.block?_eq_some_iff.mp connected with ⟨entry, found, _⟩
        rw [BlockTree.contains_eq_false_iff, found] at missing
        cases missing

theorem stored_below {height : Nat} (within : height < top.toNat)
    (stored : ledger.tree.block? (chain (height + 1)).hash = some (chain (height + 1))) :
    ledger.tree.block? (chain height).hash = some (chain height) := by
  rcases BlockTree.block?_eq_some_iff.mp stored with ⟨entry, found, isBlock⟩
  rcases fetching.gathers.grown.first_or_child (BlockTree.mem_of_lookup found) with
    ⟨_, genesis, _⟩ | ⟨parent, linked, _⟩
  · rw [isBlock, (lagging.valid_chain within).1] at genesis
    cases genesis
  · rw [isBlock, lagging.hasChain.linked height within] at linked
    have held := fetching.gathers.comprises.stored parent (BlockTree.mem_of_lookup linked)
    have same := lagging.eq_of_hash held (Nat.le_of_lt within) (BlockTree.hash_of_lookup linked)
    exact BlockTree.block?_eq_some_iff.mpr ⟨parent, linked, same⟩

/-- The blocks of the chain weigh the same in both trees. -/
theorem lookup_eq_ahead (stored : ∀ height ≤ top.toNat,
      ledger.tree.block? (chain height).hash = some (chain height))
    {height : Nat} (within : height ≤ top.toNat) :
    lookup ledger.tree.stored (chain height).hash =
      lookup ahead.ledger.tree.stored (chain height).hash := by
  have grown := fetching.gathers.grown
  have grownAhead := lagging.aheadReachable.grown
  induction height with
  | zero =>
      rcases BlockTree.block?_eq_some_iff.mp (stored 0 within) with ⟨⟨_, weight⟩, found, rfl⟩
      rcases lagging.exists_entry_ahead within with ⟨⟨_, weight'⟩, found', rfl⟩
      have genesis := lagging.hasChain.first
      rcases grown.first_or_child (BlockTree.mem_of_lookup found) with
        ⟨_, _, isWeight⟩ | ⟨_, _, admitted, _⟩
      · rcases grownAhead.first_or_child (BlockTree.mem_of_lookup found') with
          ⟨_, _, isWeight'⟩ | ⟨_, _, admitted, _⟩
        · simp only at isWeight isWeight'
          rw [found, found', isWeight, isWeight']
        · rw [admitted.1] at genesis
          cases genesis
      · rw [admitted.1] at genesis
        cases genesis
  | succ height ih =>
      have below := ih (Nat.le_of_succ_le within)
      rcases BlockTree.block?_eq_some_iff.mp (stored (height + 1) within) with
        ⟨⟨_, weight⟩, found, rfl⟩
      rcases lagging.exists_entry_ahead within with ⟨⟨_, weight'⟩, found', rfl⟩
      have notGenesis := (lagging.valid_chain within).1
      rcases grown.first_or_child (BlockTree.mem_of_lookup found) with
        ⟨_, genesis, _⟩ | ⟨parent, linked, _, isWeight⟩
      · rw [notGenesis] at genesis
        cases genesis
      · rcases grownAhead.first_or_child (BlockTree.mem_of_lookup found') with
          ⟨_, genesis, _⟩ | ⟨parent', linked', _, isWeight'⟩
        · rw [notGenesis] at genesis
          cases genesis
        · rw [lagging.hasChain.linked height within] at linked linked'
          rw [below, linked'] at linked
          cases linked
          simp only at isWeight isWeight'
          rw [found, found', isWeight, isWeight']

theorem orphans_isEmpty (stored : ∀ height ≤ top.toNat,
      ledger.tree.block? (chain height).hash = some (chain height)) :
    ledger.orphans.isEmpty = true := by
  have custody := fetching.gathers.custody
  apply OrphanBuffer.isEmpty_iff.mpr
  intro hash
  rw [← Bool.not_eq_true]
  intro held
  rcases fetching.exists_of_contains lagging held with ⟨height, within, rfl, _⟩
  rcases BlockTree.block?_eq_some_iff.mp (stored (height + 1) within) with ⟨entry, found, same⟩
  rw [← same, custody.not_waiting (BlockTree.mem_of_lookup found)] at held
  cases held

/-- The head of the one behind weighs no less than the last block of the chain. -/
theorem exists_heavy (stored : ∀ height ≤ top.toNat,
      ledger.tree.block? (chain height).hash = some (chain height)) :
    ∃ weight weight', ahead.ledger.tree.bestWeight? = some weight ∧
      ledger.tree.bestWeight? = some weight' ∧ weight ≤ weight' := by
  rcases lagging.exists_best_ahead with ⟨best, found, isWeight⟩
  rw [← fetching.lookup_eq_ahead lagging stored (Nat.le_refl _)] at found
  have mem := BlockTree.mem_of_lookup found
  have headed := fetching.headed
  cases isHeaviest : BlockTree.heaviest? ledger.tree.stored with
  | none =>
      rw [BlockTree.heaviest?_eq_none_iff] at isHeaviest
      rw [isHeaviest] at mem
      cases mem
  | some heavier =>
      rw [BlockTree.Headed, isHeaviest] at headed
      refine ⟨best.totalWeight, heavier.totalWeight, isWeight, ?_,
        BlockTree.le_of_heaviest? isHeaviest mem⟩
      rw [BlockTree.bestWeight?, headed]
      rfl

/-- When all that is wanted has been delivered, the one behind has caught up. -/
theorem caughtUp (complete : ∀ height, Wanted chain top ledger height → chain height ∈ delivered) :
    CaughtUp ahead chain top ledger := by
  have stored : ∀ height ≤ top.toNat,
      ledger.tree.block? (chain height).hash = some (chain height) := by
    intro height within
    induction within using Nat.decreasingInduction with
    | self =>
        exact fetching.stored_of_delivered lagging complete (Nat.le_refl _) (complete _ (.inl rfl))
    | of_succ height below ih => exact fetching.stored_below lagging below ih
  exact ⟨stored, fetching.orphans_isEmpty lagging stored, fetching.exists_heavy lagging stored⟩

end Fetching

end HeaviestChain
