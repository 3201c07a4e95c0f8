import HeaviestChain.Proofs.Ledger.Custody
import HeaviestChain.Proofs.Ledger.OrderIndependence

/-!
# Gathering a stock of blocks

Valid blocks are delivered to a ledger that has had a past of its own: its tree may hold other
blocks, and orphans may have been left behind under parents that are connected.  If the state engine
does not fail any more, then every block that is delivered from now on is connected or waits for a
parent that is not connected (`Gathers`).  A block of the stock is never refused, because whatever
block the ledger can hold under the parent's hash accepts it (`Supply`).
-/

namespace HeaviestChain

namespace Ledger

open BlockTree (Grown lookup)
open StateEngine (Asked Steady)

variable {σ : Type} [StateEngine σ]

/-- What is assumed of a stock, when the ledger may hold the blocks `held`: its blocks are known by
their hashes, its genesis block is the only one, and each other block follows from its parent. -/
structure Supply (engine : σ) (held : Block → Prop) (stock : Finset Block) : Prop where
  within : ∀ block ∈ stock, held block
  sound : ∀ block ∈ stock, block.checkBody = .ok ()
  distinct : ∀ block ∈ stock, ∀ other, held other → other.hash = block.hash → other = block
  single : ∀ block ∈ stock, block.isGenesis = true →
    ∀ other, held other → other.isGenesis = true → other = block
  accepted : ∀ block ∈ stock, block.isGenesis = false →
    ∀ parent, held parent → parent.hash = block.parentHash → (block.checkOn parent engine).1 = .ok ()

/-- What is known of a ledger and its work-list while blocks of a stock are delivered. -/
structure Gathers (engine : σ) (held : Block → Prop) (stock : Finset Block)
    (delivered : List Block) (ledger : Ledger σ) (queue : List Block) : Prop where
  custody : Custody ledger queue
  grown : Grown Admitted ledger.tree.stored
  comprises : Comprises held (· ∈ stock) ledger queue
  covered : ∀ block ∈ delivered,
    block ∈ queue ∨ Placed engine ledger.tree ledger.orphans block
  room : stock.card ≤ ledger.orphans.capacity
  asked : Asked engine ledger.engine

namespace Gathers

variable {engine : σ} {held : Block → Prop} {stock : Finset Block} {delivered queue : List Block}
  {ledger : Ledger σ} {block : Block}

/-- The first block of the list is connected already, waits for its parent, or is connected. -/
inductive Look (ledger : Ledger σ) (block : Block) (now : Timestamp) : Admission σ → Prop
  | known (contained : ledger.tree.contains block.hash = true) :
      Look ledger block now { verdict := .settled, events := [], ledger }
  | parked (notGenesis : block.isGenesis = false)
      (missing : ledger.tree.contains block.parentHash = false) :
      Look ledger block now (ledger.park block now)
  | joined {engine' : σ} (joins : Joins ledger.tree block) (asked : Asked ledger.engine engine') :
      Look ledger block now
        (settle { ledger with engine := engine', tree := (ledger.tree.attach block).1 } block
          (ledger.tree.attach block).2.change?)

section Turn

variable (supply : Supply engine held stock) (steady : Steady engine)
  (gathers : Gathers engine held stock delivered ledger (block :: queue))

include supply steady gathers

theorem look (now : Timestamp) : Look ledger block now (ledger.examine block now) := by
  have mem := gathers.comprises.queued block (List.mem_cons_self ..)
  -- whatever block is stored under the parent's hash accepts the block
  have accepts : block.isGenesis = false → ∀ parent,
      ledger.tree.block? block.parentHash = some parent →
        (block.checkOn parent ledger.engine).1 = .ok () := by
    intro notGenesis parent linked
    rcases BlockTree.block?_eq_some_iff.mp linked with ⟨entry, found, rfl⟩
    have parentHeld := gathers.comprises.stored entry (BlockTree.mem_of_lookup found)
    rw [Block.checkOn_eq_of_steady steady gathers.asked]
    exact supply.accepted block mem notGenesis _ parentHeld (BlockTree.hash_of_lookup found)
  have examination := ledger.examination block now
  generalize ledger.examine block now = admission at examination ⊢
  cases examination with
  | known contained => exact .known contained
  | unsound _ flawed =>
      rw [supply.sound block mem] at flawed
      cases flawed
  | secondGenesis unknown _ genesis nonempty =>
      -- the first block of the tree is the only genesis block there is
      rcases gathers.grown.exists_other_genesis nonempty unknown with ⟨first, stored, isFirst, other⟩
      have held := gathers.comprises.stored first stored
      exact absurd (supply.single block mem genesis _ held isFirst) other
  | first unknown sound genesis empty =>
      have joins := Joins.of_empty unknown sound genesis empty
      simp only [ledger.connect_eq joins]
      exact .joined joins .refl
  | parentless _ _ notGenesis missing =>
      apply Look.parked notGenesis
      simpa [BlockTree.block?, BlockTree.contains] using missing
  | @valid parent engine' unknown sound notGenesis linked accepted =>
      have joins := Joins.of_accepted unknown notGenesis linked accepted
      have asked := Block.asked_checkOn block parent ledger.engine
      rw [accepted] at asked
      simp only [connect_eq { ledger with engine := engine' } joins]
      exact .joined joins asked
  | faulted _ _ notGenesis linked failed =>
      have accepted := accepts notGenesis _ linked
      rw [failed] at accepted
      cases accepted
  | invalid _ _ notGenesis linked refused =>
      have accepted := accepts notGenesis _ linked
      rw [refused] at accepted
      cases accepted

omit steady in
/-- There is room for the block, if it is not buffered already. -/
theorem waits_hold (now : Timestamp) :
    block ∈ (ledger.orphans.hold block now).1.waitingFor block.parentHash := by
  have mem := gathers.comprises.queued block (List.mem_cons_self ..)
  have wellFormed := gathers.custody.wellFormed
  apply OrphanBuffer.mem_waitingFor.mpr
  by_cases known : ledger.orphans.contains block.hash = true
  · rw [OrphanBuffer.hold_eq_self (.inl known)]
    rcases wellFormed.contains_iff.mp known with ⟨parent, orphan, filed, same⟩
    have orphanHeld := supply.within _ (gathers.comprises.buffered parent orphan filed)
    have equal := supply.distinct block mem _ orphanHeld same
    have isParent := wellFormed.filed parent orphan filed
    rw [equal] at isParent
    rw [isParent]
    exact ⟨orphan, filed, equal⟩
  · rw [Bool.not_eq_true] at known
    have room := Nat.lt_of_lt_of_le
      (wellFormed.size_lt_card gathers.comprises.buffered mem known) gathers.room
    exact ⟨_, (OrphanBuffer.mem_filedUnder_hold known room).mpr (.inr ⟨rfl, rfl⟩), rfl⟩

/-- The block that is looked at has its place afterwards, and the others keep theirs or are put on
the list. -/
theorem placed {now : Timestamp} {next : Ledger σ × List Block}
    (turn : Turn now (ledger, block :: queue) next) :
    (∀ other ∈ delivered, other ∈ next.2 ∨ Placed engine next.1.tree next.1.orphans other) ∧
      Asked engine next.1.engine := by
  have mem := gathers.comprises.queued block (List.mem_cons_self ..)
  have wellFormed := gathers.custody.wellFormed
  have look := gathers.look supply steady now
  -- a block on the list is the first one or stays on it
  have cases {other : Block} (offered : other ∈ delivered) : other = block ∨ other ∈ queue ∨
      Placed engine ledger.tree ledger.orphans other := by
    rcases gathers.covered other offered with listed | placed
    · simp only [List.mem_cons] at listed
      rcases listed with here | later
      · exact .inl here
      · exact .inr (.inl later)
    · exact .inr (.inr placed)
  cases turn with
  | settled verdict =>
      generalize ledger.examine block now = admission at look verdict ⊢
      cases look with
      | joined _ _ => cases verdict
      | known contained =>
          refine ⟨?_, gathers.asked⟩
          intro other offered
          rcases cases offered with rfl | later | placed
          · exact .inr (.connected contained)
          · exact .inl later
          · exact .inr placed
      | parked notGenesis missing =>
          refine ⟨?_, gathers.asked⟩
          intro other offered
          rcases cases offered with rfl | later | placed
          · exact .inr (.waiting notGenesis missing (gathers.waits_hold supply now))
          · exact .inl later
          · exact .inr (placed.hold block now)
  | connected verdict =>
      generalize ledger.examine block now = admission at look verdict ⊢
      cases look with
      | known _ => cases verdict
      | parked _ _ => cases verdict
      | joined joins asked =>
          rcases joins.exists_stored_attach with ⟨weight, added⟩
          refine ⟨?_, gathers.asked.trans asked⟩
          intro other offered
          simp only [List.mem_append]
          rcases cases offered with rfl | later | placed
          · exact .inr (.connected ((BlockTree.contains_of_stored_cons added).mpr (.inl rfl)))
          · exact .inl (.inl later)
          · rcases placed.connect added joins.unknown wellFormed with released | placed
            · exact .inl (.inr released)
            · exact .inr placed
  | faulted verdict =>
      generalize ledger.examine block now = admission at look verdict ⊢
      cases look with
      | known _ => cases verdict
      | parked _ _ => cases verdict
      | joined _ _ => cases verdict

theorem turn {now : Timestamp} {next : Ledger σ × List Block}
    (turn : Turn now (ledger, block :: queue) next) :
    Gathers engine held stock delivered next.1 next.2 := by
  have shift := turn.shift
  rcases gathers.placed supply steady turn with ⟨covered, asked⟩
  exact
    { custody := shift.custody gathers.custody
      grown := shift.grown gathers.grown
      comprises := shift.comprises (fun other mem _ => supply.within other mem)
        gathers.custody.wellFormed gathers.comprises
      covered
      room := by
        rw [shift.capacity_eq]
        exact gathers.room
      asked }

end Turn

/-! ## Deliveries -/

section Deliver

variable (supply : Supply engine held stock) (steady : Steady engine)

include supply steady

/-- A work-list without faults comes to its end. -/
theorem cascade {connected : List Block} {now : Timestamp}
    (gathers : Gathers engine held stock delivered ledger queue) :
    Gathers engine held stock delivered (ledger.cascade now queue connected).ledger [] ∧
      ∃ all, (ledger.cascade now queue connected).outcome = .ok all := by
  fun_induction Ledger.cascade ledger now queue connected with
  | case1 => exact ⟨gathers, _, rfl⟩
  | case2 _ _ _ _ _ verdict _ ih => exact ih (gathers.turn supply steady (.settled verdict))
  | case3 _ _ _ _ _ verdict _ _ ih => exact ih (gathers.turn supply steady (.connected verdict))
  | case4 ledger connected block queue admission fault verdict =>
      have look := gathers.look supply steady now
      simp only [admission] at verdict
      generalize ledger.examine block now = admission at look verdict
      cases look with
      | known _ => cases verdict
      | parked _ _ => cases verdict
      | joined _ _ => cases verdict

theorem deliver (gathers : Gathers engine held stock delivered ledger []) (mem : block ∈ stock)
    (now : Timestamp) :
    Gathers engine held stock (block :: delivered) (ledger.deliver block now).ledger [] ∧
      ∃ connected, (ledger.deliver block now).outcome = .ok connected := by
  simp only [Ledger.deliver]
  split
  case isTrue known =>
      refine ⟨?_, _, rfl⟩
      refine { gathers with covered := ?_ }
      simp only [List.forall_mem_cons]
      exact ⟨.inr (.connected known), gathers.covered⟩
  case isFalse unknown =>
      have offered : Gathers engine held stock (block :: delivered) ledger [block] :=
        { gathers with
          custody :=
            { gathers.custody with
              queued := List.forall_mem_nil _
              distinct := List.nodup_singleton _ }
          comprises :=
            { gathers.comprises with queued := List.forall_mem_singleton.mpr mem }
          covered := by
            simp only [List.forall_mem_cons, List.mem_singleton, true_or, true_and]
            intro other earlier
            rcases gathers.covered other earlier with listed | placed
            · cases listed
            · exact .inr placed }
      exact offered.cascade supply steady

theorem deliverAll {deliveries : List (Block × Timestamp)}
    (gathers : Gathers engine held stock delivered ledger [])
    (within : ∀ block ∈ deliveries.map Prod.fst, block ∈ stock) :
    Gathers engine held stock ((deliveries.map Prod.fst).reverse ++ delivered)
      (ledger.deliverAll deliveries) [] := by
  induction deliveries generalizing ledger delivered with
  | nil => exact gathers
  | cons delivery rest ih =>
      rw [List.map_cons, List.forall_mem_cons] at within
      rw [List.map_cons, List.reverse_cons, List.append_assoc, List.singleton_append]
      exact ih (gathers.deliver supply steady within.1 delivery.2).1 within.2

end Deliver

/-! ## Places -/

section Place

variable (supply : Supply engine held stock)
  (gathers : Gathers engine held stock delivered ledger [])

include supply gathers

/-- A block that was delivered is connected or waits for a parent that is not connected. -/
theorem connected_or_waits (mem : block ∈ stock) (offered : block ∈ delivered) :
    ledger.tree.block? block.hash = some block ∨
      block.isGenesis = false ∧ ledger.tree.contains block.parentHash = false ∧
        block ∈ ledger.orphans.waitingFor block.parentHash := by
  rcases gathers.covered block offered with listed | placed
  · cases listed
  · cases placed with
    | connected contained =>
        rcases BlockTree.contains_iff.mp contained with ⟨entry, found⟩
        have entryHeld := gathers.comprises.stored entry (BlockTree.mem_of_lookup found)
        have same := supply.distinct block mem _ entryHeld (BlockTree.hash_of_lookup found)
        exact .inl (BlockTree.block?_eq_some_iff.mpr ⟨entry, found, same⟩)
    | waiting notGenesis missing waits => exact .inr ⟨notGenesis, missing, waits⟩
    | @refused parent notGenesis linked refused =>
        rcases BlockTree.block?_eq_some_iff.mp linked with ⟨entry, found, rfl⟩
        have parentHeld := gathers.comprises.stored entry (BlockTree.mem_of_lookup found)
        have isHash := BlockTree.hash_of_lookup found
        exact absurd (supply.accepted block mem notGenesis _ parentHeld isHash) refused

end Place

end Gathers

end Ledger

end HeaviestChain
