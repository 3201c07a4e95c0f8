import HeaviestChain.Proofs.Ledger.Course
import HeaviestChain.Proofs.Orphans.Room
import HeaviestChain.RootEngine

/-!
# Interrupted deliveries

A fault of the state engine stops a delivery in the middle of its work-list.  Up to the fault the
delivery has taken ordinary turns (`Course`): each connected the block it looked at, or dropped it
and said so.  After the first turn every block on the list has been released, so it is new, its
parent is stored, and the places that the listed blocks have left among the orphans are free
(`Released`).  That is why all of the rest finds room when it is parked, and why nothing but the
faulty block is lost (`Interruption`).
-/

namespace HeaviestChain

namespace Ledger

variable {σ : Type} {ledger : Ledger σ} {block : Block} {now : Timestamp}

/-! ## Released blocks -/

/-- Every block on the list is new and has its parent stored, and there is room for all of them
among the orphans. -/
structure Released (ledger : Ledger σ) (queue : List Block) : Prop where
  apart : ∀ hash, ledger.orphans.contains hash = true → ledger.tree.contains hash = false
  unknown : ∀ block ∈ queue, ledger.tree.contains block.hash = false
  linked : ∀ block ∈ queue, ledger.tree.contains block.parentHash = true
  fits : ledger.orphans.Fits queue

/-- The block is on the list or waits for its parent. -/
def Pending (work : Ledger σ × List Block) (block : Block) : Prop :=
  block ∈ work.2 ∨ block ∈ work.1.orphans.waitingFor block.parentHash

namespace Released

variable {queue : List Block}

theorem custody (released : Released ledger queue) : Custody ledger queue where
  wellFormed := released.fits.wellFormed
  apart := released.apart
  queued := fun other mem =>
    ⟨released.unknown other (List.mem_of_mem_tail mem),
      released.fits.new other (List.mem_of_mem_tail mem)⟩
  distinct := released.fits.distinct

theorem not_contains_of_pending (released : Released ledger queue) {other : Block}
    (pending : Pending (ledger, queue) other) : ledger.tree.contains other.hash = false := by
  rcases pending with listed | waits
  · exact released.unknown other listed
  · rcases OrphanBuffer.mem_waitingFor.mp waits with ⟨orphan, filed, rfl⟩
    exact released.apart _ (released.fits.wellFormed.contains_iff.mpr ⟨_, orphan, filed, rfl⟩)

theorem drop (released : Released ledger (block :: queue)) (engine : σ) :
    Released { ledger with engine } queue where
  apart := released.apart
  unknown := (List.forall_mem_cons.mp released.unknown).2
  linked := (List.forall_mem_cons.mp released.linked).2
  fits := released.fits.tail

/-- The orphans of a block that is connected take no more places than they leave. -/
theorem of_joins (custody : Custody ledger (block :: queue)) (joins : Joins ledger.tree block)
    (linked : ∀ other ∈ queue, ledger.tree.contains other.parentHash = true)
    (room : ledger.orphans.size + queue.length ≤ ledger.orphans.capacity) (pool : Mempool)
    (engine : σ) :
    Released
      { tree := (ledger.tree.attach block).1
        orphans := ((ledger.orphans.take block.hash).2.release block.hash).2
        pool
        engine }
      (queue ++ ((ledger.orphans.take block.hash).2.release block.hash).1) := by
  have joined := custody.join joins pool engine
  have apart := custody.join_queued joins
  rcases joins.exists_stored_attach with ⟨weight, added⟩
  refine ⟨joined.apart, fun other mem => (apart other mem).1, ?linked,
    joined.wellFormed, fun other mem => (apart other mem).2, joined.distinct, ?room⟩
  case linked =>
      intro other mem
      rw [BlockTree.contains_of_stored_cons added]
      rcases List.mem_append.mp mem with later | out
      · exact .inr (linked other later)
      · rcases (OrphanBuffer.mem_release_take custody.wellFormed).mp out with ⟨orphan, filed, _, rfl⟩
        exact .inl (custody.wellFormed.filed _ _ filed).symm
  case room =>
      have left := (custody.wellFormed.take block.hash).size_release_add_le block.hash
      have fewer := ledger.orphans.size_take_le block.hash
      simp only [OrphanBuffer.capacity_release, OrphanBuffer.capacity_take, List.length_append]
      omega

end Released

/-- When a block is connected, all others that are listed or wait still do. -/
theorem pending_join {tree : BlockTree} {pool : Mempool} {engine : σ} {queue : List Block}
    (wellFormed : ledger.orphans.WellFormed) {other : Block}
    (pending : Pending (ledger, block :: queue) other) (different : other.hash ≠ block.hash) :
    Pending
      ({ tree
         orphans := ((ledger.orphans.take block.hash).2.release block.hash).2
         pool
         engine },
        queue ++ ((ledger.orphans.take block.hash).2.release block.hash).1) other := by
  rcases pending with listed | waits
  · rcases List.mem_cons.mp listed with rfl | later
    · exact absurd rfl different
    · exact .inl (List.mem_append_left _ later)
  · rcases OrphanBuffer.mem_waitingFor.mp waits with ⟨orphan, filed, rfl⟩
    by_cases here : orphan.block.parentHash = block.hash
    · rw [here] at filed
      exact .inl (List.mem_append_right _
        ((OrphanBuffer.mem_release_take wellFormed).mpr ⟨orphan, filed, different, rfl⟩))
    · have stays := (OrphanBuffer.mem_filedUnder_release_take wellFormed).mpr
        ⟨here, filed, different⟩
      exact .inr (OrphanBuffer.mem_waitingFor.mpr ⟨orphan, stays, rfl⟩)

theorem pending_of_join {tree : BlockTree} {pool : Mempool} {engine : σ} {queue : List Block}
    (wellFormed : ledger.orphans.WellFormed) {other : Block}
    (pending : Pending
      ({ tree
         orphans := ((ledger.orphans.take block.hash).2.release block.hash).2
         pool
         engine },
        queue ++ ((ledger.orphans.take block.hash).2.release block.hash).1) other) :
    Pending (ledger, block :: queue) other := by
  rcases pending with listed | waits
  · rcases List.mem_append.mp listed with later | out
    · exact .inl (List.mem_cons_of_mem _ later)
    · rcases (OrphanBuffer.mem_release_take wellFormed).mp out with ⟨orphan, filed, _, rfl⟩
      right
      rw [wellFormed.filed _ _ filed]
      exact OrphanBuffer.mem_waitingFor.mpr ⟨orphan, filed, rfl⟩
  · rcases OrphanBuffer.mem_waitingFor.mp waits with ⟨orphan, filed, rfl⟩
    have old := ((OrphanBuffer.mem_filedUnder_release_take wellFormed).mp filed).2.1
    exact .inr (OrphanBuffer.mem_waitingFor.mpr ⟨orphan, old, rfl⟩)

/-! ## Turns of released blocks -/

variable [StateEngine σ]

namespace Released

variable {queue : List Block} (released : Released ledger (block :: queue))

include released

theorem settled (verdict : (ledger.examine block now).verdict = .settled) :
    ∃ engine reason, ledger.examine block now =
        { verdict := .settled
          events := [.blockRejected block.hash reason]
          ledger := { ledger with engine } } ∧
      Released { ledger with engine } queue := by
  rcases examine_of_settled verdict (released.unknown block (List.mem_cons_self ..))
    (released.linked block (List.mem_cons_self ..)) with ⟨engine, reason, examined⟩
  exact ⟨engine, reason, examined, released.drop engine⟩

theorem connected (verdict : (ledger.examine block now).verdict = .connected) :
    ∃ engine, ledger.examine block now =
        settle { ledger with engine, tree := (ledger.tree.attach block).1 } block
          (ledger.tree.attach block).2.change? ∧
      Released
        { tree := (ledger.tree.attach block).1
          orphans := ((ledger.orphans.take block.hash).2.release block.hash).2
          pool := ledger.pool.follow (ledger.tree.attach block).2.change?
          engine }
        (queue ++ ((ledger.orphans.take block.hash).2.release block.hash).1) := by
  rcases examine_of_connected verdict with ⟨joins, engine, examined⟩
  refine ⟨engine, examined, ?_⟩
  exact .of_joins released.custody joins (List.forall_mem_cons.mp released.linked).2
    released.fits.tail.room _ engine

end Released

namespace Course

variable {work last : Ledger σ × List Block} {connected : List Block} {events : List ChainEvent}
  (course : Course now work connected events last) (start : Released work.1 work.2)

include course start

theorem released : Released last.1 last.2 := by
  induction course with
  | refl => exact start
  | settled verdict _ ih =>
      rcases start.settled verdict with ⟨_, _, examined, next⟩
      rw [examined] at ih
      exact ih next
  | connected verdict _ ih =>
      rcases start.connected verdict with ⟨_, examined, next⟩
      rw [examined] at ih
      exact ih next

/-- What is neither connected nor found wrong is listed or waits as before. -/
theorem pending {other : Block} (pending : Pending work other)
    (unconnected : other.hash ∉ connected.map Block.hash)
    (unrejected : other.hash ∉ events.filterMap ChainEvent.rejected?) : Pending last other := by
  induction course with
  | refl => exact pending
  | settled verdict _ ih =>
      rcases start.settled verdict with ⟨_, _, examined, next⟩
      rw [examined] at ih unrejected
      rw [List.filterMap_append, List.mem_append, not_or] at unrejected
      refine ih next ?_ unconnected unrejected.2
      rcases pending with listed | waits
      · rcases List.mem_cons.mp listed with rfl | later
        · exact absurd (List.mem_singleton_self _) unrejected.1
        · exact .inl later
      · exact .inr waits
  | connected verdict _ ih =>
      rcases start.connected verdict with ⟨_, examined, next⟩
      rw [examined] at ih unrejected
      rw [List.map_cons, List.mem_cons, not_or] at unconnected
      rw [List.filterMap_append, List.mem_append, not_or] at unrejected
      exact ih next (pending_join start.fits.wellFormed pending unconnected.1) unconnected.2
        unrejected.2

theorem pending_of {other : Block} (pending : Pending last other) : Pending work other := by
  induction course with
  | refl => exact pending
  | settled verdict _ ih =>
      rcases start.settled verdict with ⟨_, _, examined, next⟩
      rw [examined] at ih
      exact (ih next pending).imp_left (List.mem_cons_of_mem _)
  | connected verdict _ ih =>
      rcases start.connected verdict with ⟨_, examined, next⟩
      rw [examined] at ih
      exact pending_of_join start.fits.wellFormed (ih next pending)

end Course

/-! ## The rest of the list -/

section Rest

variable {moment : Ledger σ} {faulty : Block} {rest : List Block}

omit [StateEngine σ] in
/-- The rest of the list waits again. -/
theorem waits_parkAll (fits : moment.orphans.Fits rest) (engine : σ) {other : Block}
    (pending : Pending (moment, faulty :: rest) other) (different : other.hash ≠ faulty.hash) :
    other ∈ (parkAll { moment with engine } rest now).orphans.waitingFor other.parentHash := by
  rcases pending with listed | waits
  · rcases List.mem_cons.mp listed with rfl | later
    · exact absurd rfl different
    · exact OrphanBuffer.mem_waitingFor.mpr ⟨_, fits.mem_filedUnder_holdAll later, rfl⟩
  · rcases OrphanBuffer.mem_waitingFor.mp waits with ⟨orphan, filed, rfl⟩
    exact OrphanBuffer.mem_waitingFor.mpr
      ⟨orphan, OrphanBuffer.mem_filedUnder_holdAll_of_mem filed rest now, rfl⟩

omit [StateEngine σ] in
theorem pending_of_waits_parkAll (wellFormed : moment.orphans.WellFormed) (engine : σ)
    {parent : BlockHash} {other : Block}
    (waits : other ∈ (parkAll { moment with engine } rest now).orphans.waitingFor parent) :
    other.parentHash = parent ∧ Pending (moment, faulty :: rest) other := by
  rcases OrphanBuffer.mem_waitingFor.mp waits with ⟨orphan, filed, rfl⟩
  have isParent := (wellFormed.holdAll rest).filed parent orphan filed
  refine ⟨isParent, ?_⟩
  rcases OrphanBuffer.mem_filedUnder_of_mem_holdAll filed with old | listed
  · right
    rw [isParent]
    exact OrphanBuffer.mem_waitingFor.mpr ⟨orphan, old, rfl⟩
  · exact .inl (List.mem_cons_of_mem _ listed)

end Rest

/-! ## Room at every moment -/

omit [StateEngine σ] in
theorem Shift.size_le_capacity {work next : Ledger σ × List Block} (shift : Shift now work next)
    (fits : work.1.orphans.size ≤ work.1.orphans.capacity) :
    next.1.orphans.size ≤ next.1.orphans.capacity := by
  rw [shift.capacity_eq]
  cases shift with
  | dropped _ => exact fits
  | parked _ _ => exact OrphanBuffer.size_hold_le_capacity fits _ _
  | joined _ _ _ =>
      exact Nat.le_trans (OrphanBuffer.size_release_le ..)
        (Nat.le_trans (OrphanBuffer.size_take_le ..) fits)
  | stopped _ => exact OrphanBuffer.size_holdAll_le_capacity fits _ _

theorem size_le_capacity_onward {first last : Ledger σ × List Block} (onward : Onward first last)
    (fits : first.1.orphans.size ≤ first.1.orphans.capacity) :
    last.1.orphans.size ≤ last.1.orphans.capacity := by
  induction onward with
  | refl => exact fits
  | tail _ step ih =>
      cases step with
      | turned turn => exact turn.shift.size_le_capacity ih
      | delivered _ _ => exact ih
      | expired ledger maxAge now =>
          exact Nat.le_trans (ledger.orphans.size_expire_le maxAge now) ih
      | submitted _ _ => exact ih
      | altered _ _ _ => exact ih

/-! ## Announcements -/

omit [StateEngine σ] in
theorem filterMap_announcement {view : ChainEvent → Option BlockHash}
    (silent : ∀ best, view (.newBestBlock best) = none) (before : Option BlockHash)
    (tree : BlockTree) : (announcement before tree).filterMap view = [] := by
  simp only [announcement]
  split
  case isTrue => rfl
  case isFalse =>
      split
      case h_1 => simp [silent]
      case h_2 => rfl

omit [StateEngine σ] in
/-- The head is announced if its hash is another one than before, and nothing else. -/
theorem announcement_cases {before after : BlockTree} (headed : after.Headed)
    (rises : BlockTree.Rises before.head after.head) :
    (after.bestHash? = before.bestHash? ∧ announcement before.bestHash? after = []) ∨
      after.bestHash? ≠ before.bestHash? ∧
        ∃ best, after.best? = some best ∧
          announcement before.bestHash? after = [.newBestBlock best] := by
  by_cases same : after.bestHash? = before.bestHash?
  · exact .inl ⟨same, if_pos same⟩
  · right
    rcases rises with unchanged | ⟨head, isHead, _⟩
    · exact absurd (congrArg (Option.map ChainHead.hash) unchanged) same
    · rcases headed.exists_best? isHead with ⟨best, isBest⟩
      refine ⟨same, best, isBest, ?_⟩
      simp only [announcement, if_neg same, isBest]

omit [StateEngine σ] in
theorem announces_iff {before after : BlockTree} (headed : after.Headed)
    (rises : BlockTree.Rises before.head after.head) :
    (∃ best, .newBestBlock best ∈ announcement before.bestHash? after) ↔
      after.bestHash? ≠ before.bestHash? := by
  rcases announcement_cases headed rises with ⟨same, silent⟩ | ⟨changed, best, _, announced⟩
  · simp [same, silent]
  · simp [changed, announced]

/-! ## Interruptions -/

/-- What a delivery that a fault has stopped leaves behind.  It has connected some blocks, in order,
and failed on the faulty one. -/
structure Interruption (ledger : Ledger σ) (block : Block) (now : Timestamp) (fault : StateFault)
    (connected : List Block) (faulty : Block) (delivery : Delivery σ) : Prop where
  /-- At some moment the engine failed on the faulty block, and the rest of the list was parked.
  None of it was turned away. -/
  stopped : ∃ moment rest, Turns now (ledger, [block]) (moment, faulty :: rest) ∧
    (moment.examine faulty now).verdict = .faulted fault ∧
    delivery.ledger = (moment.examine faulty now).ledger.parkAll rest now ∧
    ∀ earlier other later, rest = earlier ++ other :: later →
      ((earlier.foldl (fun orphans block => (orphans.hold block now).1)
        (moment.examine faulty now).ledger.orphans).hold other now).2 = true
  /-- The tree has grown by the connected blocks. -/
  tree : delivery.ledger.tree = ledger.tree.attachAll connected
  /-- They are stored, and so is all that was. -/
  stored : delivery.ledger.tree.stored.map (·.block) =
    connected.reverse ++ ledger.tree.stored.map (·.block)
  /-- Exactly they have been reported as connected. -/
  reported : delivery.events.filterMap ChainEvent.connected? = connected.map Block.hash
  /-- The faulty block is not stored. -/
  lost : delivery.ledger.tree.contains faulty.hash = false
  /-- What waited still does, unless it was connected or found wrong or is the faulty block. -/
  kept : ∀ parent, ∀ other ∈ ledger.orphans.waitingFor parent,
    other.hash ∉ connected.map Block.hash →
    other.hash ∉ delivery.events.filterMap ChainEvent.rejected? →
    other.hash ≠ faulty.hash → other ∈ delivery.ledger.orphans.waitingFor parent
  /-- Nothing else waits. -/
  old : ∀ parent, ∀ other ∈ delivery.ledger.orphans.waitingFor parent,
    other ∈ ledger.orphans.waitingFor parent
  /-- The mempool has followed the changes of the head, one by one. -/
  pool : delivery.ledger.pool = (ledger.tree.headChanges connected).foldl
    (fun pool change => (pool.reconcile change).1) ledger.pool
  /-- A new head has been announced if and only if there is one. -/
  announced : (∃ best, ChainEvent.newBestBlock best ∈ delivery.events) ↔
    delivery.ledger.tree.bestHash? ≠ ledger.tree.bestHash?
  /-- If the engine failed on the delivered block itself, nothing has happened. -/
  untouched : faulty.hash = block.hash → delivery.ledger.tree = ledger.tree ∧
    delivery.ledger.orphans = ledger.orphans ∧ delivery.ledger.pool = ledger.pool ∧
    delivery.events = []

section Single

variable {connected : List Block} {events : List ChainEvent} {moment : Ledger σ} {faulty : Block}
  {rest : List Block} (course : Course now (ledger, [block]) connected events (moment, faulty :: rest))

include course

/-- When the engine fails during a delivery, either it fails on the delivered block, or that block has
been connected and all later ones on the list have been released. -/
theorem Course.first_or_released (custody : Custody ledger [block])
    (room : ledger.orphans.size ≤ ledger.orphans.capacity) :
    (moment = ledger ∧ faulty = block ∧ rest = [] ∧ connected = [] ∧ events = []) ∨
      block ∈ connected ∧ Released moment (faulty :: rest) ∧
        (∀ other, Pending (ledger, [block]) other → other.hash ∉ connected.map Block.hash →
          other.hash ∉ events.filterMap ChainEvent.rejected? →
          Pending (moment, faulty :: rest) other) ∧
        ∀ other, Pending (moment, faulty :: rest) other → Pending (ledger, [block]) other := by
  cases course with
  | refl => exact .inl ⟨rfl, rfl, rfl, rfl, rfl⟩
  | settled verdict onward => cases onward
  | connected verdict onward =>
      rcases examine_of_connected verdict with ⟨joins, engine, examined⟩
      have start := Released.of_joins custody joins (List.forall_mem_nil _) room
        (ledger.pool.follow (ledger.tree.attach block).2.change?) engine
      rw [examined] at onward
      refine .inr ⟨List.mem_cons_self .., onward.released start, ?_, ?_⟩
      · intro other pending unconnected unrejected
        rw [List.map_cons, List.mem_cons, not_or] at unconnected
        rw [List.filterMap_append, List.mem_append, not_or] at unrejected
        exact onward.pending start (pending_join custody.wellFormed pending unconnected.1)
          unconnected.2 unrejected.2
      · intro other pending
        exact pending_of_join custody.wellFormed (onward.pending_of start pending)

theorem Course.interruption {fault : StateFault}
    (faulted : (moment.examine faulty now).verdict = .faulted fault)
    (custody : Custody ledger [block]) (room : ledger.orphans.size ≤ ledger.orphans.capacity)
    (headed : ledger.tree.Headed) :
    Interruption ledger block now fault connected faulty
      { outcome := .error fault
        events := events ++
          announcement ledger.tree.bestHash? (moment.examine faulty now).ledger.tree
        ledger := (moment.examine faulty now).ledger.parkAll rest now } := by
  rcases examine_of_faulted faulted with ⟨unknown, engine, examined⟩
  have first := course.first_or_released custody room
  have headed' : moment.tree.Headed := by
    rw [course.tree_eq]
    exact BlockTree.headed_attachAll headed connected
  rw [examined]
  refine ⟨⟨moment, rest, course.turns, faulted, ?stopped, ?held⟩, course.tree_eq, course.stored_eq,
    ?reported, unknown, ?kept, ?old, course.pool_eq, ?announced, ?untouched⟩
  case stopped => rw [examined]
  case held =>
      intro earlier other later split
      rw [examined]
      rcases first with ⟨_, _, rfl, _⟩ | ⟨_, released, _⟩
      · cases earlier with
        | nil => cases split
        | cons _ _ => cases split
      · exact released.fits.tail.holdAll_eq_true split
  case reported =>
      rw [List.filterMap_append, filterMap_announcement fun _ => rfl, List.append_nil]
      exact course.connected?_events
  case kept =>
      intro parent other waits unconnected unrejected different
      rcases first with ⟨rfl, _, rfl, _⟩ | ⟨_, released, pending, _⟩
      · exact waits
      · rcases OrphanBuffer.mem_waitingFor.mp waits with ⟨orphan, filed, rfl⟩
        rw [List.filterMap_append, filterMap_announcement fun _ => rfl, List.append_nil]
          at unrejected
        rw [← custody.wellFormed.filed parent orphan filed] at waits ⊢
        exact waits_parkAll released.fits.tail engine
          (pending _ (.inr waits) unconnected unrejected) different
  case old =>
      intro parent other waits
      rcases first with ⟨rfl, _, rfl, _⟩ | ⟨isConnected, released, _, pendingOf⟩
      · exact waits
      · rcases pending_of_waits_parkAll released.fits.wellFormed engine waits with
          ⟨isParent, pending⟩
        rcases pendingOf other pending with single | waited
        · have absent := released.not_contains_of_pending pending
          rw [List.mem_singleton.mp single, course.contains_of_mem isConnected] at absent
          cases absent
        · rw [← isParent]
          exact waited
  case announced =>
      simp only [List.mem_append, course.newBestBlock_not_mem, false_or]
      have turned := Relation.ReflTransGen.mono (fun _ _ => Step.turned) _ _ course.turns
      exact announces_iff headed' (rises_onward turned)
  case untouched =>
      intro same
      rcases first with ⟨rfl, _, rfl, _, rfl⟩ | ⟨isConnected, _⟩
      · exact ⟨rfl, rfl, rfl, if_pos rfl⟩
      · rw [same, course.contains_of_mem isConnected] at unknown
        cases unknown

end Single

/-- Whenever the state engine fails during a delivery, nothing is lost but the block on which it
failed. -/
theorem interruption_of_fault {engine : σ} {capacity : Nat}
    (reached : Onward (empty engine capacity, []) (ledger, [])) {fault : StateFault}
    (failed : (ledger.deliver block now).outcome = .error fault) :
    ∃ connected faulty,
      Interruption ledger block now fault connected faulty (ledger.deliver block now) := by
  have custody := custody_onward (reached.tail (.delivered ledger block)) (custody_empty engine capacity)
  have room := size_le_capacity_onward reached (Nat.zero_le _)
  have headed := headed_onward reached BlockTree.headed_empty
  unfold deliver at failed ⊢
  split at failed
  case isTrue => cases failed
  case isFalse unknown =>
      rcases exists_course_of_fault failed with
        ⟨connected, events, moment, faulty, rest, course, faulted, happened, last⟩
      have interruption := course.interruption faulted custody room headed
      refine ⟨connected, faulty, ?_⟩
      generalize ledger.cascade now [block] [] = delivery at failed happened last ⊢
      cases delivery with
      | mk outcome _ _ =>
          cases failed
          cases happened
          cases last
          rw [if_neg unknown]
          exact interruption

/-- A block with a payment on a genesis block, and two blocks on it. -/
def haltedBase : Block := ({} : GenesisSpec).block

def haltedPayment : Transaction :=
  .ofContent ⟨.zero, .zero, .zero, 0, [], 0, .zero⟩

def haltedParent : Block :=
  .build 1 haltedBase.hash [] [haltedPayment] (haltedBase.stateRoot.after [haltedPayment]) .epoch
    .zero .one

def haltedLeft : Block :=
  .build 2 haltedParent.hash [] [] haltedParent.stateRoot .epoch .zero .one

def haltedRight : Block :=
  .build 2 haltedParent.hash [] [] haltedParent.stateRoot ⟨5⟩ .zero .one

/-- The buffer is full when the payment's block arrives.  It is connected, the engine fails on the
first block on it, and the second one waits again. -/
theorem haltedLeft_interruption :
    let ledger := (empty ((RootEngine.seeded .zero).spoil haltedParent.stateRoot) 2).run
      [.deliver haltedBase .epoch, .deliver haltedLeft .epoch, .deliver haltedRight .epoch]
    let delivery := ledger.deliver haltedParent .epoch
    (ledger.orphans.size = ledger.orphans.capacity ∧
        delivery.outcome = .error (.rootUnreadable haltedParent.stateRoot) ∧
        delivery.ledger.tree.bestHash? = some haltedParent.hash ∧
        delivery.ledger.orphans.waitingFor haltedParent.hash = [haltedRight]) ∧
      ∃ connected faulty, Interruption ledger haltedParent .epoch
        (.rootUnreadable haltedParent.stateRoot) connected faulty delivery := by
  intro ledger delivery
  have reached : Onward (empty ((RootEngine.seeded .zero).spoil haltedParent.stateRoot) 2, [])
      (ledger, []) := onward_run _ _
  have evaluated : ledger.orphans.size = ledger.orphans.capacity ∧
      delivery.outcome = .error (.rootUnreadable haltedParent.stateRoot) ∧
      delivery.ledger.tree.bestHash? = some haltedParent.hash ∧
      delivery.ledger.orphans.waitingFor haltedParent.hash = [haltedRight] := by
    decide +kernel
  exact ⟨evaluated, interruption_of_fault reached evaluated.2.1⟩

end Ledger

end HeaviestChain
