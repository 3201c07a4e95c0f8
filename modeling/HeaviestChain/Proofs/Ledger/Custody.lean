import HeaviestChain.Proofs.Ledger.CanonicalChain
import HeaviestChain.Proofs.Orphans
import Mathlib.Data.Set.Finite.Basic

/-!
# Where a ledger keeps its blocks

`Inspection` says what can become of a block that is looked at.  Most of what lasts follows from
less: a turn drops the block, parks it, connects it, or stops and parks what is left of the list
(`Shift`).

At every moment of every run the stored blocks, the orphans and the blocks left on the list are
apart from each other (`Custody`), also when the state engine fails.  Only the first block of the
list may be one that was known before: it is the one that was delivered.  No block comes from
elsewhere than the deliveries (`Comprises`), and when nothing is connected neither the tree nor the
mempool changes.
-/

namespace HeaviestChain

namespace Ledger

open BlockTree (Grown lookup)

variable {σ : Type}

/-! ## Turns in outline -/

/-- What a turn does, in outline. -/
inductive Shift (now : Timestamp) : Ledger σ × List Block → Ledger σ × List Block → Prop
  | dropped {ledger : Ledger σ} {block : Block} {queue : List Block} (engine : σ) :
      Shift now (ledger, block :: queue) ({ ledger with engine }, queue)
  | parked {ledger : Ledger σ} {block : Block} {queue : List Block}
      (unknown : ledger.tree.contains block.hash = false)
      (missing : ledger.tree.contains block.parentHash = false) :
      Shift now (ledger, block :: queue)
        ({ ledger with orphans := (ledger.orphans.hold block now).1 }, queue)
  | joined {ledger : Ledger σ} {block : Block} {queue : List Block} (pool : Mempool) (engine : σ)
      (joins : Joins ledger.tree block) :
      Shift now (ledger, block :: queue)
        ({ tree := (ledger.tree.attach block).1
           orphans := ((ledger.orphans.take block.hash).2.release block.hash).2
           pool
           engine },
          queue ++ ((ledger.orphans.take block.hash).2.release block.hash).1)
  | stopped {ledger : Ledger σ} {block : Block} {queue : List Block} (engine : σ) :
      Shift now (ledger, block :: queue) (parkAll { ledger with engine } queue now, [])

/-! ## Blocks are in one place -/

/-- Stored blocks, orphans and what is left of the work-list behind its first block are apart. -/
structure Custody (ledger : Ledger σ) (queue : List Block) : Prop where
  wellFormed : ledger.orphans.WellFormed
  apart : ∀ hash, ledger.orphans.contains hash = true → ledger.tree.contains hash = false
  queued : ∀ block ∈ queue.tail,
    ledger.tree.contains block.hash = false ∧ ledger.orphans.contains block.hash = false
  distinct : (queue.map Block.hash).Nodup

theorem custody_empty (engine : σ) (capacity : Nat) : Custody (empty engine capacity) [] where
  wellFormed := OrphanBuffer.wellFormed_empty capacity
  apart := fun _ _ => rfl
  queued := by
    intro block mem
    cases mem
  distinct := List.nodup_nil

theorem Custody.not_waiting {ledger : Ledger σ} {queue : List Block} (custody : Custody ledger queue)
    {entry : StoredBlock} (mem : entry ∈ ledger.tree.stored) :
    ledger.orphans.contains entry.block.hash = false := by
  rw [← Bool.not_eq_true]
  intro held
  have apart := custody.apart _ held
  rw [BlockTree.contains_eq_false_iff, BlockTree.lookup_eq_none_iff] at apart
  exact apart entry mem rfl

/-- A block that is not in the tree still is not, unless it is the one that is connected. -/
theorem Joins.not_contains_attach {tree : BlockTree} {block : Block} (joins : Joins tree block)
    {hash : BlockHash} (other : hash ≠ block.hash) (absent : tree.contains hash = false) :
    (tree.attach block).1.contains hash = false := by
  rcases joins.exists_stored_attach with ⟨weight, added⟩
  exact BlockTree.not_contains_of_stored_cons added other absent

theorem Joins.contains_attach {tree : BlockTree} {block : Block} (joins : Joins tree block) :
    (tree.attach block).1.contains block.hash = true := by
  rcases joins.exists_stored_attach with ⟨weight, added⟩
  exact (BlockTree.contains_of_stored_cons added).mpr (.inl rfl)

namespace Custody

variable {ledger : Ledger σ} {block : Block} {queue : List Block}
  (custody : Custody ledger (block :: queue))

include custody

theorem drop (engine : σ) : Custody { ledger with engine } queue :=
  { custody with
    queued := fun other mem => custody.queued other (List.mem_of_mem_tail mem)
    distinct := (List.nodup_cons.mp custody.distinct).2 }

theorem hash_ne {other : Block} (mem : other ∈ queue) : other.hash ≠ block.hash := by
  intro same
  have distinct := custody.distinct
  simp only [List.map_cons, List.nodup_cons, List.mem_map, not_exists, not_and] at distinct
  exact distinct.1 other mem same

theorem park (unknown : ledger.tree.contains block.hash = false) (now : Timestamp) :
    Custody { ledger with orphans := (ledger.orphans.hold block now).1 } queue where
  wellFormed := custody.wellFormed.hold block now
  apart := by
    intro hash held
    rcases custody.wellFormed.contains_hold held with old | rfl
    · exact custody.apart hash old
    · exact unknown
  queued := by
    intro other mem
    have listed := List.mem_of_mem_tail mem
    refine ⟨(custody.queued other listed).1, ?_⟩
    rw [← Bool.not_eq_true]
    intro held
    rcases custody.wellFormed.contains_hold held with old | same
    · simp [(custody.queued other listed).2] at old
    · exact custody.hash_ne listed same
  distinct := (List.nodup_cons.mp custody.distinct).2

/-- When a block has been connected, nothing on the list is stored or waits. -/
theorem join_queued (joins : Joins ledger.tree block) :
    ∀ other ∈ queue ++ ((ledger.orphans.take block.hash).2.release block.hash).1,
      (ledger.tree.attach block).1.contains other.hash = false ∧
        ((ledger.orphans.take block.hash).2.release block.hash).2.contains other.hash = false := by
  intro other listed
  rw [List.mem_append] at listed
  rcases listed with later | released
  · have known := custody.queued other later
    refine ⟨joins.not_contains_attach (custody.hash_ne later) known.1, ?_⟩
    rw [← Bool.not_eq_true]
    intro held
    have old := (custody.wellFormed.contains_release_take held).1
    rw [known.2] at old
    cases old
  · rcases custody.wellFormed.contains_of_mem_release_take released with ⟨old, different, gone⟩
    exact ⟨joins.not_contains_attach different (custody.apart _ old), gone⟩

theorem join (joins : Joins ledger.tree block) (pool : Mempool) (engine : σ) :
    Custody
      { tree := (ledger.tree.attach block).1
        orphans := ((ledger.orphans.take block.hash).2.release block.hash).2
        pool
        engine }
      (queue ++ ((ledger.orphans.take block.hash).2.release block.hash).1) := by
  have taken := custody.wellFormed.take block.hash
  constructor
  · exact taken.release block.hash
  · intro hash held
    rcases custody.wellFormed.contains_release_take held with ⟨old, other⟩
    exact joins.not_contains_attach other (custody.apart hash old)
  · exact fun other mem => custody.join_queued joins other (List.mem_of_mem_tail mem)
  · rw [List.map_append, List.nodup_append]
    refine ⟨(List.nodup_cons.mp custody.distinct).2, ?_, ?_⟩
    · rw [OrphanBuffer.released_eq, OrphanBuffer.waitingFor, List.map_map]
      exact taken.nodup block.hash
    · intro hash later hash' mem same
      subst same
      rcases List.mem_map.mp later with ⟨other, listed, rfl⟩
      rcases List.mem_map.mp mem with ⟨released, isOut, same⟩
      have old := (custody.wellFormed.contains_of_mem_release_take isOut).1
      rw [same, (custody.queued other listed).2] at old
      cases old

theorem stop (engine : σ) (now : Timestamp) :
    Custody (parkAll { ledger with engine } queue now) [] where
  wellFormed := custody.wellFormed.holdAll queue
  apart := by
    intro hash held
    rcases custody.wellFormed.contains_holdAll held with old | listed
    · exact custody.apart hash old
    · rcases List.mem_map.mp listed with ⟨other, mem, rfl⟩
      exact (custody.queued other mem).1
  queued := by
    intro other mem
    cases mem
  distinct := List.nodup_nil

end Custody

theorem Shift.custody {now : Timestamp} {work next : Ledger σ × List Block}
    (shift : Shift now work next) (custody : Custody work.1 work.2) : Custody next.1 next.2 := by
  cases shift with
  | dropped engine => exact custody.drop engine
  | parked unknown _ => exact custody.park unknown now
  | joined pool engine joins => exact custody.join joins pool engine
  | stopped engine => exact custody.stop engine now

/-! ## Where blocks come from -/

/-- Stored blocks are among the kept ones, and what waits or is listed among the offered ones. -/
structure Comprises (kept offered : Block → Prop) (ledger : Ledger σ) (queue : List Block) :
    Prop where
  stored : ∀ entry ∈ ledger.tree.stored, kept entry.block
  buffered : ∀ parent, ∀ orphan ∈ ledger.orphans.filedUnder parent, offered orphan.block
  queued : ∀ block ∈ queue, offered block

theorem comprises_empty {kept offered : Block → Prop} (engine : σ) (capacity : Nat) :
    Comprises kept offered (empty engine capacity) [] where
  stored := List.forall_mem_nil _
  buffered := by
    intro parent orphan mem
    cases mem
  queued := List.forall_mem_nil _

/-- The block is stored or waits. -/
def Holds (ledger : Ledger σ) (block : Block) : Prop :=
  (∃ entry ∈ ledger.tree.stored, entry.block = block) ∨
    ∃ parent, ∃ orphan ∈ ledger.orphans.filedUnder parent, orphan.block = block

theorem comprises_of_holds {kept : Block → Prop} {ledger : Ledger σ}
    (all : ∀ block, ledger.Holds block → kept block) : Comprises kept kept ledger [] where
  stored := fun entry mem => all _ (.inl ⟨entry, mem, rfl⟩)
  buffered := fun parent orphan filed => all _ (.inr ⟨parent, orphan, filed, rfl⟩)
  queued := List.forall_mem_nil _

theorem finite_holds (ledger : Ledger σ) : {block | ledger.Holds block}.Finite := by
  have stored := (ledger.tree.stored.map (·.block)).finite_toSet
  have waiting := ((ledger.orphans.waiting.entries.flatMap Prod.snd).map (·.block)).finite_toSet
  apply (stored.union waiting).subset
  rintro block (⟨entry, mem, rfl⟩ | ⟨parent, orphan, filed, rfl⟩)
  · exact .inl (List.mem_map_of_mem mem)
  · exact .inr (List.mem_map_of_mem (OrphanBuffer.mem_entries_iff.mpr ⟨parent, filed⟩))

theorem Shift.wellFormed {now : Timestamp} {work next : Ledger σ × List Block}
    (shift : Shift now work next) (wellFormed : work.1.orphans.WellFormed) :
    next.1.orphans.WellFormed := by
  cases shift with
  | dropped _ => exact wellFormed
  | parked _ _ => exact wellFormed.hold _ _
  | joined _ _ _ => exact (wellFormed.take _).release _
  | stopped _ => exact wellFormed.holdAll _

theorem Shift.comprises {kept offered : Block → Prop} {now : Timestamp}
    {work next : Ledger σ × List Block} (shift : Shift now work next)
    (connects : ∀ block, offered block → block.checkBody = .ok () → kept block)
    (wellFormed : work.1.orphans.WellFormed) (comprises : Comprises kept offered work.1 work.2) :
    Comprises kept offered next.1 next.2 := by
  have listed := comprises.queued
  cases shift with
  | dropped engine =>
      simp only [List.forall_mem_cons] at listed
      exact { comprises with queued := listed.2 }
  | parked _ _ =>
      simp only [List.forall_mem_cons] at listed
      refine ⟨comprises.stored, ?_, listed.2⟩
      intro parent orphan filed
      rcases OrphanBuffer.mem_filedUnder_of_mem_hold filed with old | here
      · exact comprises.buffered parent orphan old
      · rw [here]
        exact listed.1
  | joined pool engine joins =>
      simp only [List.forall_mem_cons] at listed
      rcases joins.exists_stored_attach with ⟨weight, added⟩
      constructor
      · intro entry mem
        simp only [added, List.mem_cons] at mem
        rcases mem with rfl | old
        · exact connects _ listed.1 joins.sound
        · exact comprises.stored entry old
      · intro parent orphan filed
        have old := ((OrphanBuffer.mem_filedUnder_release_take wellFormed).mp filed).2.1
        exact comprises.buffered parent orphan old
      · intro other mem
        simp only [List.mem_append] at mem
        rcases mem with later | released
        · exact listed.2 other later
        · rcases (OrphanBuffer.mem_release_take wellFormed).mp released with ⟨orphan, filed, _, rfl⟩
          exact comprises.buffered _ orphan filed
  | stopped engine =>
      simp only [List.forall_mem_cons] at listed
      refine ⟨comprises.stored, ?_, List.forall_mem_nil _⟩
      intro parent orphan filed
      rcases OrphanBuffer.mem_filedUnder_of_mem_holdAll filed with old | later
      · exact comprises.buffered parent orphan old
      · exact listed.2 _ later

/-! ## What changes with the tree -/

theorem Shift.capacity_eq {now : Timestamp} {work next : Ledger σ × List Block}
    (shift : Shift now work next) : next.1.orphans.capacity = work.1.orphans.capacity := by
  cases shift with
  | dropped _ => rfl
  | parked _ _ => exact OrphanBuffer.capacity_hold ..
  | joined _ _ _ => simp only [OrphanBuffer.capacity_release, OrphanBuffer.capacity_take]
  | stopped _ => exact OrphanBuffer.capacity_holdAll ..

theorem Shift.grown {now : Timestamp} {work next : Ledger σ × List Block}
    (shift : Shift now work next) (grown : Grown Admitted work.1.tree.stored) :
    Grown Admitted next.1.tree.stored := by
  cases shift with
  | dropped _ => exact grown
  | parked _ _ => exact grown
  | joined _ _ joins => exact grown.attach joins.admitted
  | stopped _ => exact grown

/-- The mempool changes only when a block is connected. -/
theorem Shift.grows {now : Timestamp} {work next : Ledger σ × List Block}
    (shift : Shift now work next) :
    (next.1.tree = work.1.tree ∧ next.1.pool = work.1.pool) ∨
      next.1.tree.count = work.1.tree.count + 1 := by
  cases shift with
  | dropped _ => exact .inl ⟨rfl, rfl⟩
  | parked _ _ => exact .inl ⟨rfl, rfl⟩
  | joined _ _ joins => exact .inr (BlockTree.count_attach joins)
  | stopped _ => exact .inl ⟨rfl, rfl⟩

/-! ## Turns and moments -/

variable [StateEngine σ]

/-- What looking at a block does, in outline. -/
inductive Effect (ledger : Ledger σ) (block : Block) (now : Timestamp) : Admission σ → Prop
  | dropped {verdict : Verdict} {events : List ChainEvent} {engine : σ}
      (unconnected : verdict ≠ .connected) :
      Effect ledger block now { verdict, events, ledger := { ledger with engine } }
  | parked (unknown : ledger.tree.contains block.hash = false)
      (missing : ledger.tree.contains block.parentHash = false) :
      Effect ledger block now (ledger.park block now)
  | joined {engine : σ} (joins : Joins ledger.tree block) :
      Effect ledger block now
        (settle { ledger with engine, tree := (ledger.tree.attach block).1 } block
          (ledger.tree.attach block).2.change?)

theorem effect (ledger : Ledger σ) (block : Block) (now : Timestamp) :
    Effect ledger block now (ledger.examine block now) := by
  have inspection := ledger.inspection block now
  generalize ledger.examine block now = admission at inspection ⊢
  cases inspection with
  | known _ => exact .dropped (by decide)
  | rejected _ => exact .dropped (by decide)
  | parked unknown missing => exact .parked unknown missing
  | joined joins => exact .joined joins
  | faulted _ => exact .dropped (by simp)

theorem Turn.shift {now : Timestamp} {work next : Ledger σ × List Block}
    (turn : Turn now work next) : Shift now work next := by
  cases turn with
  | @settled ledger block queue verdict =>
      have effect := ledger.effect block now
      generalize ledger.examine block now = admission at effect verdict ⊢
      cases effect with
      | dropped _ => exact .dropped _
      | parked unknown missing => exact .parked unknown missing
      | joined _ => cases verdict
  | @connected ledger block queue verdict =>
      have effect := ledger.effect block now
      generalize ledger.examine block now = admission at effect verdict ⊢
      cases effect with
      | dropped unconnected => exact absurd verdict unconnected
      | parked _ _ => cases verdict
      | joined joins => exact .joined _ _ joins
  | @faulted ledger block queue fault verdict =>
      have effect := ledger.effect block now
      generalize ledger.examine block now = admission at effect verdict ⊢
      cases effect with
      | dropped _ => exact .stopped _
      | parked _ _ => cases verdict
      | joined _ => cases verdict

theorem custody_onward {first last : Ledger σ × List Block} (onward : Onward first last)
    (custody : Custody first.1 first.2) : Custody last.1 last.2 := by
  induction onward with
  | refl => exact custody
  | tail _ step ih =>
      cases step with
      | turned turn => exact turn.shift.custody ih
      | delivered ledger block =>
          refine ⟨ih.wellFormed, ih.apart, ?_, ?_⟩
          · intro other mem
            cases mem
          · simp
      | expired ledger maxAge now =>
          have wellFormed := ih.wellFormed
          refine ⟨wellFormed.expire, ?_, List.forall_mem_nil _, List.nodup_nil⟩
          intro hash held
          rcases wellFormed.expire.contains_iff.mp held with ⟨parent, orphan, filed, rfl⟩
          have old := (OrphanBuffer.mem_filedUnder_expire.mp filed).1
          exact ih.apart _ (wellFormed.contains_iff.mpr ⟨parent, orphan, old, rfl⟩)
      | submitted ledger tx => exact ⟨ih.wellFormed, ih.apart, ih.queued, ih.distinct⟩
      | altered ledger engine queue => exact ⟨ih.wellFormed, ih.apart, ih.queued, ih.distinct⟩

theorem capacity_onward {first last : Ledger σ × List Block} (onward : Onward first last) :
    last.1.orphans.capacity = first.1.orphans.capacity := by
  induction onward with
  | refl => rfl
  | tail _ step ih =>
      cases step with
      | turned turn => exact turn.shift.capacity_eq.trans ih
      | delivered _ _ => exact ih
      | expired _ _ _ => exact ih
      | submitted _ _ => exact ih
      | altered _ _ _ => exact ih

/-! ## Deliveries -/

/-- What a turn keeps holds at the end of a delivery. -/
theorem deliver_induction {P : Ledger σ → List Block → Prop} {ledger : Ledger σ} {block : Block}
    {now : Timestamp} (shifted : ∀ work next, Shift now work next → P work.1 work.2 → P next.1 next.2)
    (holds : P ledger [block]) : P (ledger.deliver block now).ledger [] := by
  have turns := ledger.turns_deliver block now
  generalize (ledger.deliver block now).ledger = last at turns ⊢
  have all : ∀ work, Turns now (ledger, [block]) work → P work.1 work.2 := by
    intro work turns
    induction turns with
    | refl => exact holds
    | tail _ turn ih => exact shifted _ _ turn.shift ih
  exact all _ turns

section Deliver

variable (ledger : Ledger σ) (block : Block) (now : Timestamp)

/-- The mempool changes only when the tree grows. -/
theorem grows_deliver :
    ((ledger.deliver block now).ledger.tree = ledger.tree ∧
        (ledger.deliver block now).ledger.pool = ledger.pool) ∨
      ledger.tree.count < (ledger.deliver block now).ledger.tree.count := by
  apply deliver_induction (P := fun moment _ =>
    (moment.tree = ledger.tree ∧ moment.pool = ledger.pool) ∨
      ledger.tree.count < moment.tree.count)
  · intro work next shift before
    rcases before with ⟨tree, pool⟩ | grown
    · rcases shift.grows with same | more
      · simp only [same, tree, pool, and_self, true_or]
      · simp only [more, tree]
        right
        omega
    · rcases shift.grows with same | more
      · simp only [same, grown, or_true]
      · right
        omega
  · exact .inl ⟨rfl, rfl⟩

theorem grown_deliver {ledger : Ledger σ} (grown : Grown Admitted ledger.tree.stored) (block : Block)
    (now : Timestamp) : Grown Admitted (ledger.deliver block now).ledger.tree.stored := by
  apply deliver_induction (P := fun moment _ => Grown Admitted moment.tree.stored)
  · exact fun _ _ shift grown => shift.grown grown
  · exact grown

theorem wellFormed_deliver {ledger : Ledger σ} (wellFormed : ledger.orphans.WellFormed)
    (block : Block) (now : Timestamp) : (ledger.deliver block now).ledger.orphans.WellFormed := by
  apply deliver_induction (P := fun moment _ => moment.orphans.WellFormed)
  · exact fun _ _ shift wellFormed => shift.wellFormed wellFormed
  · exact wellFormed

theorem comprises_turns {kept offered : Block → Prop} {now : Timestamp}
    {work next : Ledger σ × List Block}
    (connects : ∀ block, offered block → block.checkBody = .ok () → kept block)
    (turns : Turns now work next) (wellFormed : work.1.orphans.WellFormed)
    (comprises : Comprises kept offered work.1 work.2) : Comprises kept offered next.1 next.2 := by
  have both : next.1.orphans.WellFormed ∧ Comprises kept offered next.1 next.2 := by
    induction turns with
    | refl => exact ⟨wellFormed, comprises⟩
    | tail _ turn ih =>
        exact ⟨turn.shift.wellFormed ih.1, turn.shift.comprises connects ih.1 ih.2⟩
  exact both.2

theorem comprises_deliver {kept offered : Block → Prop} {ledger : Ledger σ} {block : Block}
    (connects : ∀ block, offered block → block.checkBody = .ok () → kept block)
    (wellFormed : ledger.orphans.WellFormed) (comprises : Comprises kept offered ledger [])
    (offer : offered block) (now : Timestamp) :
    Comprises kept offered (ledger.deliver block now).ledger [] := by
  have listed : Comprises kept offered ledger [block] :=
    { comprises with queued := List.forall_mem_singleton.mpr offer }
  exact comprises_turns connects (ledger.turns_deliver block now) wellFormed listed

/-- If all blocks with sound bodies that are delivered in a run are offered ones, the ledger
comprises no others. -/
theorem comprises_run {kept offered : Block → Prop} {ledger : Ledger σ}
    (connects : ∀ block, offered block → block.checkBody = .ok () → kept block)
    (custody : Custody ledger []) (comprises : Comprises kept offered ledger [])
    {commands : List (Command σ)}
    (offers : ∀ block now, Command.deliver block now ∈ commands → block.checkBody = .ok () →
      offered block) :
    Comprises kept offered (ledger.run commands) [] := by
  induction commands generalizing ledger with
  | nil => exact comprises
  | cons command rest ih =>
      have laterOffers := fun block now mem => offers block now (List.mem_cons_of_mem _ mem)
      have laterCustody := custody_onward (ledger.onward_perform command) custody
      apply ih laterCustody _ laterOffers
      cases command with
      | deliver block now =>
          by_cases sound : block.checkBody = .ok ()
          · have offer := offers block now (List.mem_cons_self ..) sound
            exact comprises_deliver connects custody.wellFormed comprises offer now
          · rw [perform, deliver_of_unsound sound]
            exact comprises
      | expire maxAge now =>
          refine { comprises with buffered := ?_ }
          intro parent orphan filed
          exact comprises.buffered parent orphan (OrphanBuffer.mem_filedUnder_expire.mp filed).1
      | submit tx => exact { comprises with }
      | alter engine => exact { comprises with }

theorem tree_examine_of_settled {ledger : Ledger σ} {block : Block} {now : Timestamp}
    (verdict : (ledger.examine block now).verdict = .settled) :
    (ledger.examine block now).ledger.tree = ledger.tree := by
  have effect := ledger.effect block now
  generalize ledger.examine block now = admission at effect verdict ⊢
  cases effect with
  | dropped _ => rfl
  | parked _ _ => rfl
  | joined _ => cases verdict

theorem stored_examine_of_connected {ledger : Ledger σ} {block : Block} {now : Timestamp}
    (verdict : (ledger.examine block now).verdict = .connected) :
    (ledger.examine block now).ledger.tree.stored.map (·.block) =
      block :: ledger.tree.stored.map (·.block) := by
  have effect := ledger.effect block now
  generalize ledger.examine block now = admission at effect verdict ⊢
  cases effect with
  | dropped unconnected => exact absurd verdict unconnected
  | parked _ _ => cases verdict
  | joined joins =>
      rcases joins.exists_stored_attach with ⟨weight, added⟩
      simp only [settle, added, List.map_cons]

/-- The blocks that a work-list has connected were put before the others. -/
theorem stored_cascade {queue connected all : List Block}
    (done : (ledger.cascade now queue connected).outcome = .ok all) :
    ∃ new, all = connected.reverse ++ new ∧
      (ledger.cascade now queue connected).ledger.tree.stored.map (·.block) =
        new.reverse ++ ledger.tree.stored.map (·.block) := by
  fun_induction cascade ledger now queue connected with
  | case1 ledger connected =>
      cases done
      exact ⟨[], by simp⟩
  | case2 ledger connected block queue admission verdict rest ih =>
      rcases ih done with ⟨new, isAll, stored⟩
      refine ⟨new, isAll, ?_⟩
      simp only [admission, tree_examine_of_settled verdict] at stored
      exact stored
  | case3 ledger connected block queue admission verdict release rest ih =>
      rcases ih done with ⟨new, isAll, stored⟩
      refine ⟨block :: new, ?_, ?_⟩
      · simpa using isAll
      · simp only [admission, stored_examine_of_connected verdict] at stored
        simpa using stored
  | case4 => cases done

/-- The blocks that a delivery reports were put before the others, in their order. -/
theorem stored_deliver {connected : List Block}
    (done : (ledger.deliver block now).outcome = .ok connected) :
    (ledger.deliver block now).ledger.tree.stored.map (·.block) =
      connected.reverse ++ ledger.tree.stored.map (·.block) := by
  simp only [deliver] at done ⊢
  split at done
  case isTrue known =>
      cases done
      simp only [known, if_true, List.reverse_nil, List.nil_append]
  case isFalse unknown =>
      simp only [unknown, Bool.false_eq_true, if_false]
      rcases ledger.stored_cascade now done with ⟨new, rfl, stored⟩
      simpa using stored

theorem count_deliver {connected : List Block}
    (done : (ledger.deliver block now).outcome = .ok connected) :
    (ledger.deliver block now).ledger.tree.count = ledger.tree.count + connected.length := by
  have length := congrArg List.length (ledger.stored_deliver block now done)
  simp only [List.length_map, List.length_append, List.length_reverse] at length
  simp only [BlockTree.count]
  omega

/-- If a delivery connects anything, it connects the block delivered. -/
theorem mem_connected {connected : List Block}
    (done : (ledger.deliver block now).outcome = .ok connected) :
    connected = [] ∨ block ∈ connected := by
  simp only [deliver] at done
  split at done
  case isTrue =>
      cases done
      exact .inl rfl
  case isFalse =>
      simp only [cascade] at done
      split at done
      case h_1 =>
          cases done
          exact .inl rfl
      case h_2 =>
          rcases stored_cascade _ now done with ⟨new, rfl, _⟩
          exact .inr (by simp)
      case h_3 => cases done

/-- A delivery connects only what was delivered or had waited. -/
theorem offered_of_connected {offered : Block → Prop} {connected : List Block}
    (grown : Grown Admitted ledger.tree.stored) (wellFormed : ledger.orphans.WellFormed)
    (buffered : ∀ parent, ∀ orphan ∈ ledger.orphans.filedUnder parent, offered orphan.block)
    (offer : offered block) (done : (ledger.deliver block now).outcome = .ok connected) :
    ∀ other ∈ connected, offered other := by
  intro other mem
  have comprises : Comprises (fun kept => kept ∈ ledger.tree.stored.map (·.block) ∨ offered kept)
      offered ledger [] :=
    ⟨fun entry stored => .inl (List.mem_map_of_mem stored), buffered, List.forall_mem_nil _⟩
  have after := comprises_deliver (fun _ offer _ => .inr offer) wellFormed comprises offer now
  have added := ledger.stored_deliver block now done
  have distinct := (grown_deliver grown block now).nodup_blocks
  rw [added, List.nodup_append] at distinct
  have isStored : other ∈ (ledger.deliver block now).ledger.tree.stored.map (·.block) := by
    simp only [added, List.mem_append, List.mem_reverse, mem, true_or]
  rcases List.mem_map.mp isStored with ⟨entry, entryMem, rfl⟩
  rcases after.stored entry entryMem with old | offered
  · exact absurd rfl (distinct.2.2 _ (List.mem_reverse.mpr mem) _ old)
  · exact offered

end Deliver

end Ledger

end HeaviestChain
