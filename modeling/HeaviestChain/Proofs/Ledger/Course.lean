import HeaviestChain.Proofs.BlockTree.HeadChanges
import HeaviestChain.Proofs.Ledger.Custody

/-!
# Courses of turns

What a delivery does before it ends, turn by turn, with the blocks that it connects and the events
that it leads to (`Course`).  What the few outcomes of a look at a block (`Inspection`) have in common
adds up over the turns: the tree grows by the connected blocks, these are what is reported, and the
mempool follows the changes of the head.
-/

namespace HeaviestChain

namespace ChainEvent

/-- The block that was connected, if that is what happened. -/
def connected? : ChainEvent → Option BlockHash
  | blockConnected hash _ => some hash
  | _ => none

/-- The block that was found wrong, if that is what happened. -/
def rejected? : ChainEvent → Option BlockHash
  | blockRejected hash _ => some hash
  | _ => none

end ChainEvent

namespace Ledger

variable {σ : Type}

/-! ## One look -/

section Settle

variable {ledger : Ledger σ} {block : Block}

theorem pool_settle (change : Option HeadChange) :
    (ledger.settle block change).ledger.pool = ledger.pool.follow change := by
  cases change with
  | none => rfl
  | some _ => rfl

theorem connected?_settle (change : Option HeadChange) :
    (ledger.settle block change).events.filterMap ChainEvent.connected? = [block.hash] := by
  cases change with
  | none => rfl
  | some change =>
      simp only [settle]
      split
      case isTrue => rfl
      case isFalse => rfl

theorem newBestBlock_not_mem_settle (change : Option HeadChange) (best : Block) :
    .newBestBlock best ∉ (ledger.settle block change).events := by
  cases change with
  | none => simp [settle]
  | some change =>
      simp only [settle]
      split
      case isTrue => simp
      case isFalse => simp

end Settle

variable [StateEngine σ]

section Verdict

variable {ledger : Ledger σ} {block : Block} {now : Timestamp}

theorem examine_of_connected (verdict : (ledger.examine block now).verdict = .connected) :
    Joins ledger.tree block ∧ ∃ engine, ledger.examine block now =
      settle { ledger with engine, tree := (ledger.tree.attach block).1 } block
        (ledger.tree.attach block).2.change? := by
  have inspection := ledger.inspection block now
  generalize ledger.examine block now = admission at inspection verdict ⊢
  cases inspection with
  | joined joins => exact ⟨joins, _, rfl⟩
  | _ => cases verdict

theorem examine_of_faulted {fault : StateFault}
    (verdict : (ledger.examine block now).verdict = .faulted fault) :
    ledger.tree.contains block.hash = false ∧ ∃ engine, ledger.examine block now =
      { verdict := .faulted fault, events := [], ledger := { ledger with engine } } := by
  have inspection := ledger.inspection block now
  generalize ledger.examine block now = admission at inspection verdict ⊢
  cases inspection with
  | faulted unknown =>
      cases verdict
      exact ⟨unknown, _, rfl⟩
  | _ => cases verdict

/-- A new block whose parent is stored is dropped only with a word about it. -/
theorem examine_of_settled (verdict : (ledger.examine block now).verdict = .settled)
    (unknown : ledger.tree.contains block.hash = false)
    (linked : ledger.tree.contains block.parentHash = true) :
    ∃ engine reason, ledger.examine block now =
      { verdict := .settled
        events := [.blockRejected block.hash reason]
        ledger := { ledger with engine } } := by
  have inspection := ledger.inspection block now
  generalize ledger.examine block now = admission at inspection verdict ⊢
  cases inspection with
  | known contained =>
      rw [unknown] at contained
      cases contained
  | rejected _ => exact ⟨_, _, rfl⟩
  | parked _ missing =>
      rw [linked] at missing
      cases missing
  | joined _ => cases verdict
  | faulted _ => cases verdict

theorem pool_examine_of_settled (verdict : (ledger.examine block now).verdict = .settled) :
    (ledger.examine block now).ledger.pool = ledger.pool := by
  have inspection := ledger.inspection block now
  generalize ledger.examine block now = admission at inspection verdict ⊢
  cases inspection with
  | joined _ => cases verdict
  | _ => rfl

theorem connected?_examine_of_settled (verdict : (ledger.examine block now).verdict = .settled) :
    (ledger.examine block now).events.filterMap ChainEvent.connected? = [] := by
  have inspection := ledger.inspection block now
  generalize ledger.examine block now = admission at inspection verdict ⊢
  cases inspection with
  | known _ => rfl
  | rejected _ => rfl
  | parked _ _ =>
      simp only [park]
      split
      case isTrue => rfl
      case isFalse => rfl
  | joined _ => cases verdict
  | faulted _ => rfl

/-- A look at a block announces no new head. -/
theorem newBestBlock_not_mem_examine (best : Block) :
    .newBestBlock best ∉ (ledger.examine block now).events := by
  have inspection := ledger.inspection block now
  generalize ledger.examine block now = admission at inspection ⊢
  cases inspection with
  | known _ => exact List.not_mem_nil
  | rejected _ => simp
  | parked _ _ =>
      simp only [park]
      split
      case isTrue => simp
      case isFalse => exact List.not_mem_nil
  | joined _ => exact newBestBlock_not_mem_settle _ best
  | faulted _ => exact List.not_mem_nil

end Verdict

/-! ## Turns without a fault -/

/-- Turns in a row, none of them faulty, with the blocks that they connect and what happens, both in
order. -/
inductive Course (now : Timestamp) :
    Ledger σ × List Block → List Block → List ChainEvent → Ledger σ × List Block → Prop
  | refl (work : Ledger σ × List Block) : Course now work [] [] work
  | settled {ledger : Ledger σ} {block : Block} {queue connected : List Block}
      {events : List ChainEvent} {last : Ledger σ × List Block}
      (verdict : (ledger.examine block now).verdict = .settled)
      (onward : Course now ((ledger.examine block now).ledger, queue) connected events last) :
      Course now (ledger, block :: queue) connected
        ((ledger.examine block now).events ++ events) last
  | connected {ledger : Ledger σ} {block : Block} {queue connected : List Block}
      {events : List ChainEvent} {last : Ledger σ × List Block}
      (verdict : (ledger.examine block now).verdict = .connected)
      (onward : Course now
        ({ (ledger.examine block now).ledger with
            orphans := ((ledger.examine block now).ledger.orphans.release block.hash).2 },
          queue ++ ((ledger.examine block now).ledger.orphans.release block.hash).1)
        connected events last) :
      Course now (ledger, block :: queue) (block :: connected)
        ((ledger.examine block now).events ++ events) last

/-- A work-list that ends with a fault has taken turns up to the faulty block. -/
theorem exists_course_of_fault {ledger : Ledger σ} {now : Timestamp} {queue connected : List Block}
    {fault : StateFault}
    (failed : (ledger.cascade now queue connected).outcome = .error fault) :
    ∃ joined events moment faulty rest,
      Course now (ledger, queue) joined events (moment, faulty :: rest) ∧
      (moment.examine faulty now).verdict = .faulted fault ∧
      (ledger.cascade now queue connected).events = events ∧
      (ledger.cascade now queue connected).ledger =
        (moment.examine faulty now).ledger.parkAll rest now := by
  fun_induction cascade ledger now queue connected with
  | case1 => cases failed
  | case2 ledger connected block queue admission verdict rest ih =>
      rcases ih failed with ⟨joined, events, moment, faulty, left, course, faulted, happened, last⟩
      refine ⟨joined, _, moment, faulty, left, .settled verdict course, faulted, ?_, last⟩
      rw [happened]
  | case3 ledger connected block queue admission verdict release rest ih =>
      rcases ih failed with ⟨joined, events, moment, faulty, left, course, faulted, happened, last⟩
      refine ⟨block :: joined, _, moment, faulty, left, .connected verdict course, faulted, ?_, last⟩
      rw [happened]
  | case4 ledger connected block queue admission fault' verdict =>
      cases failed
      refine ⟨[], [], ledger, block, queue, .refl _, verdict, ?_, rfl⟩
      rcases examine_of_faulted verdict with ⟨_, _, examined⟩
      simp only [admission, examined]

/-- A work-list that ends without a fault has been gone through. -/
theorem exists_course_of_ok {ledger : Ledger σ} {now : Timestamp} {queue connected all : List Block}
    (done : (ledger.cascade now queue connected).outcome = .ok all) :
    ∃ joined,
      Course now (ledger, queue) joined (ledger.cascade now queue connected).events
        ((ledger.cascade now queue connected).ledger, []) ∧
      all = connected.reverse ++ joined := by
  fun_induction cascade ledger now queue connected with
  | case1 ledger connected =>
      cases done
      exact ⟨[], .refl _, (List.append_nil _).symm⟩
  | case2 ledger connected block queue admission verdict rest ih =>
      rcases ih done with ⟨joined, course, isAll⟩
      exact ⟨joined, .settled verdict course, isAll⟩
  | case3 ledger connected block queue admission verdict release rest ih =>
      rcases ih done with ⟨joined, course, isAll⟩
      refine ⟨block :: joined, .connected verdict course, ?_⟩
      simpa using isAll
  | case4 => cases done

namespace Course

variable {now : Timestamp} {work last : Ledger σ × List Block}
variable {connected : List Block} {events : List ChainEvent}
  (course : Course now work connected events last)

include course

theorem turns : Turns now work last := by
  induction course with
  | refl => exact .refl
  | settled verdict _ ih => exact .head (.settled verdict) ih
  | connected verdict _ ih => exact .head (.connected verdict) ih

theorem tree_eq : last.1.tree = work.1.tree.attachAll connected := by
  induction course with
  | refl => rfl
  | settled verdict _ ih => rw [ih, tree_examine_of_settled verdict]
  | connected verdict _ ih =>
      rcases examine_of_connected verdict with ⟨_, _, examined⟩
      rw [ih, examined]
      rfl

theorem stored_eq :
    last.1.tree.stored.map (·.block) = connected.reverse ++ work.1.tree.stored.map (·.block) := by
  induction course with
  | refl => rfl
  | settled verdict _ ih => rw [ih, tree_examine_of_settled verdict]
  | connected verdict _ ih =>
      simp only [ih, stored_examine_of_connected verdict, List.reverse_cons, List.append_assoc,
        List.singleton_append]

theorem contains_of_mem {other : Block} (mem : other ∈ connected) :
    last.1.tree.contains other.hash = true := by
  have listed : other ∈ last.1.tree.stored.map (·.block) := by
    rw [course.stored_eq]
    exact List.mem_append_left _ (List.mem_reverse.mpr mem)
  rcases List.mem_map.mp listed with ⟨entry, entryMem, rfl⟩
  rw [← Bool.not_eq_false, BlockTree.contains_eq_false_iff, BlockTree.lookup_eq_none_iff]
  exact fun absent => absent entry entryMem rfl

/-- Only blocks that were not stored are connected. -/
theorem not_contains_of_mem {other : Block} (mem : other ∈ connected) :
    work.1.tree.contains other.hash = false := by
  induction course with
  | refl => cases mem
  | settled verdict _ ih =>
      rw [← tree_examine_of_settled verdict]
      exact ih mem
  | connected verdict _ ih =>
      rcases examine_of_connected verdict with ⟨joins, _, examined⟩
      rcases joins.exists_stored_attach with ⟨weight, added⟩
      rcases List.mem_cons.mp mem with rfl | later
      · exact joins.unknown
      · have absent := ih later
        rw [examined] at absent
        rw [← Bool.not_eq_true] at absent ⊢
        exact fun known => absent ((BlockTree.contains_of_stored_cons added).mpr (.inr known))

/-- The mempool has followed the changes of the head, one by one. -/
theorem pool_eq :
    last.1.pool = (work.1.tree.headChanges connected).foldl
      (fun pool change => (pool.reconcile change).1) work.1.pool := by
  induction course with
  | refl => rfl
  | settled verdict _ ih =>
      rw [ih, tree_examine_of_settled verdict, pool_examine_of_settled verdict]
  | @connected ledger block _ _ _ _ verdict _ ih =>
      rcases examine_of_connected verdict with ⟨_, _, examined⟩
      rw [ih, examined, BlockTree.headChanges, List.foldl_append]
      simp only [pool_settle]
      congr 1
      cases (ledger.tree.attach block).2.change? with
      | none => rfl
      | some _ => rfl

theorem connected?_events : events.filterMap ChainEvent.connected? = connected.map Block.hash := by
  induction course with
  | refl => rfl
  | settled verdict _ ih =>
      rw [List.filterMap_append, connected?_examine_of_settled verdict, ih, List.nil_append]
  | connected verdict _ ih =>
      rcases examine_of_connected verdict with ⟨_, _, examined⟩
      rw [List.filterMap_append, examined, connected?_settle, ih]
      rfl

/-- A new head is announced at the end of a delivery only. -/
theorem newBestBlock_not_mem (best : Block) : .newBestBlock best ∉ events := by
  induction course with
  | refl => exact List.not_mem_nil
  | settled _ _ ih => exact List.not_mem_append (newBestBlock_not_mem_examine best) ih
  | connected _ _ ih => exact List.not_mem_append (newBestBlock_not_mem_examine best) ih

end Course

/-- A delivery that ends with a fault has failed on a block at some moment. -/
theorem exists_faulted_of_deliver {ledger : Ledger σ} {block : Block} {now : Timestamp}
    {fault : StateFault}
    (failed : (ledger.deliver block now).outcome = .error fault) :
    ∃ moment faulty rest, Turns now (ledger, [block]) (moment, faulty :: rest) ∧
      (moment.examine faulty now).verdict = .faulted fault := by
  simp only [deliver] at failed
  split at failed
  case isTrue => cases failed
  case isFalse =>
      rcases exists_course_of_fault failed with ⟨_, _, moment, faulty, rest, course, verdict, _⟩
      exact ⟨moment, faulty, rest, course.turns, verdict⟩

end Ledger

end HeaviestChain
