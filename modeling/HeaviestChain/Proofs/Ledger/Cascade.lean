import HeaviestChain.Proofs.LevelOrder
import HeaviestChain.Proofs.Ledger.Buffering
import HeaviestChain.Proofs.Ledger.Vetting

/-!
# What a delivery connects

A delivery that no fault stops connects the delivered block and, level by level, the blocks that wait
below it.  The buffer shrinks while the work-list is worked on, but what waits for a block does not
change before that block is connected, so the list works on the tree that stood in the buffer at the
beginning (`Course.sweep`).  A block is cut off with all that waits below it if it fails the check on
its parent; what waited for it stays where it is.

After the first turn all listed blocks are released ones, which makes every later look a check on a
stored parent.
-/

namespace HeaviestChain

namespace Ledger

variable {σ : Type} [StateEngine σ] {ledger : Ledger σ} {block : Block} {now : Timestamp}

open StateEngine (Consistent)

/-! ## A look at a block with a stored parent -/

section Look

variable {parent : Block} (unknown : ledger.tree.contains block.hash = false)
  (notGenesis : block.isGenesis = false)
  (linked : ledger.tree.block? block.parentHash = some parent)

include unknown notGenesis linked

/-- What becomes of the block is what the check says. -/
theorem check_of_linked (now : Timestamp) :
    ((ledger.examine block now).verdict = .connected ∧
        (block.checkOn parent ledger.engine).1 = .ok ()) ∨
      ((ledger.examine block now).verdict = .settled ∧
        ∃ flaw, (block.checkOn parent ledger.engine).1 = .error (.invalidBlock block.hash flaw)) ∨
      ∃ fault, (ledger.examine block now).verdict = .faulted fault := by
  have examination := ledger.examination block now
  generalize ledger.examine block now = admission at examination ⊢
  cases examination with
  | known contained =>
      rw [unknown] at contained
      cases contained
  | unsound _ flawed =>
      rcases Block.exists_flaw_of_checkBody flawed with ⟨flaw, rfl⟩
      refine .inr (.inl ⟨rfl, flaw, ?_⟩)
      simp only [Block.checkOn, flawed]
  | secondGenesis _ _ genesis _ =>
      rw [notGenesis] at genesis
      cases genesis
  | first _ _ genesis _ =>
      rw [notGenesis] at genesis
      cases genesis
  | parentless _ _ _ missing =>
      rw [linked] at missing
      cases missing
  | @valid _ engine _ _ _ linked' accepted =>
      rw [linked] at linked'
      cases linked'
      rw [connect_eq { ledger with engine } (.of_accepted unknown notGenesis linked accepted)]
      exact .inl ⟨rfl, congrArg Prod.fst accepted⟩
  | faulted _ _ _ _ _ => exact .inr (.inr ⟨_, rfl⟩)
  | @invalid _ hash flaw _ _ _ _ linked' refused =>
      rw [linked] at linked'
      cases linked'
      have refused := congrArg Prod.fst refused
      cases Block.hash_of_checkOn refused
      exact .inr (.inl ⟨rfl, flaw, refused⟩)

end Look

/-! ## The work-list of released blocks -/

namespace Released

variable {queue : List Block} (released : Released ledger (block :: queue))

include released

omit [StateEngine σ] in
theorem filedUnder_join (parent : BlockHash) :
    ((ledger.orphans.take block.hash).2.release block.hash).2.filedUnder parent =
      if parent = block.hash then [] else ledger.orphans.filedUnder parent := by
  have wellFormed := released.fits.wellFormed
  rw [OrphanBuffer.filedUnder_release_take wellFormed,
    OrphanBuffer.filter_filedUnder_of_new wellFormed (released.fits.new block (List.mem_cons_self ..))]

omit [StateEngine σ] in
theorem release_join :
    ((ledger.orphans.take block.hash).2.release block.hash).1 =
      ledger.orphans.waitingFor block.hash := by
  have wellFormed := released.fits.wellFormed
  rw [OrphanBuffer.released_eq, OrphanBuffer.waitingFor, OrphanBuffer.filedUnder_take wellFormed,
    OrphanBuffer.filter_filedUnder_of_new wellFormed (released.fits.new block (List.mem_cons_self ..))]
  rfl

/-- A released block that has been dropped does not come back. -/
theorem not_contains_of_settled (verdict : (ledger.examine block now).verdict = .settled)
    {last : Ledger σ × List Block}
    (turns : Turns now ((ledger.examine block now).ledger, queue) last) :
    last.1.tree.contains block.hash = false := by
  rcases released.settled verdict with ⟨engine, _, examined, next⟩
  rw [examined] at turns
  have others : Comprises (·.hash ≠ block.hash) (·.hash ≠ block.hash) { ledger with engine } queue := by
    constructor
    · have unknown := released.unknown block (List.mem_cons_self ..)
      rw [BlockTree.contains_eq_false_iff, BlockTree.lookup_eq_none_iff] at unknown
      exact unknown
    · intro parent orphan filed same
      have new := released.fits.new block (List.mem_cons_self ..)
      rw [released.fits.wellFormed.contains_iff.mpr ⟨parent, orphan, filed, same⟩] at new
      cases new
    · exact fun other mem => released.custody.hash_ne mem
  have after := comprises_turns (fun _ other _ => other) turns next.fits.wellFormed others
  rw [BlockTree.contains_eq_false_iff, BlockTree.lookup_eq_none_iff]
  exact after.stored

end Released

namespace Course

variable {work last : Ledger σ × List Block} {connected : List Block} {events : List ChainEvent}
  (course : Course now work connected events last)

include course

variable (start : Released work.1 work.2)

include start

theorem filedUnder_eq (parent : BlockHash) :
    last.1.orphans.filedUnder parent =
      if parent ∈ connected.map Block.hash then [] else work.1.orphans.filedUnder parent := by
  induction course with
  | refl => rfl
  | settled verdict _ ih =>
      rcases start.settled verdict with ⟨_, _, examined, next⟩
      rw [examined] at ih
      exact ih next
  | connected verdict _ ih =>
      rcases start.connected verdict with ⟨_, examined, next⟩
      rw [examined] at ih
      rw [ih next]
      simp only [settle, start.filedUnder_join, List.map_cons, List.mem_cons]
      split
      case isTrue later => simp only [later, or_true, if_true]
      case isFalse earlier => simp only [earlier, or_false]

/-- The list works on what waited at the beginning. -/
theorem sweep (finished : last.2 = []) :
    Sweep (fun parent => work.1.orphans.waitingFor parent.hash)
      (fun child => last.1.tree.contains child.hash) work.2 connected := by
  induction course with
  | refl work =>
      rw [finished]
      exact .done
  | settled verdict onward ih =>
      rcases start.settled verdict with ⟨_, _, examined, next⟩
      rw [examined] at ih
      exact .dropped (start.not_contains_of_settled verdict onward.turns) (ih next finished)
  | @connected ledger block queue connected events last verdict onward ih =>
      have course := Course.connected verdict onward
      rcases start.connected verdict with ⟨_, examined, next⟩
      have joins := (examine_of_connected verdict).1
      rw [examined] at ih onward
      have rest := ih next finished
      simp only [settle, start.release_join] at rest
      refine .kept (course.contains_of_mem (List.mem_cons_self ..)) (rest.congr ?_)
      intro child mem
      have absent := onward.not_contains_of_mem mem
      have other : child.hash ≠ block.hash := by
        intro same
        rw [same] at absent
        exact absurd joins.contains_attach (by simpa [settle] using absent)
      rw [OrphanBuffer.waitingFor, start.filedUnder_join, if_neg other]
      rfl

end Course

/-- At some moment the block stood first on a list of released blocks, and it was connected then if it
is stored in the end, and dropped otherwise. -/
def Looked (now : Timestamp) (work last : Ledger σ × List Block) (child : Block) : Prop :=
  ∃ moment rest, Turns now work (moment, child :: rest) ∧ Released moment (child :: rest) ∧
    ((moment.examine child now).verdict = .connected ∧ last.1.tree.contains child.hash = true ∨
      (moment.examine child now).verdict = .settled ∧ last.1.tree.contains child.hash = false)

theorem Looked.after {work next last : Ledger σ × List Block} {child : Block}
    (looked : Looked now next last child) (turn : Turn now work next) : Looked now work last child := by
  rcases looked with ⟨moment, rest, turns, released, became⟩
  exact ⟨moment, rest, .head turn turns, released, became⟩

namespace Course

variable {work last : Ledger σ × List Block} {connected : List Block} {events : List ChainEvent}
  (course : Course now work connected events last) (start : Released work.1 work.2)
  (finished : last.2 = [])

include course start finished

theorem looked_of_listed : ∀ child ∈ work.2, Looked now work last child := by
  induction course with
  | refl _ =>
      rw [finished]
      exact List.forall_mem_nil _
  | @settled ledger block queue connected events last verdict onward ih =>
      rcases start.settled verdict with ⟨_, _, examined, next⟩
      have turn : Turn now (ledger, block :: queue) _ := .settled verdict
      have gone := start.not_contains_of_settled verdict onward.turns
      rw [examined] at ih turn
      intro child mem
      rcases List.mem_cons.mp mem with rfl | later
      · exact ⟨ledger, queue, .refl, start, .inr ⟨verdict, gone⟩⟩
      · exact (ih next finished child later).after turn
  | @connected ledger block queue connected events last verdict onward ih =>
      rcases start.connected verdict with ⟨_, examined, next⟩
      have turn : Turn now (ledger, block :: queue) _ := .connected verdict
      have stored := (Course.connected verdict onward).contains_of_mem (List.mem_cons_self ..)
      rw [examined] at ih turn
      intro child mem
      rcases List.mem_cons.mp mem with rfl | later
      · exact ⟨ledger, queue, .refl, start, .inl ⟨verdict, stored⟩⟩
      · exact (ih next finished child (List.mem_append_left _ later)).after turn

theorem looked_of_waiting :
    ∀ parent ∈ connected, ∀ child ∈ work.1.orphans.waitingFor parent.hash,
      Looked now work last child := by
  induction course with
  | refl _ => exact List.forall_mem_nil _
  | @settled ledger block queue connected events last verdict onward ih =>
      rcases start.settled verdict with ⟨_, _, examined, next⟩
      have turn : Turn now (ledger, block :: queue) _ := .settled verdict
      rw [examined] at ih turn
      exact fun parent mem child waits => (ih next finished parent mem child waits).after turn
  | @connected ledger block queue connected events last verdict onward ih =>
      rcases start.connected verdict with ⟨_, examined, next⟩
      have turn : Turn now (ledger, block :: queue) _ := .connected verdict
      rw [examined] at ih turn onward
      intro parent mem child waits
      by_cases here : parent.hash = block.hash
      · -- the children of the block have joined the list
        rw [here, ← start.release_join] at waits
        exact (onward.looked_of_listed next finished child (List.mem_append_right _ waits)).after turn
      · rcases List.mem_cons.mp mem with rfl | later
        · exact absurd rfl here
        · refine (ih next finished parent later child ?_).after turn
          rw [OrphanBuffer.waitingFor] at waits ⊢
          simp only [settle, start.filedUnder_join, if_neg here]
          exact waits

end Course

/-! ## Deliveries -/

/-- A delivery that no fault stops goes through its work-list. -/
theorem exists_course_of_deliver {connected : List Block}
    (done : (ledger.deliver block now).outcome = .ok connected) :
    ∃ events,
      Course now (ledger, [block]) connected events ((ledger.deliver block now).ledger, []) := by
  simp only [deliver] at done ⊢
  split at done
  case isTrue known =>
      have examined := examine_of_known known now
      have verdict : (ledger.examine block now).verdict = .settled := by rw [examined]
      have course := Course.settled verdict (.refl (_, []))
      cases done
      rw [examined] at course
      rw [if_pos known]
      exact ⟨_, course⟩
  case isFalse unknown =>
      rcases exists_course_of_ok done with ⟨joined, course, isAll⟩
      rw [List.reverse_nil, List.nil_append] at isAll
      rw [if_neg unknown, isAll]
      exact ⟨_, course⟩

omit [StateEngine σ] in
/-- The blocks that wait for `parent`, in order of arrival, without the delivered one. -/
def offspring (ledger : Ledger σ) (delivered parent : Block) : List Block :=
  (ledger.orphans.waitingFor parent.hash).filter fun child => decide (child.hash ≠ delivered.hash)

/-- A delivery has connected nothing.  At most, the delivered block waits now. -/
structure Unmoved (ledger : Ledger σ) (block : Block) (now : Timestamp) (after : Ledger σ) :
    Prop where
  tree : after.tree = ledger.tree
  pool : after.pool = ledger.pool
  orphans : after.orphans = ledger.orphans ∨
    ledger.orphans.contains block.hash = false ∧
      (∀ parent, after.orphans.filedUnder parent =
        if parent = block.parentHash then ledger.orphans.filedUnder parent ++ [⟨block, now⟩]
        else ledger.orphans.filedUnder parent) ∧
      ∀ hash, after.orphans.parentOf? hash =
        if hash = block.hash then some block.parentHash else ledger.orphans.parentOf? hash

/-- At some moment of a delivery the child was looked at on its stored parent.  It is stored afterwards
if it passed the check, and not if the check found it invalid. -/
def Checked (ledger : Ledger σ) (block : Block) (now : Timestamp) (after : Ledger σ)
    (parent child : Block) : Prop :=
  ∃ moment rest, Turns now (ledger, [block]) (moment, child :: rest) ∧
    moment.tree.block? child.parentHash = some parent ∧
    (after.tree.contains child.hash = true ∧ (child.checkOn parent moment.engine).1 = .ok () ∨
      after.tree.contains child.hash = false ∧
        ∃ flaw, (child.checkOn parent moment.engine).1 = .error (.invalidBlock child.hash flaw))

/-- A delivery has connected the delivered block and what waited below it. -/
structure Cascaded (ledger : Ledger σ) (block : Block) (now : Timestamp) (connected : List Block)
    (after : Ledger σ) : Prop where
  /-- The connected blocks are those below the delivered one, level by level, as far as they are
  stored afterwards. -/
  levels : ∃ height,
    (∀ depth, height ≤ depth → level (ledger.offspring block)
      (fun child => after.tree.contains child.hash) block depth = []) ∧
    connected = (List.range height).flatMap (level (ledger.offspring block)
      (fun child => after.tree.contains child.hash) block)
  /-- What waited for a connected block has been checked on it. -/
  checked : ∀ parent ∈ connected, ∀ child ∈ ledger.offspring block parent,
    Checked ledger block now after parent child
  /-- So if the engine gives only the roots of a function, it is stored exactly if it is valid. -/
  valid : ∀ answer, Consistent answer ledger.engine → ∀ parent ∈ connected,
    ∀ child ∈ ledger.offspring block parent,
      (after.tree.contains child.hash = true ↔ child.ValidOn answer parent)
  /-- Neither the delivered block waits any more nor what waited for a connected block, and all else
  waits as before. -/
  filed : ∀ parent, after.orphans.filedUnder parent =
    if parent ∈ connected.map Block.hash then []
    else (ledger.orphans.filedUnder parent).filter fun orphan =>
      decide (orphan.block.hash ≠ block.hash)
  /-- The same for the table of parents. -/
  parents : ∀ hash, after.orphans.parentOf? hash =
    (ledger.orphans.parentOf? hash).filter fun parent =>
      decide (hash ≠ block.hash ∧ parent ∉ connected.map Block.hash)

theorem unmoved_of_settled (verdict : (ledger.examine block now).verdict = .settled) :
    Unmoved ledger block now (ledger.examine block now).ledger := by
  have inspection := ledger.inspection block now
  generalize ledger.examine block now = admission at inspection verdict ⊢
  cases inspection with
  | known _ => exact ⟨rfl, rfl, .inl rfl⟩
  | rejected _ => exact ⟨rfl, rfl, .inl rfl⟩
  | parked _ _ =>
      refine ⟨rfl, rfl, ?_⟩
      by_cases refused : ledger.orphans.contains block.hash = true ∨
          ledger.orphans.capacity ≤ ledger.orphans.size
      · left
        simp only [park, OrphanBuffer.hold_eq_self refused]
      · rw [not_or, Bool.not_eq_true, Nat.not_le] at refused
        exact .inr ⟨refused.1, OrphanBuffer.filedUnder_hold refused.1 refused.2,
          OrphanBuffer.parents_hold refused.1 refused.2⟩
  | joined _ => cases verdict
  | faulted _ => cases verdict

section Joined

omit [StateEngine σ] in
/-- The ledger when the block has been connected and what waited for it has been released. -/
abbrev joined (ledger : Ledger σ) (block : Block) (pool : Mempool) (engine : σ) : Ledger σ where
  tree := (ledger.tree.attach block).1
  orphans := ((ledger.orphans.take block.hash).2.release block.hash).2
  pool
  engine

variable {connected : List Block} {events : List ChainEvent} {after : Ledger σ} {engine : σ}
  {pool : Mempool} (wellFormed : ledger.orphans.WellFormed)
  (start : Released (ledger.joined block pool engine) (ledger.offspring block block))
  (course : Course now (ledger.joined block pool engine, ledger.offspring block block) connected
    events (after, []))

include wellFormed

omit [StateEngine σ] in
/-- Below other blocks than the delivered one, the same blocks wait when it has been connected. -/
theorem waitingFor_joined {parent : Block} (other : parent.hash ≠ block.hash) :
    (ledger.joined block pool engine).orphans.waitingFor parent.hash =
      ledger.offspring block parent := by
  rw [OrphanBuffer.waitingFor, OrphanBuffer.filedUnder_release_take wellFormed, if_neg other,
    offspring, OrphanBuffer.waitingFor, List.filter_map]
  rfl

include start course

theorem Course.exists_levels (joins : Joins ledger.tree block) : ∃ height,
    (∀ depth, height ≤ depth → level (ledger.offspring block)
      (fun child => after.tree.contains child.hash) block depth = []) ∧
    block :: connected = (List.range height).flatMap (level (ledger.offspring block)
      (fun child => after.tree.contains child.hash) block) := by
  have others : ∀ child ∈ connected,
      (ledger.joined block pool engine).orphans.waitingFor child.hash =
        ledger.offspring block child := by
    intro child mem
    apply waitingFor_joined wellFormed
    intro same
    have absent := course.not_contains_of_mem mem
    rw [same, joins.contains_attach] at absent
    cases absent
  exact ((course.sweep start rfl).congr others).exists_levelOrder

theorem Course.looked_of_offspring {parent child : Block} (mem : parent ∈ block :: connected)
    (waits : child ∈ ledger.offspring block parent) :
    Looked now (ledger.joined block pool engine, ledger.offspring block block) (after, []) child := by
  by_cases here : parent.hash = block.hash
  · have listed : child ∈ ledger.offspring block block := by rwa [offspring, here] at waits
    exact course.looked_of_listed start rfl child listed
  · have same : (ledger.joined block pool engine).orphans.waitingFor parent.hash = _ :=
      waitingFor_joined wellFormed here
    rw [← same] at waits
    rcases List.mem_cons.mp mem with rfl | later
    · exact absurd rfl here
    · exact course.looked_of_waiting start rfl parent later child waits

end Joined

section Reached

variable {genesisEngine : σ} {capacity : Nat} {connected : List Block}
  (reached : Onward (empty genesisEngine capacity, []) (ledger, []))
  (done : (ledger.deliver block now).outcome = .ok connected)

include reached done

/-- What a delivery reports is what it has stored. -/
theorem mem_connected_iff {other : Block} :
    other ∈ connected ↔
      (ledger.deliver block now).ledger.tree.block? other.hash = some other ∧
        ledger.tree.contains other.hash = false := by
  have grown := (sound_onward (reached.trans (ledger.onward_perform (.deliver block now)))
    BlockTree.sound_empty).grown
  rcases exists_course_of_deliver done with ⟨events, course⟩
  constructor
  · intro mem
    refine ⟨?_, course.not_contains_of_mem mem⟩
    have listed : other ∈ (ledger.deliver block now).ledger.tree.stored.map (·.block) := by
      rw [course.stored_eq]
      exact List.mem_append_left _ (List.mem_reverse.mpr mem)
    rcases List.mem_map.mp listed with ⟨entry, stored, rfl⟩
    exact BlockTree.block?_eq_some_iff.mpr ⟨entry, grown.lookup_of_mem stored, rfl⟩
  · rintro ⟨stored, unknown⟩
    rcases BlockTree.block?_eq_some_iff.mp stored with ⟨entry, found, rfl⟩
    have listed := List.mem_map_of_mem (f := (·.block)) (BlockTree.mem_of_lookup found)
    rw [course.stored_eq, List.mem_append, List.mem_reverse] at listed
    rcases listed with new | old
    · exact new
    · rcases List.mem_map.mp old with ⟨before, isBefore, same⟩
      rw [BlockTree.contains_eq_false_iff, BlockTree.lookup_eq_none_iff] at unknown
      exact absurd (congrArg Block.hash same) (unknown before isBefore)

theorem nodup_connected : (connected.map Block.hash).Nodup := by
  have grown := (sound_onward (reached.trans (ledger.onward_perform (.deliver block now)))
    BlockTree.sound_empty).grown
  rcases exists_course_of_deliver done with ⟨events, course⟩
  have distinct := grown.nodup_hashes
  have blocks : (ledger.deliver block now).ledger.tree.stored.map (·.block.hash) =
      ((ledger.deliver block now).ledger.tree.stored.map (·.block)).map Block.hash := by
    rw [List.map_map]
    rfl
  simp only [perform] at distinct
  rw [blocks, course.stored_eq, List.map_append, List.map_reverse] at distinct
  exact List.nodup_reverse.mp (List.nodup_append.mp distinct).1

theorem checked_of_looked {parent child : Block} (listed : parent ∈ connected)
    (isParent : child.parentHash = parent.hash) (notGenesis : child.isGenesis = false)
    (looked : Looked now (ledger, [block]) ((ledger.deliver block now).ledger, []) child) :
    Checked ledger block now (ledger.deliver block now).ledger parent child := by
  rcases looked with ⟨moment, rest, turns, released, became⟩
  have unknown := released.unknown child (List.mem_cons_self ..)
  have linked : moment.tree.block? child.parentHash = some parent := by
    have known := released.linked child (List.mem_cons_self ..)
    rcases BlockTree.contains_iff.mp known with ⟨entry, found⟩
    have stored : moment.tree.block? child.parentHash = some entry.block :=
      BlockTree.block?_eq_some_iff.mpr ⟨entry, found, rfl⟩
    have same := block?_turns (turns_end turns) stored
    rw [isParent, ((mem_connected_iff reached done).mp listed).1] at same
    rw [stored, same]
  refine ⟨moment, rest, turns, linked, ?_⟩
  have check := check_of_linked unknown notGenesis linked now
  rcases became with ⟨verdict, stored⟩ | ⟨verdict, absent⟩
  · rcases check with ⟨_, passed⟩ | ⟨verdict', _⟩ | ⟨_, verdict'⟩
    · exact .inl ⟨stored, passed⟩
    · cases verdict.symm.trans verdict'
    · cases verdict.symm.trans verdict'
  · rcases check with ⟨verdict', _⟩ | ⟨_, refused⟩ | ⟨_, verdict'⟩
    · cases verdict.symm.trans verdict'
    · exact .inr ⟨absent, refused⟩
    · cases verdict.symm.trans verdict'

end Reached

/-- After the first turn of a delivery that connects its block, the blocks that waited for it are
looked at. -/
theorem exists_course_below {connected : List Block} (wellFormed : ledger.orphans.WellFormed)
    (done : (ledger.deliver block now).outcome = .ok connected)
    (verdict : (ledger.examine block now).verdict = .connected) :
    ∃ below events pool engine, connected = block :: below ∧
      Turn now (ledger, [block]) (ledger.joined block pool engine, ledger.offspring block block) ∧
      Course now (ledger.joined block pool engine, ledger.offspring block block) below events
        ((ledger.deliver block now).ledger, []) := by
  rcases examine_of_connected verdict with ⟨_, engine, examined⟩
  have begins : ((ledger.orphans.take block.hash).2.release block.hash).1 =
      ledger.offspring block block := by
    rw [OrphanBuffer.released_eq, OrphanBuffer.waitingFor_take wellFormed, offspring]
  have turn : Turn now (ledger, [block]) _ := .connected verdict
  rcases exists_course_of_deliver done with ⟨events, course⟩
  generalize (ledger.deliver block now).ledger = after at course ⊢
  cases course with
  | settled verdict' _ => cases verdict.symm.trans verdict'
  | connected _ onward =>
      rw [examined] at onward turn
      simp only [settle, List.nil_append, begins] at onward turn
      exact ⟨_, _, _, _, rfl, turn, onward⟩

/-- If the delivered block is connected, so is the tree below it as far as its blocks are valid. -/
theorem cascaded_of_connected {genesisEngine : σ} {capacity : Nat} {connected : List Block}
    (reached : Onward (empty genesisEngine capacity, []) (ledger, []))
    (done : (ledger.deliver block now).outcome = .ok connected)
    (verdict : (ledger.examine block now).verdict = .connected) :
    Cascaded ledger block now connected (ledger.deliver block now).ledger := by
  have empty := custody_empty genesisEngine capacity
  have custody := custody_onward (reached.tail (.delivered ledger block)) empty
  have room := size_le_capacity_onward reached (Nat.zero_le _)
  have descended := descended_onward reached empty (descended_empty genesisEngine capacity)
  have wellFormed := custody.wellFormed
  have joins := (examine_of_connected verdict).1
  rcases exists_course_below wellFormed done verdict with
    ⟨below, events, pool, engine, rfl, turn, course⟩
  have start : Released (ledger.joined block pool engine) (ledger.offspring block block) := by
    have released := Released.of_joins custody joins (List.forall_mem_nil _) room pool engine
    rwa [List.nil_append, OrphanBuffer.released_eq, OrphanBuffer.waitingFor_take wellFormed]
      at released
  have filed : ∀ parent, (ledger.deliver block now).ledger.orphans.filedUnder parent =
      if parent ∈ (block :: below).map Block.hash then []
      else (ledger.orphans.filedUnder parent).filter fun orphan =>
        decide (orphan.block.hash ≠ block.hash) := by
    intro parent
    rw [course.filedUnder_eq start, OrphanBuffer.filedUnder_release_take wellFormed, List.map_cons]
    simp only [List.mem_cons]
    by_cases here : parent = block.hash
    · simp [here]
    · simp [here]
  have checked : ∀ parent ∈ block :: below, ∀ child ∈ ledger.offspring block parent,
      Checked ledger block now (ledger.deliver block now).ledger parent child := by
    intro parent listed child waits
    have looked := (course.looked_of_offspring wellFormed start listed waits).after turn
    rcases OrphanBuffer.mem_waitingFor.mp (List.mem_filter.mp waits).1 with ⟨orphan, isFiled, rfl⟩
    exact checked_of_looked reached done listed (wellFormed.filed _ _ isFiled)
      (descended.buffered _ _ isFiled) looked
  refine ⟨course.exists_levels wellFormed start joins, checked, ?valid, filed, ?parents⟩
  case valid =>
      intro answer consistent parent listed child waits
      rcases checked parent listed child waits with ⟨moment, rest, turns, _, became⟩
      have consistent := consistent_turns turns consistent
      rcases became with ⟨stored, passed⟩ | ⟨absent, flaw, refused⟩
      · simp only [stored, Block.validOn_of_checkOn consistent passed]
      · simp only [absent, Bool.false_eq_true, false_iff]
        intro valid
        rcases Block.checkOn_of_validOn consistent valid with passed | ⟨fault, failed⟩
        · cases refused.symm.trans passed
        · cases refused.symm.trans failed
  case parents =>
      exact wellFormed.parentOf?_of_filedUnder (wellFormed_deliver wellFormed block now) filed

/-- What a delivery has done that no fault has stopped.  It reports the blocks that are stored now and
were not before, each once.  Either there are none, and no more has happened than that the delivered
block may wait now; or the delivered block has been connected and, level by level, the blocks that
waited below it, as far as they are valid. -/
theorem cascade_of_deliver {genesisEngine : σ} {capacity : Nat} {connected : List Block}
    (reached : Onward (empty genesisEngine capacity, []) (ledger, []))
    (done : (ledger.deliver block now).outcome = .ok connected) :
    (∀ other, other ∈ connected ↔
        (ledger.deliver block now).ledger.tree.block? other.hash = some other ∧
          ledger.tree.contains other.hash = false) ∧
      (connected.map Block.hash).Nodup ∧
      ((connected = [] ∧ Unmoved ledger block now (ledger.deliver block now).ledger) ∨
        (connected.head? = some block ∧
          Cascaded ledger block now connected (ledger.deliver block now).ledger)) := by
  refine ⟨fun _ => mem_connected_iff reached done, nodup_connected reached done, ?_⟩
  rcases exists_course_of_deliver done with ⟨events, course⟩
  cases verdict : (ledger.examine block now).verdict with
  | settled =>
      left
      have last := deliver_of_settled verdict
      have unmoved := unmoved_of_settled verdict
      rw [last]
      refine ⟨?_, unmoved⟩
      have stored := course.stored_eq
      rw [last, unmoved.tree] at stored
      simpa using stored
  | connected =>
      right
      have wellFormed := (custody_onward reached (custody_empty genesisEngine capacity)).wellFormed
      refine ⟨?_, cascaded_of_connected reached done verdict⟩
      rcases exists_course_below wellFormed done verdict with ⟨below, _, _, _, rfl, _⟩
      rfl
  | faulted fault =>
      generalize (ledger.deliver block now).ledger = after at course
      cases course with
      | settled verdict' _ => cases verdict.symm.trans verdict'
      | connected verdict' _ => cases verdict.symm.trans verdict'

/-- A first block, a block on it with three children, and a block on the first and one on the second
of these.  The number of the second child does not follow its parent's. -/
def cascadeBase : Block := ({} : GenesisSpec).block

def cascadeChild : Block :=
  .build 1 cascadeBase.hash [] [] cascadeBase.stateRoot .epoch .zero .one

def cascadeLeft : Block :=
  .build 2 cascadeChild.hash [] [] cascadeChild.stateRoot .epoch .zero .one

def cascadeSkip : Block :=
  .build 7 cascadeChild.hash [] [] cascadeChild.stateRoot .epoch .zero .one

def cascadeRight : Block :=
  .build 2 cascadeChild.hash [] [] cascadeChild.stateRoot ⟨5⟩ .zero .one

def cascadeTip : Block :=
  .build 3 cascadeLeft.hash [] [] cascadeLeft.stateRoot .epoch .zero .one

def cascadeStranded : Block :=
  .build 8 cascadeSkip.hash [] [] cascadeSkip.stateRoot .epoch .zero .one

/-- The first block comes last and connects the others in level order, but for the flawed child and
the block on it. -/
theorem cascadeBase_cascaded :
    let ledger := (empty (RootEngine.seeded .zero) 8).run
      [.deliver cascadeTip .epoch, .deliver cascadeLeft .epoch, .deliver cascadeSkip .epoch,
        .deliver cascadeStranded .epoch, .deliver cascadeRight .epoch,
        .deliver cascadeChild .epoch]
    let delivery := ledger.deliver cascadeBase .epoch
    let connected := [cascadeBase, cascadeChild, cascadeLeft, cascadeRight, cascadeTip]
    (delivery.outcome = .ok connected ∧
        delivery.ledger.orphans.waitingFor cascadeSkip.hash = [cascadeStranded]) ∧
      (connected.map Block.hash).Nodup ∧
      Cascaded ledger cascadeBase .epoch connected delivery.ledger := by
  intro ledger delivery connected
  have reached : Onward (empty (RootEngine.seeded .zero) 8, []) (ledger, []) := onward_run _ _
  have evaluated : delivery.outcome = .ok connected ∧
      delivery.ledger.orphans.waitingFor cascadeSkip.hash = [cascadeStranded] := by
    decide +kernel
  rcases cascade_of_deliver reached evaluated.1 with ⟨_, distinct, ⟨none, _⟩ | ⟨_, cascaded⟩⟩
  · exact absurd none (List.cons_ne_nil _ _)
  · exact ⟨evaluated, distinct, cascaded⟩

end Ledger

end HeaviestChain
