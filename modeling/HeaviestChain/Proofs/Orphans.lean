import HeaviestChain.Orphans
import Mathlib.Data.Finset.Card
import Mathlib.Data.Finset.Image
import Mathlib.Data.List.Nodup
import Mathlib.Logic.Relation

/-!
# Well-formed orphan buffers

Both tables of an orphan buffer tell the same story: an orphan is filed under its own parent, no
hash is filed twice, and the second table knows the parents of exactly the filed orphans.  Each
operation is described by what it leaves filed under a parent, and keeps the buffer well-formed.
-/

namespace HeaviestChain

namespace OrphanBuffer

/-- The filed orphans are filed under their parents and distinct, and their parents are known. -/
structure WellFormed (buffer : OrphanBuffer) : Prop where
  filed : ∀ parent, ∀ orphan ∈ buffer.filedUnder parent, orphan.block.parentHash = parent
  nodup : ∀ parent, ((buffer.filedUnder parent).map (·.block.hash)).Nodup
  nonempty : ∀ parent, buffer.waiting.get? parent ≠ some []
  parentOf : ∀ hash parent, buffer.parents.get? hash = some parent ↔
    ∃ orphan ∈ buffer.filedUnder parent, orphan.block.hash = hash

theorem wellFormed_empty (capacity : Nat) : WellFormed { capacity } where
  filed := by
    intro parent orphan mem
    cases mem
  nodup := fun _ => List.nodup_nil
  nonempty := by
    intro parent found
    cases found
  parentOf := by
    intro hash parent
    constructor
    · intro found
      cases found
    · rintro ⟨orphan, mem, _⟩
      cases mem

theorem mem_waitingFor {buffer : OrphanBuffer} {parent : BlockHash} {block : Block} :
    block ∈ buffer.waitingFor parent ↔ ∃ orphan ∈ buffer.filedUnder parent, orphan.block = block := by
  rw [waitingFor, List.mem_map]

theorem isEmpty_iff {buffer : OrphanBuffer} :
    buffer.isEmpty = true ↔ ∀ hash, buffer.contains hash = false := by
  simp only [isEmpty, size, Table.size, beq_iff_eq, List.length_eq_zero_iff, contains]
  constructor
  · intro none hash
    rw [← Bool.not_eq_true, Table.contains_iff, Table.keys, none]
    exact List.not_mem_nil
  · intro none
    rw [List.eq_nil_iff_forall_not_mem]
    intro entry mem
    have known := Table.contains_iff.mpr (List.mem_map_of_mem mem)
    rw [none entry.1] at known
    cases known

namespace WellFormed

variable {buffer : OrphanBuffer} (wellFormed : buffer.WellFormed)

include wellFormed

theorem contains_iff {hash : BlockHash} :
    buffer.contains hash = true ↔
      ∃ parent, ∃ orphan ∈ buffer.filedUnder parent, orphan.block.hash = hash := by
  simp only [contains, Table.contains, Option.isSome_iff_exists, wellFormed.parentOf]

/-- No hash is filed twice. -/
theorem eq_of_hash {orphan other : Orphan} {parent parent' : BlockHash}
    (mem : orphan ∈ buffer.filedUnder parent) (mem' : other ∈ buffer.filedUnder parent')
    (same : orphan.block.hash = other.block.hash) : orphan = other := by
  have first := (wellFormed.parentOf _ _).mpr ⟨orphan, mem, rfl⟩
  have second := (wellFormed.parentOf _ _).mpr ⟨other, mem', same.symm⟩
  rw [first] at second
  cases second
  exact List.inj_on_of_nodup_map (wellFormed.nodup parent) mem mem' same

/-- While a block of a finite stock is not buffered, a buffer of blocks of the stock has fewer. -/
theorem size_lt_card {stock : Finset Block}
    (within : ∀ parent, ∀ orphan ∈ buffer.filedUnder parent, orphan.block ∈ stock) {block : Block}
    (mem : block ∈ stock) (new : buffer.contains block.hash = false) : buffer.size < stock.card := by
  have known : buffer.parents.keys.toFinset ⊆ (stock.erase block).image Block.hash := by
    intro hash listed
    rw [List.mem_toFinset, ← Table.contains_iff] at listed
    rcases wellFormed.contains_iff.mp listed with ⟨parent, orphan, filed, rfl⟩
    apply Finset.mem_image_of_mem
    refine Finset.mem_erase.mpr ⟨?_, within parent orphan filed⟩
    intro same
    have contained : buffer.contains block.hash = true := by
      rw [← same]
      exact listed
    rw [new] at contained
    cases contained
  calc buffer.size = buffer.parents.keys.length := (List.length_map _).symm
    _ = buffer.parents.keys.toFinset.card :=
        (List.toFinset_card_of_nodup buffer.parents.nodup_keys).symm
    _ ≤ ((stock.erase block).image Block.hash).card := Finset.card_le_card known
    _ ≤ (stock.erase block).card := Finset.card_image_le
    _ < stock.card := Finset.card_erase_lt_of_mem mem

end WellFormed

/-! ## Holding a block -/

section Hold

variable {buffer : OrphanBuffer} {block : Block} {now : Timestamp}

theorem hold_eq_self (refused : buffer.contains block.hash = true ∨ buffer.capacity ≤ buffer.size) :
    buffer.hold block now = (buffer, false) := by
  have either : (buffer.contains block.hash || decide (buffer.capacity ≤ buffer.size)) = true := by
    simpa using refused
  simp only [hold, either, if_true]

variable (new : buffer.contains block.hash = false) (room : buffer.size < buffer.capacity)

include new room

theorem filedUnder_hold (parent : BlockHash) :
    (buffer.hold block now).1.filedUnder parent =
      if parent = block.parentHash then buffer.filedUnder parent ++ [⟨block, now⟩]
      else buffer.filedUnder parent := by
  have roomy : ¬buffer.capacity ≤ buffer.size := Nat.not_le_of_lt room
  simp only [hold, new, roomy, decide_false, Bool.or_false, Bool.false_eq_true, if_false,
    filedUnder, Table.get?_set]
  by_cases here : parent = block.parentHash
  · simp [here]
  · simp [here]

theorem parents_hold (hash : BlockHash) :
    (buffer.hold block now).1.parents.get? hash =
      if hash = block.hash then some block.parentHash else buffer.parents.get? hash := by
  have roomy : ¬buffer.capacity ≤ buffer.size := Nat.not_le_of_lt room
  simp only [hold, new, roomy, decide_false, Bool.or_false, Bool.false_eq_true, if_false,
    Table.get?_set]

theorem mem_filedUnder_hold {parent : BlockHash} {orphan : Orphan} :
    orphan ∈ (buffer.hold block now).1.filedUnder parent ↔
      orphan ∈ buffer.filedUnder parent ∨ parent = block.parentHash ∧ orphan = ⟨block, now⟩ := by
  rw [filedUnder_hold new room]
  split
  case isTrue here => simp only [List.mem_append, List.mem_singleton, here, true_and]
  case isFalse elsewhere => simp only [elsewhere, false_and, or_false]

end Hold

/-- What has been buffered, or found no place, is not buffered again. -/
theorem hold_hold (buffer : OrphanBuffer) (block : Block) (now later : Timestamp) :
    (buffer.hold block now).1.hold block later = ((buffer.hold block now).1, false) := by
  apply hold_eq_self
  by_cases refused : buffer.contains block.hash = true ∨ buffer.capacity ≤ buffer.size
  · rwa [hold_eq_self refused]
  · rw [not_or, Bool.not_eq_true, Nat.not_le] at refused
    left
    simp [contains, Table.contains, parents_hold refused.1 refused.2]

theorem mem_filedUnder_hold_of_mem {buffer : OrphanBuffer} {parent : BlockHash} {orphan : Orphan}
    (filed : orphan ∈ buffer.filedUnder parent) (block : Block) (now : Timestamp) :
    orphan ∈ (buffer.hold block now).1.filedUnder parent := by
  by_cases refused : buffer.contains block.hash = true ∨ buffer.capacity ≤ buffer.size
  · rw [hold_eq_self refused]
    exact filed
  · rw [not_or, Bool.not_eq_true, Nat.not_le] at refused
    exact (mem_filedUnder_hold refused.1 refused.2).mpr (.inl filed)

theorem capacity_hold (buffer : OrphanBuffer) (block : Block) (now : Timestamp) :
    (buffer.hold block now).1.capacity = buffer.capacity := by
  simp only [hold]
  split
  case isTrue => rfl
  case isFalse => rfl

theorem WellFormed.hold {buffer : OrphanBuffer} (wellFormed : buffer.WellFormed) (block : Block)
    (now : Timestamp) : (buffer.hold block now).1.WellFormed := by
  by_cases refused : buffer.contains block.hash = true ∨ buffer.capacity ≤ buffer.size
  · rw [hold_eq_self refused]
    exact wellFormed
  · rw [not_or, Bool.not_eq_true, Nat.not_le] at refused
    rcases refused with ⟨new, room⟩
    have unfiled : ∀ parent, ∀ orphan ∈ buffer.filedUnder parent, orphan.block.hash ≠ block.hash := by
      intro parent orphan mem same
      have contained := wellFormed.contains_iff.mpr ⟨parent, orphan, mem, same⟩
      rw [new] at contained
      cases contained
    constructor
    · intro parent orphan mem
      rcases (mem_filedUnder_hold new room).mp mem with old | ⟨rfl, rfl⟩
      · exact wellFormed.filed parent orphan old
      · rfl
    · intro parent
      rw [filedUnder_hold new room]
      split
      case isTrue =>
          rw [List.map_append, List.map_singleton, List.nodup_append]
          refine ⟨wellFormed.nodup parent, List.nodup_singleton _, ?_⟩
          intro old oldMem added addedMem
          rcases List.mem_map.mp oldMem with ⟨orphan, mem, rfl⟩
          rw [List.mem_singleton.mp addedMem]
          exact unfiled parent orphan mem
      case isFalse => exact wellFormed.nodup parent
    · intro parent
      have roomy : ¬buffer.capacity ≤ buffer.size := Nat.not_le_of_lt room
      simp only [OrphanBuffer.hold, new, roomy, decide_false, Bool.or_false, Bool.false_eq_true,
        if_false, Table.get?_set]
      split
      case isTrue => simp
      case isFalse => exact wellFormed.nonempty parent
    · intro hash parent
      simp only [parents_hold new room, mem_filedUnder_hold new room]
      split
      case isTrue here =>
          subst here
          constructor
          · intro same
            cases same
            exact ⟨_, .inr ⟨rfl, rfl⟩, rfl⟩
          · rintro ⟨orphan, old | ⟨rfl, _⟩, same⟩
            · exact absurd same (unfiled parent orphan old)
            · rfl
      case isFalse other =>
          rw [wellFormed.parentOf]
          constructor
          · rintro ⟨orphan, mem, same⟩
            exact ⟨orphan, .inl mem, same⟩
          · rintro ⟨orphan, old | ⟨_, rfl⟩, same⟩
            · exact ⟨orphan, old, same⟩
            · exact absurd same.symm other

/-! ## Releasing the orphans of a parent -/

theorem get?_forgetParents {parents : Table BlockHash BlockHash} {orphans : List Orphan}
    {hash parent : BlockHash} :
    (forgetParents parents orphans).get? hash = some parent ↔
      (∀ orphan ∈ orphans, orphan.block.hash ≠ hash) ∧ parents.get? hash = some parent := by
  induction orphans generalizing parents with
  | nil => simp [forgetParents]
  | cons orphan rest ih =>
      simp only [forgetParents] at ih
      simp only [forgetParents, List.foldl_cons, ih, Table.get?_erase, List.forall_mem_cons]
      by_cases here : hash = orphan.block.hash
      · simp [here]
      · simp [here, Ne.symm here]

section Release

variable {buffer : OrphanBuffer} {parent : BlockHash}

theorem released_eq : (buffer.release parent).1 = buffer.waitingFor parent := by
  simp only [release, waitingFor, filedUnder]
  split
  case h_1 missing => rw [missing]; rfl
  case h_2 orphans found => rw [found]; rfl

theorem filedUnder_release (other : BlockHash) :
    (buffer.release parent).2.filedUnder other =
      if other = parent then [] else buffer.filedUnder other := by
  simp only [release, filedUnder]
  split
  case h_1 missing =>
      split
      case isTrue here => rw [here, missing]; rfl
      case isFalse => rfl
  case h_2 orphans found =>
      rw [Table.get?_erase]
      split
      case isTrue => rfl
      case isFalse => rfl

theorem mem_filedUnder_release {other : BlockHash} {orphan : Orphan} :
    orphan ∈ (buffer.release parent).2.filedUnder other ↔
      other ≠ parent ∧ orphan ∈ buffer.filedUnder other := by
  rw [filedUnder_release]
  split
  case isTrue here => simp [here]
  case isFalse elsewhere => simp [elsewhere]

theorem parents_release {hash other : BlockHash} :
    (buffer.release parent).2.parents.get? hash = some other ↔
      (∀ orphan ∈ buffer.filedUnder parent, orphan.block.hash ≠ hash) ∧
        buffer.parents.get? hash = some other := by
  simp only [release, filedUnder]
  split
  case h_1 missing => simp [missing]
  case h_2 orphans found =>
      rw [get?_forgetParents, found]
      rfl

theorem capacity_release : (buffer.release parent).2.capacity = buffer.capacity := by
  simp only [release]
  split
  case h_1 => rfl
  case h_2 => rfl

theorem WellFormed.release (wellFormed : buffer.WellFormed) (parent : BlockHash) :
    (buffer.release parent).2.WellFormed := by
  constructor
  · intro other orphan mem
    exact wellFormed.filed other orphan (mem_filedUnder_release.mp mem).2
  · intro other
    rw [filedUnder_release]
    split
    case isTrue => exact List.nodup_nil
    case isFalse => exact wellFormed.nodup other
  · intro other
    simp only [OrphanBuffer.release]
    split
    case h_1 => exact wellFormed.nonempty other
    case h_2 =>
        rw [Table.get?_erase]
        split
        case isTrue => simp
        case isFalse => exact wellFormed.nonempty other
  · intro hash other
    simp only [parents_release, mem_filedUnder_release, wellFormed.parentOf]
    constructor
    · rintro ⟨kept, orphan, mem, same⟩
      refine ⟨orphan, ⟨?_, mem⟩, same⟩
      rintro rfl
      exact kept orphan mem same
    · rintro ⟨orphan, ⟨elsewhere, mem⟩, same⟩
      refine ⟨?_, orphan, mem, same⟩
      intro released releasedMem isHash
      have equal := wellFormed.eq_of_hash mem releasedMem (same.trans isHash.symm)
      rw [equal] at mem
      exact elsewhere ((wellFormed.filed _ _ mem).symm.trans (wellFormed.filed _ _ releasedMem))

end Release

/-! ## Taking out one orphan -/

section Take

variable {buffer : OrphanBuffer} {hash : BlockHash}

theorem filedUnder_refile (parent other : BlockHash) (orphans : List Orphan) :
    ((buffer.refile parent orphans).get? other).getD [] =
      if other = parent then orphans else buffer.filedUnder other := by
  simp only [refile, filedUnder]
  split
  case isTrue empty =>
      rw [Table.get?_erase, List.isEmpty_iff.mp empty]
      split
      case isTrue => rfl
      case isFalse => rfl
  case isFalse =>
      rw [Table.get?_set]
      split
      case isTrue => rfl
      case isFalse => rfl

theorem eraseP_eq_filter {orphans : List Orphan} (nodup : (orphans.map (·.block.hash)).Nodup)
    (hash : BlockHash) :
    orphans.eraseP (fun orphan => decide (orphan.block.hash = hash)) =
      orphans.filter fun orphan => decide (orphan.block.hash ≠ hash) := by
  induction orphans with
  | nil => rfl
  | cons orphan rest ih =>
      rw [List.map_cons, List.nodup_cons] at nodup
      by_cases here : orphan.block.hash = hash
      · subst here
        have others : rest.filter (fun other => decide (other.block.hash ≠ orphan.block.hash)) =
            rest := by
          rw [List.filter_eq_self]
          intro other mem
          apply decide_eq_true
          intro same
          exact nodup.1 (List.mem_map.mpr ⟨other, mem, same⟩)
        simp only [ne_eq, decide_not] at others
        simp [others]
      · simp only [ne_eq] at ih
        simp [here, ih nodup.2]

theorem parents_take (other : BlockHash) :
    (buffer.take hash).2.parents.get? other =
      if other = hash then none else buffer.parents.get? other := by
  simp only [take]
  split
  case h_1 missing =>
      split
      case isTrue here => rw [here, missing]
      case isFalse => rfl
  case h_2 =>
      split
      case h_1 => exact Table.get?_erase ..
      case h_2 => exact Table.get?_erase ..

theorem capacity_take : (buffer.take hash).2.capacity = buffer.capacity := by
  simp only [take]
  split
  case h_1 => rfl
  case h_2 =>
      split
      case h_1 => rfl
      case h_2 => rfl

variable (wellFormed : buffer.WellFormed)

include wellFormed

/-- Only the orphan with the hash is gone. -/
theorem filedUnder_take (parent : BlockHash) :
    (buffer.take hash).2.filedUnder parent =
      (buffer.filedUnder parent).filter fun orphan => decide (orphan.block.hash ≠ hash) := by
  have unchanged (elsewhere : buffer.parents.get? hash ≠ some parent) :
      (buffer.filedUnder parent).filter (fun orphan => decide (orphan.block.hash ≠ hash)) =
        buffer.filedUnder parent := by
    rw [List.filter_eq_self]
    intro orphan mem
    apply decide_eq_true
    intro same
    exact elsewhere ((wellFormed.parentOf _ _).mpr ⟨orphan, mem, same⟩)
  simp only [take]
  split
  case h_1 missing =>
      rw [unchanged]
      rw [missing]
      exact Option.some_ne_none _ ∘ Eq.symm
  case h_2 place known =>
      split
      case h_1 absent =>
          rcases (wellFormed.parentOf _ _).mp known with ⟨orphan, mem, same⟩
          rw [List.find?_eq_none] at absent
          exact absurd (decide_eq_true same) (absent orphan mem)
      case h_2 =>
          change ((buffer.refile place _).get? parent).getD [] = _
          rw [filedUnder_refile]
          split
          case isTrue here =>
              rw [here]
              exact eraseP_eq_filter (wellFormed.nodup place) hash
          case isFalse elsewhere =>
              rw [unchanged]
              rw [known]
              exact fun same => elsewhere (Option.some.inj same).symm

theorem mem_filedUnder_take {parent : BlockHash} {orphan : Orphan} :
    orphan ∈ (buffer.take hash).2.filedUnder parent ↔
      orphan ∈ buffer.filedUnder parent ∧ orphan.block.hash ≠ hash := by
  rw [filedUnder_take wellFormed, List.mem_filter, decide_eq_true_iff]

theorem filedUnder_release_take (hash parent : BlockHash) :
    ((buffer.take hash).2.release hash).2.filedUnder parent =
      if parent = hash then []
      else (buffer.filedUnder parent).filter fun orphan => decide (orphan.block.hash ≠ hash) := by
  rw [filedUnder_release, filedUnder_take wellFormed]

theorem waitingFor_take (hash parent : BlockHash) :
    (buffer.take hash).2.waitingFor parent =
      (buffer.waitingFor parent).filter fun block => decide (block.hash ≠ hash) := by
  rw [waitingFor, filedUnder_take wellFormed, waitingFor, List.filter_map]
  rfl

/-- A block that does not wait leaves no gap. -/
theorem filter_filedUnder_of_new {hash : BlockHash} (new : buffer.contains hash = false)
    (parent : BlockHash) :
    (buffer.filedUnder parent).filter (fun orphan => decide (orphan.block.hash ≠ hash)) =
      buffer.filedUnder parent := by
  rw [List.filter_eq_self]
  intro orphan filed
  apply decide_eq_true
  intro same
  rw [wellFormed.contains_iff.mpr ⟨parent, orphan, filed, same⟩] at new
  cases new

/-- When an orphan and those that wait for it have left, those under other parents remain. -/
theorem mem_filedUnder_release_take {parent : BlockHash} {orphan : Orphan} :
    orphan ∈ ((buffer.take hash).2.release hash).2.filedUnder parent ↔
      parent ≠ hash ∧ orphan ∈ buffer.filedUnder parent ∧ orphan.block.hash ≠ hash := by
  rw [mem_filedUnder_release, mem_filedUnder_take wellFormed]

theorem mem_release_take {block : Block} :
    block ∈ ((buffer.take hash).2.release hash).1 ↔
      ∃ orphan ∈ buffer.filedUnder hash, orphan.block.hash ≠ hash ∧ orphan.block = block := by
  simp only [released_eq, mem_waitingFor, mem_filedUnder_take wellFormed, and_assoc]

theorem WellFormed.take (hash : BlockHash) : (buffer.take hash).2.WellFormed := by
  constructor
  · intro parent orphan mem
    exact wellFormed.filed parent orphan ((mem_filedUnder_take wellFormed).mp mem).1
  · intro parent
    rw [filedUnder_take wellFormed]
    exact (List.filter_sublist.map _).nodup (wellFormed.nodup parent)
  · intro parent
    simp only [OrphanBuffer.take]
    split
    case h_1 => exact wellFormed.nonempty parent
    case h_2 place _ =>
        split
        case h_1 => exact wellFormed.nonempty parent
        case h_2 =>
            simp only [refile]
            split
            case isTrue =>
                rw [Table.get?_erase]
                split
                case isTrue => simp
                case isFalse => exact wellFormed.nonempty parent
            case isFalse nonempty =>
                rw [Table.get?_set]
                split
                case isTrue =>
                    rw [List.isEmpty_iff] at nonempty
                    exact fun empty => nonempty (Option.some.inj empty)
                case isFalse => exact wellFormed.nonempty parent
  · intro other parent
    simp only [parents_take, mem_filedUnder_take wellFormed]
    split
    case isTrue here =>
        subst here
        constructor
        · intro found
          cases found
        · rintro ⟨orphan, ⟨_, different⟩, same⟩
          exact absurd same different
    case isFalse elsewhere =>
        rw [wellFormed.parentOf]
        constructor
        · rintro ⟨orphan, mem, same⟩
          exact ⟨orphan, ⟨mem, fun isHash => elsewhere (same.symm.trans isHash)⟩, same⟩
        · rintro ⟨orphan, ⟨mem, _⟩, same⟩
          exact ⟨orphan, mem, same⟩

/-- What still waits when an orphan and those that wait for it have left has waited before. -/
theorem WellFormed.contains_release_take {other : BlockHash}
    (held : ((buffer.take hash).2.release hash).2.contains other = true) :
    buffer.contains other = true ∧ other ≠ hash := by
  rcases ((wellFormed.take hash).release hash).contains_iff.mp held with ⟨parent, orphan, filed, rfl⟩
  rcases (mem_filedUnder_release_take wellFormed).mp filed with ⟨_, old, other⟩
  exact ⟨wellFormed.contains_iff.mpr ⟨parent, orphan, old, rfl⟩, other⟩

/-- What is released has waited, and no longer does. -/
theorem WellFormed.contains_of_mem_release_take {block : Block}
    (mem : block ∈ ((buffer.take hash).2.release hash).1) :
    buffer.contains block.hash = true ∧ block.hash ≠ hash ∧
      ((buffer.take hash).2.release hash).2.contains block.hash = false := by
  rcases (mem_release_take wellFormed).mp mem with ⟨orphan, filed, different, rfl⟩
  refine ⟨wellFormed.contains_iff.mpr ⟨_, orphan, filed, rfl⟩, different, ?_⟩
  rw [← Bool.not_eq_true, ((wellFormed.take hash).release hash).contains_iff]
  rintro ⟨parent, orphan', filed', same⟩
  rcases (mem_filedUnder_release_take wellFormed).mp filed' with ⟨elsewhere, old, _⟩
  have equal := wellFormed.eq_of_hash old filed same
  rw [equal] at old
  exact elsewhere ((wellFormed.filed _ _ old).symm.trans (wellFormed.filed _ _ filed))

/-- What is filed settles what the table of parents has. -/
theorem WellFormed.parentOf?_of_filedUnder {after : OrphanBuffer} (wellFormed' : after.WellFormed)
    {hashes : List BlockHash}
    (filed : ∀ parent, after.filedUnder parent = if parent ∈ hashes then []
      else (buffer.filedUnder parent).filter fun orphan => decide (orphan.block.hash ≠ hash))
    (other : BlockHash) :
    after.parentOf? other =
      (buffer.parentOf? other).filter fun parent => decide (other ≠ hash ∧ parent ∉ hashes) := by
  apply Option.ext
  intro parent
  rw [Option.filter_eq_some_iff, decide_eq_true_iff, parentOf?, parentOf?, wellFormed.parentOf,
    wellFormed'.parentOf, filed]
  split
  case isTrue listed => simp [listed]
  case isFalse unlisted =>
      simp only [List.mem_filter, decide_eq_true_iff]
      constructor
      · rintro ⟨orphan, ⟨mem, different⟩, rfl⟩
        exact ⟨⟨orphan, mem, rfl⟩, different, unlisted⟩
      · rintro ⟨⟨orphan, mem, rfl⟩, different, _⟩
        exact ⟨orphan, ⟨mem, different⟩, rfl⟩

end Take

/-! ## Holding several blocks -/

section HoldAll

variable {buffer : OrphanBuffer} {now : Timestamp}

/-- Whether there was room or not, nothing but the block is new. -/
theorem mem_filedUnder_of_mem_hold {block : Block} {parent : BlockHash} {orphan : Orphan}
    (filed : orphan ∈ (buffer.hold block now).1.filedUnder parent) :
    orphan ∈ buffer.filedUnder parent ∨ orphan.block = block := by
  by_cases refused : buffer.contains block.hash = true ∨ buffer.capacity ≤ buffer.size
  · rw [hold_eq_self refused] at filed
    exact .inl filed
  · simp only [not_or, Bool.not_eq_true, Nat.not_le] at refused
    rcases (mem_filedUnder_hold refused.1 refused.2).mp filed with old | ⟨_, rfl⟩
    · exact .inl old
    · exact .inr rfl

theorem WellFormed.holdAll (wellFormed : buffer.WellFormed) (blocks : List Block) :
    (blocks.foldl (fun buffer block => (buffer.hold block now).1) buffer).WellFormed := by
  induction blocks generalizing buffer with
  | nil => exact wellFormed
  | cons block rest ih => exact ih (wellFormed.hold block now)

theorem mem_filedUnder_of_mem_holdAll {blocks : List Block} {parent : BlockHash} {orphan : Orphan}
    (filed : orphan ∈
      (blocks.foldl (fun buffer block => (buffer.hold block now).1) buffer).filedUnder parent) :
    orphan ∈ buffer.filedUnder parent ∨ orphan.block ∈ blocks := by
  induction blocks generalizing buffer with
  | nil => exact .inl filed
  | cons block rest ih =>
      simp only [List.mem_cons]
      rcases ih filed with held | later
      · rcases mem_filedUnder_of_mem_hold held with old | here
        · exact .inl old
        · exact .inr (.inl here)
      · exact .inr (.inr later)

theorem WellFormed.contains_holdAll (wellFormed : buffer.WellFormed) {blocks : List Block}
    {hash : BlockHash}
    (held : (blocks.foldl (fun buffer block => (buffer.hold block now).1) buffer).contains hash =
      true) :
    buffer.contains hash = true ∨ hash ∈ blocks.map Block.hash := by
  rcases (wellFormed.holdAll blocks).contains_iff.mp held with ⟨parent, orphan, filed, rfl⟩
  rcases mem_filedUnder_of_mem_holdAll filed with old | listed
  · exact .inl (wellFormed.contains_iff.mpr ⟨parent, orphan, old, rfl⟩)
  · exact .inr (List.mem_map_of_mem listed)

theorem WellFormed.contains_hold (wellFormed : buffer.WellFormed) {block : Block}
    {hash : BlockHash} (held : (buffer.hold block now).1.contains hash = true) :
    buffer.contains hash = true ∨ hash = block.hash := by
  have either : buffer.contains hash = true ∨ hash ∈ [block].map Block.hash :=
    wellFormed.contains_holdAll held
  simpa using either

theorem capacity_holdAll (blocks : List Block) :
    (blocks.foldl (fun buffer block => (buffer.hold block now).1) buffer).capacity =
      buffer.capacity := by
  induction blocks generalizing buffer with
  | nil => rfl
  | cons block rest ih =>
      simp only [List.foldl_cons, ih, capacity_hold]

end HoldAll

/-! ## Dropping old orphans -/

section Expire

variable {buffer : OrphanBuffer} {maxAge : UInt64} {now : Timestamp}

theorem filedUnder_expire (parent : BlockHash) :
    (buffer.expire maxAge now).1.filedUnder parent =
      (buffer.filedUnder parent).filter (isFresh maxAge now) := by
  simp only [filedUnder, expire, Table.get?_filterMapValues]
  cases buffer.waiting.get? parent with
  | none => rfl
  | some orphans =>
      simp only [Option.bind_some, Option.getD_some]
      split
      case isTrue empty => simpa using (List.isEmpty_iff.mp empty).symm
      case isFalse => rfl

theorem mem_filedUnder_expire {parent : BlockHash} {orphan : Orphan} :
    orphan ∈ (buffer.expire maxAge now).1.filedUnder parent ↔
      orphan ∈ buffer.filedUnder parent ∧ isFresh maxAge now orphan = true := by
  simp only [filedUnder_expire, List.mem_filter]

theorem mem_entries_iff {orphan : Orphan} :
    orphan ∈ buffer.waiting.entries.flatMap Prod.snd ↔
      ∃ parent, orphan ∈ buffer.filedUnder parent := by
  simp only [List.mem_flatMap, filedUnder]
  constructor
  · rintro ⟨⟨parent, orphans⟩, entry, mem⟩
    refine ⟨parent, ?_⟩
    simpa [Table.get?_eq_some_iff.mpr entry] using mem
  · rintro ⟨parent, mem⟩
    cases found : buffer.waiting.get? parent with
    | none => simp [found] at mem
    | some orphans =>
        simp only [found, Option.getD_some] at mem
        exact ⟨(parent, orphans), Table.get?_eq_some_iff.mp found, mem⟩

theorem WellFormed.expire (wellFormed : buffer.WellFormed) :
    (buffer.expire maxAge now).1.WellFormed := by
  constructor
  · intro parent orphan mem
    exact wellFormed.filed parent orphan (mem_filedUnder_expire.mp mem).1
  · intro parent
    simp only [filedUnder_expire]
    exact (List.filter_sublist.map _).nodup (wellFormed.nodup parent)
  · intro parent
    simp only [OrphanBuffer.expire, Table.get?_filterMapValues, ne_eq, Option.bind_eq_some_iff]
    rintro ⟨orphans, _, kept⟩
    split at kept
    case isTrue => cases kept
    case isFalse nonempty =>
        rw [Option.some.inj kept] at nonempty
        exact nonempty rfl
  · intro hash parent
    simp only [mem_filedUnder_expire]
    simp only [OrphanBuffer.expire, get?_forgetParents, List.mem_filter, mem_entries_iff,
      wellFormed.parentOf]
    constructor
    · rintro ⟨kept, orphan, mem, same⟩
      refine ⟨orphan, ⟨mem, ?_⟩, same⟩
      by_contra stale
      exact kept orphan ⟨⟨parent, mem⟩, by simpa using stale⟩ same
    · rintro ⟨orphan, ⟨mem, fresh⟩, same⟩
      refine ⟨?_, orphan, mem, same⟩
      rintro other ⟨⟨parent', mem'⟩, stale⟩ isHash
      have equal := wellFormed.eq_of_hash mem mem' (same.trans isHash.symm)
      rw [equal] at fresh
      simp [fresh] at stale

end Expire

/-! ## Lines of orphans -/

/-- One step along a line of orphans: from an orphan to its parent. -/
def Leads (parents : Table BlockHash BlockHash) (child parent : BlockHash) : Prop :=
  parents.get? child = some parent

theorem rank_le_of_leads {parents : Table BlockHash BlockHash} {rank : BlockHash → Nat}
    (descends : ∀ child parent, Leads parents child parent → rank parent < rank child)
    {first last : BlockHash} (line : Relation.ReflTransGen (Leads parents) first last) :
    rank last ≤ rank first := by
  induction line with
  | refl => exact Nat.le_refl _
  | tail _ step ih =>
      have lower := descends _ _ step
      omega

/-- The search for the start of a line follows the parents of orphans.  It ends at a hash that is not
an orphan's, or at one that is its own ancestor. -/
theorem line_lineStart (parents : Table BlockHash BlockHash) (hash : BlockHash) :
    Relation.ReflTransGen (Leads parents) hash (lineStart parents hash) ∧
      (parents.get? (lineStart parents hash) = none ∨
        Relation.TransGen (Leads parents) (lineStart parents hash) (lineStart parents hash)) := by
  fun_induction lineStart parents hash with
  | case1 parents hash missing => exact ⟨.refl, .inl missing⟩
  | case2 parents hash parent found ih =>
      -- a step in the smaller table is one in the larger
      have larger : ∀ child above, Leads (parents.erase hash) child above →
          Leads parents child above := by
        intro child above leads
        simp only [Leads, Table.get?_erase] at leads ⊢
        split at leads
        case isTrue => cases leads
        case isFalse => exact leads
      rcases ih with ⟨line, start⟩
      have line' := Relation.ReflTransGen.mono larger _ _ line
      refine ⟨.head found line', ?_⟩
      rcases start with missing | back
      · rw [Table.get?_erase] at missing
        split at missing
        case isTrue here =>
            rw [here] at line' ⊢
            exact .inr (.head' found line')
        case isFalse => exact .inl missing
      · exact .inr (Relation.TransGen.mono larger _ _ back)

/-- If every orphan stands above its parent, the search for the start of a line ends at a hash that is
not an orphan's. -/
theorem lineStart_spec {parents : Table BlockHash BlockHash} {rank : BlockHash → Nat}
    (descends : ∀ child parent, Leads parents child parent → rank parent < rank child)
    (hash : BlockHash) :
    Relation.ReflTransGen (Leads parents) hash (lineStart parents hash) ∧
      parents.get? (lineStart parents hash) = none := by
  rcases line_lineStart parents hash with ⟨line, missing | back⟩
  · exact ⟨line, missing⟩
  · rcases Relation.TransGen.head'_iff.mp back with ⟨parent, leads, around⟩
    have lower := descends _ _ leads
    have upper := rank_le_of_leads descends around
    omega

theorem rank_lineStart_lt {parents : Table BlockHash BlockHash} {rank : BlockHash → Nat}
    (descends : ∀ child parent, Leads parents child parent → rank parent < rank child)
    {hash : BlockHash} (elsewhere : lineStart parents hash ≠ hash) :
    rank (lineStart parents hash) < rank hash := by
  rcases (lineStart_spec descends hash).1.cases_head with same | ⟨parent, leads, line⟩
  · exact absurd same.symm elsewhere
  · have first := descends hash parent leads
    have others := rank_le_of_leads descends line
    omega

theorem lineStart_of_not_contains {buffer : OrphanBuffer} {hash : BlockHash}
    (notWaiting : buffer.contains hash = false) : lineStart buffer.parents hash = hash := by
  rw [lineStart]
  split
  case h_1 => rfl
  case h_2 parent found =>
      rw [contains, Table.contains, found] at notWaiting
      cases notWaiting

/-- A step along a line is a filed orphan. -/
theorem WellFormed.exists_of_leads {buffer : OrphanBuffer} (wellFormed : buffer.WellFormed)
    {child parent : BlockHash} (leads : Leads buffer.parents child parent) :
    ∃ orphan ∈ buffer.filedUnder parent,
      orphan.block.hash = child ∧ orphan.block.parentHash = parent := by
  rcases (wellFormed.parentOf child parent).mp leads with ⟨orphan, filed, same⟩
  exact ⟨orphan, filed, same, wellFormed.filed parent orphan filed⟩

end OrphanBuffer

end HeaviestChain
