import HeaviestChain.Proofs.Orphans

/-!
# Room among the orphans

An orphan buffer keeps at most as many blocks as its capacity allows.  The places that released
blocks have left are free, so the blocks find room when they are held again.
-/

namespace HeaviestChain

namespace OrphanBuffer

variable {buffer : OrphanBuffer}

/-! ## Sizes -/

theorem size_hold_le (buffer : OrphanBuffer) (block : Block) (now : Timestamp) :
    (buffer.hold block now).1.size ≤ buffer.size + 1 := by
  simp only [hold]
  split
  case isTrue => exact Nat.le_succ _
  case isFalse => exact Table.size_set_le ..

theorem size_hold_le_capacity (fits : buffer.size ≤ buffer.capacity) (block : Block)
    (now : Timestamp) : (buffer.hold block now).1.size ≤ buffer.capacity := by
  by_cases refused : buffer.contains block.hash = true ∨ buffer.capacity ≤ buffer.size
  · rw [hold_eq_self refused]
    exact fits
  · rw [not_or, Nat.not_le] at refused
    exact Nat.le_trans (buffer.size_hold_le block now) refused.2

theorem size_holdAll_le_capacity (fits : buffer.size ≤ buffer.capacity) (blocks : List Block)
    (now : Timestamp) :
    (blocks.foldl (fun buffer block => (buffer.hold block now).1) buffer).size ≤
      buffer.capacity := by
  induction blocks generalizing buffer with
  | nil => exact fits
  | cons block rest ih =>
      have next := size_hold_le_capacity fits block now
      rw [← capacity_hold buffer block now] at next ⊢
      exact ih next

theorem size_take_le (buffer : OrphanBuffer) (hash : BlockHash) :
    (buffer.take hash).2.size ≤ buffer.size := by
  simp only [take]
  split
  case h_1 => exact Nat.le_refl _
  case h_2 =>
      split
      case h_1 => exact Table.size_erase_le ..
      case h_2 => exact Table.size_erase_le ..

theorem size_forgetParents_le (parents : Table BlockHash BlockHash) (orphans : List Orphan) :
    (forgetParents parents orphans).size ≤ parents.size := by
  induction orphans generalizing parents with
  | nil => exact Nat.le_refl _
  | cons orphan rest ih => exact Nat.le_trans (ih _) (Table.size_erase_le ..)

theorem size_expire_le (buffer : OrphanBuffer) (maxAge : UInt64) (now : Timestamp) :
    (buffer.expire maxAge now).1.size ≤ buffer.size :=
  size_forgetParents_le ..

theorem size_release_le (buffer : OrphanBuffer) (parent : BlockHash) :
    (buffer.release parent).2.size ≤ buffer.size := by
  simp only [release]
  split
  case h_1 => exact Nat.le_refl _
  case h_2 => exact size_forgetParents_le ..

/-- Each of several known orphans leaves a place. -/
theorem size_forgetParents_add_le {parents : Table BlockHash BlockHash} {orphans : List Orphan}
    (nodup : (orphans.map (·.block.hash)).Nodup)
    (known : ∀ orphan ∈ orphans, parents.contains orphan.block.hash = true) :
    (forgetParents parents orphans).size + orphans.length ≤ parents.size := by
  induction orphans generalizing parents with
  | nil => exact Nat.le_refl _
  | cons orphan rest ih =>
      rw [List.map_cons, List.nodup_cons] at nodup
      rw [List.forall_mem_cons] at known
      have others : ∀ other ∈ rest,
          (parents.erase orphan.block.hash).contains other.block.hash = true := by
        intro other mem
        have different : other.block.hash ≠ orphan.block.hash :=
          fun same => nodup.1 (List.mem_map.mpr ⟨other, mem, same⟩)
        rw [Table.contains, Table.get?_erase, if_neg different]
        exact known.2 other mem
      have first := Table.size_erase_lt known.1
      have later := ih nodup.2 others
      simp only [forgetParents, List.foldl_cons, List.length_cons] at later ⊢
      omega

/-- Released blocks leave their places. -/
theorem WellFormed.size_release_add_le (wellFormed : buffer.WellFormed) (parent : BlockHash) :
    (buffer.release parent).2.size + (buffer.release parent).1.length ≤ buffer.size := by
  have nodup := wellFormed.nodup parent
  have known : ∀ orphan ∈ buffer.filedUnder parent, buffer.contains orphan.block.hash = true :=
    fun orphan filed => wellFormed.contains_iff.mpr ⟨parent, orphan, filed, rfl⟩
  simp only [filedUnder] at nodup known
  simp only [OrphanBuffer.release]
  split
  case h_1 => exact Nat.le_refl _
  case h_2 orphans found =>
      simp only [found, Option.getD_some] at nodup known
      simp only [List.length_map]
      exact size_forgetParents_add_le nodup known

/-! ## Holding blocks again -/

theorem mem_filedUnder_holdAll_of_mem {parent : BlockHash} {orphan : Orphan}
    (filed : orphan ∈ buffer.filedUnder parent) (blocks : List Block) (now : Timestamp) :
    orphan ∈
      (blocks.foldl (fun buffer block => (buffer.hold block now).1) buffer).filedUnder parent := by
  induction blocks generalizing buffer with
  | nil => exact filed
  | cons block rest ih => exact ih (mem_filedUnder_hold_of_mem filed block now)

theorem hold_eq_true_of_room {block : Block} (new : buffer.contains block.hash = false)
    (room : buffer.size < buffer.capacity) : (buffer.hold block now).2 = true := by
  simp only [hold, new, Nat.not_le_of_lt room, decide_false, Bool.or_false, Bool.false_eq_true,
    if_false]

/-- The buffer can hold all blocks of a list: they are new, and there is room for them. -/
structure Fits (buffer : OrphanBuffer) (blocks : List Block) : Prop where
  wellFormed : buffer.WellFormed
  new : ∀ block ∈ blocks, buffer.contains block.hash = false
  distinct : (blocks.map Block.hash).Nodup
  room : buffer.size + blocks.length ≤ buffer.capacity

namespace Fits

variable {block : Block} {blocks : List Block} {now : Timestamp}

theorem tail (fits : buffer.Fits (block :: blocks)) : buffer.Fits blocks where
  wellFormed := fits.wellFormed
  new := (List.forall_mem_cons.mp fits.new).2
  distinct := (List.nodup_cons.mp fits.distinct).2
  room := Nat.le_trans (Nat.le_succ _) fits.room

theorem room_of_cons (fits : buffer.Fits (block :: blocks)) : buffer.size < buffer.capacity := by
  have room := fits.room
  rw [List.length_cons] at room
  omega

theorem hold_eq_true (fits : buffer.Fits (block :: blocks)) : (buffer.hold block now).2 = true :=
  hold_eq_true_of_room (List.forall_mem_cons.mp fits.new).1 fits.room_of_cons

theorem hold (fits : buffer.Fits (block :: blocks)) : (buffer.hold block now).1.Fits blocks where
  wellFormed := fits.wellFormed.hold block now
  new := by
    intro other mem
    rw [← Bool.not_eq_true]
    intro held
    rcases fits.wellFormed.contains_hold held with old | same
    · simp [fits.tail.new other mem] at old
    · exact (List.nodup_cons.mp fits.distinct).1 (List.mem_map.mpr ⟨other, mem, same⟩)
  distinct := fits.tail.distinct
  room := by
    have room := fits.room
    have size := buffer.size_hold_le block now
    rw [List.length_cons] at room
    rw [capacity_hold]
    omega

/-- None of the blocks is turned away when all are held one after the other. -/
theorem holdAll_eq_true (fits : buffer.Fits blocks) {earlier later : List Block}
    (split : blocks = earlier ++ block :: later) :
    ((earlier.foldl (fun buffer block => (buffer.hold block now).1) buffer).hold block now).2 =
      true := by
  subst split
  induction earlier generalizing buffer with
  | nil => exact fits.hold_eq_true
  | cons first earlier ih => exact ih fits.hold

theorem mem_filedUnder_holdAll (fits : buffer.Fits blocks) (listed : block ∈ blocks) :
    (⟨block, now⟩ : Orphan) ∈
      (blocks.foldl (fun buffer block => (buffer.hold block now).1) buffer).filedUnder
        block.parentHash := by
  induction blocks generalizing buffer with
  | nil => cases listed
  | cons first rest ih =>
      rw [List.mem_cons] at listed
      rcases listed with rfl | later
      · have new := (List.forall_mem_cons.mp fits.new).1
        have filed : (⟨block, now⟩ : Orphan) ∈
            (buffer.hold block now).1.filedUnder block.parentHash :=
          (mem_filedUnder_hold new fits.room_of_cons).mpr (.inr ⟨rfl, rfl⟩)
        exact mem_filedUnder_holdAll_of_mem filed rest now
      · exact ih fits.hold later

end Fits

end OrphanBuffer

end HeaviestChain
