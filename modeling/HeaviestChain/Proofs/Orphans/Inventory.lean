import HeaviestChain.Proofs.Orphans
import Mathlib.Data.List.Perm.Basic

/-!
# All orphans of a buffer

The orphans under all parents, in one list.  In a well-formed buffer no hash occurs in it twice, and
the table of parents has an entry for each of its members and for nothing else; so the size of the
buffer, which is the size of that table, is the length of the list.  When old orphans are dropped,
those that have waited for less than the limit stay, in their order.
-/

namespace HeaviestChain

namespace OrphanBuffer

variable {buffer : OrphanBuffer}

/-- All orphans; those that wait for one parent stand together, in order of arrival. -/
def inventory (buffer : OrphanBuffer) : List Orphan := buffer.waiting.entries.flatMap Prod.snd

theorem mem_inventory {orphan : Orphan} :
    orphan ∈ buffer.inventory ↔ ∃ parent, orphan ∈ buffer.filedUnder parent :=
  mem_entries_iff

namespace WellFormed

variable (wellFormed : buffer.WellFormed)

include wellFormed

theorem parentOf?_eq_some_iff {hash parent : BlockHash} :
    buffer.parentOf? hash = some parent ↔
      ∃ orphan ∈ buffer.inventory, orphan.block.hash = hash ∧ orphan.block.parentHash = parent := by
  rw [parentOf?, wellFormed.parentOf]
  constructor
  · rintro ⟨orphan, filed, same⟩
    exact ⟨orphan, mem_inventory.mpr ⟨parent, filed⟩, same, wellFormed.filed parent orphan filed⟩
  · rintro ⟨orphan, mem, same, isParent⟩
    rcases mem_inventory.mp mem with ⟨place, filed⟩
    have here := wellFormed.filed place orphan filed
    rw [isParent] at here
    exact ⟨orphan, here ▸ filed, same⟩

/-- No hash occurs twice, neither under one parent nor under two. -/
theorem nodup_inventory : (buffer.inventory.map (·.block.hash)).Nodup := by
  have keys := List.pairwise_map.mp buffer.waiting.nodup_keys
  have filed {entry : BlockHash × List Orphan} (mem : entry ∈ buffer.waiting.entries) :
      buffer.filedUnder entry.1 = entry.2 := by
    rw [filedUnder, Table.get?_eq_some_iff.mpr mem, Option.getD_some]
  rw [inventory, List.map_flatMap, List.nodup_flatMap]
  constructor
  · intro entry mem
    rw [← filed mem]
    exact wellFormed.nodup entry.1
  · apply keys.imp_of_mem
    intro entry other mem mem' different hash listed listed'
    rcases List.mem_map.mp listed with ⟨orphan, under, rfl⟩
    rcases List.mem_map.mp listed' with ⟨twin, under', same⟩
    rw [← filed mem] at under
    rw [← filed mem'] at under'
    have equal := wellFormed.eq_of_hash under' under same
    rw [equal] at under'
    exact different
      ((wellFormed.filed _ _ under).symm.trans (wellFormed.filed _ _ under'))

theorem size_eq : buffer.size = buffer.inventory.length := by
  have distinct : buffer.parents.keys.Nodup := buffer.parents.nodup_keys
  have known (hash : BlockHash) : hash ∈ buffer.parents.keys ↔ buffer.contains hash = true :=
    Table.contains_iff.symm
  have same : buffer.parents.keys.Perm (buffer.inventory.map (·.block.hash)) := by
    rw [List.perm_ext_iff_of_nodup distinct wellFormed.nodup_inventory]
    intro hash
    simp only [known, wellFormed.contains_iff, List.mem_map, mem_inventory]
    constructor
    · rintro ⟨parent, orphan, filed, isHash⟩
      exact ⟨orphan, ⟨parent, filed⟩, isHash⟩
    · rintro ⟨orphan, ⟨parent, filed⟩, isHash⟩
      exact ⟨parent, orphan, filed, isHash⟩
  calc buffer.size = buffer.parents.keys.length := (List.length_map _).symm
    _ = (buffer.inventory.map (·.block.hash)).length := same.length_eq
    _ = buffer.inventory.length := List.length_map _

end WellFormed

/-! ## Dropping old orphans -/

section Expire

variable {maxAge : UInt64} {now : Timestamp}

/-- The age is counted in whole numbers, and is zero before the arrival. -/
theorem isFresh_iff {orphan : Orphan} :
    isFresh maxAge now orphan = true ↔
      now.seconds.toNat - orphan.receivedAt.seconds.toNat < maxAge.toNat := by
  rw [isFresh, decide_eq_true_iff, Timestamp.ageAt, UInt64.lt_iff_toNat_lt, Word64.toNat_subToZero]

theorem inventory_expire :
    (buffer.expire maxAge now).1.inventory = buffer.inventory.filter (isFresh maxAge now) := by
  simp only [inventory, expire, Table.filterMapValues]
  induction buffer.waiting.entries with
  | nil => rfl
  | cons entry rest ih =>
      rw [List.flatMap_cons, List.filter_append, ← ih, List.filterMap_cons]
      cases kept : entry.2.filter (isFresh maxAge now) with
      | nil => rfl
      | cons _ _ => rfl

theorem WellFormed.size_expire (wellFormed : buffer.WellFormed) :
    (buffer.expire maxAge now).1.size + (buffer.expire maxAge now).2 = buffer.size := by
  rw [wellFormed.expire.size_eq, wellFormed.size_eq, inventory_expire]
  exact (List.length_eq_length_filter_add (isFresh maxAge now)).symm

end Expire

end OrphanBuffer

end HeaviestChain
