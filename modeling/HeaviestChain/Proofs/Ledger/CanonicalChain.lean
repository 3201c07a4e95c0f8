import HeaviestChain.Proofs.BlockTree.Canonical
import HeaviestChain.Proofs.Ledger.Run

/-!
# The canonical chain of a ledger

Admission checks that a block's number is the one after its parent's, in machine words.  A number
is smaller than the number of stored blocks, so as long as these can be counted in a word the
numbers do not start over, and the tree's index follows the head (`BlockTree.Canonical`).  All of
this holds after every run, with any answers of the state engine.
-/

namespace HeaviestChain

namespace BlockTree

open Ledger (Admitted Joins)

/-- Every stored block is smaller than their count: each adds at most one to its parent's number. -/
theorem number_lt_length {stored : List StoredBlock} (grown : Grown Admitted stored)
    {entry : StoredBlock} (mem : entry ∈ stored) :
    entry.block.number.toNat < stored.length := by
  induction grown generalizing entry with
  | empty => cases mem
  | first genesis =>
      rw [List.mem_singleton] at mem
      subst mem
      rw [number_of_isGenesis genesis]
      exact Nat.zero_lt_one
  | @child older block parent _ _ linked admitted ih =>
      rw [List.length_cons]
      rw [List.mem_cons] at mem
      rcases mem with rfl | old
      · have parentSmall := ih (mem_of_lookup linked)
        have atMostNext := Nat.mod_le (parent.block.number.toNat + 1) (2 ^ 64)
        simp only [admitted.2, UInt64.toNat_add, UInt64.toNat_one]
        exact Nat.lt_of_le_of_lt atMostNext (Nat.succ_lt_succ parentSmall)
      · exact Nat.lt_succ_of_lt (ih old)

/-- What admission keeps of a tree. -/
structure Sound (tree : BlockTree) : Prop where
  grown : Grown Admitted tree.stored
  canonical : tree.count ≤ UInt64.size → tree.Canonical

theorem sound_empty : empty.Sound where
  grown := grown_empty
  canonical := fun _ => canonical_empty

theorem count_attach {tree : BlockTree} {block : Block} (joins : Joins tree block) :
    (tree.attach block).1.count = tree.count + 1 := by
  rcases joins.exists_stored_attach with ⟨weight, added⟩
  rw [count, added]
  rfl

namespace Sound

variable {tree : BlockTree} {block : Block} (sound : tree.Sound) (joins : Joins tree block)

include sound joins

/-- While the blocks can be counted in a word, the number after a parent's does not start over. -/
theorem follows (fits : (tree.attach block).1.count ≤ UInt64.size) :
    ∀ parent, lookup tree.stored block.parentHash = some parent → Follows block parent.block := by
  intro parent linked
  rw [count_attach joins, count] at fits
  have small := number_lt_length sound.grown (mem_of_lookup linked)
  simp only [Follows, (joins.admitted parent linked).2, UInt64.toNat_add, UInt64.toNat_one]
  exact Nat.mod_eq_of_lt (Nat.lt_of_lt_of_le (Nat.succ_lt_succ small) fits)

theorem canonical_before (fits : (tree.attach block).1.count ≤ UInt64.size) : tree.Canonical := by
  apply sound.canonical
  rw [count_attach joins] at fits
  omega

theorem attach : (tree.attach block).1.Sound where
  grown := sound.grown.attach joins.admitted
  canonical := fun fits =>
    ((sound.canonical_before joins fits).attach (sound.follows joins fits)).1

end Sound

/-- A tree is empty, or exactly one stored block is a genesis block and every other one has its
parent stored and the number after it. -/
def Rooted (tree : BlockTree) : Prop :=
  tree.isEmpty = true ∨
    ∃ first, tree.block? first.hash = some first ∧ first.isGenesis = true ∧
      ∀ hash block, tree.block? hash = some block → block ≠ first →
        block.isGenesis = false ∧
          ∃ parent, tree.block? block.parentHash = some parent ∧ block.number = parent.number + 1

theorem Sound.rooted {tree : BlockTree} (sound : tree.Sound) : tree.Rooted := by
  cases last : tree.stored.getLast? with
  | none =>
      rw [List.getLast?_eq_none_iff] at last
      left
      rw [isEmpty, last]
      rfl
  | some first =>
      have found := sound.grown.lookup_of_mem (List.mem_of_getLast? last)
      refine .inr ⟨first.block, block?_eq_some_iff.mpr ⟨first, found, rfl⟩,
        (sound.grown.genesis_of_getLast? last).1, ?_⟩
      intro hash block stored other
      rcases block?_eq_some_iff.mp stored with ⟨entry, isEntry, rfl⟩
      rcases sound.grown.first_or_child (mem_of_lookup isEntry) with
        ⟨last', _⟩ | ⟨parent, linked, admitted, _⟩
      · rw [last] at last'
        cases last'
        exact absurd rfl other
      · exact ⟨admitted.1, parent.block, block?_eq_some_iff.mpr ⟨parent, linked, rfl⟩, admitted.2⟩

end BlockTree

namespace Ledger

variable {σ : Type} [StateEngine σ]

theorem sound_examine {ledger : Ledger σ} (block : Block) (now : Timestamp)
    (sound : ledger.tree.Sound) : (ledger.examine block now).ledger.tree.Sound := by
  rcases ledger.examine_tree_pool block now with ⟨same, _⟩ | ⟨joins, attached, _⟩
  · rw [same]
    exact sound
  · rw [attached]
    exact sound.attach joins

theorem sound_onward {first last : Ledger σ × List Block} (onward : Onward first last)
    (sound : first.1.tree.Sound) : last.1.tree.Sound := by
  apply onward_induction (P := fun ledger => ledger.tree.Sound) _ _ _ _ onward sound
  · exact fun _ block now sound => sound_examine block now sound
  · exact fun _ _ sound => sound
  · exact fun _ _ sound => sound
  · exact fun _ _ sound => sound

theorem headed_onward {first last : Ledger σ × List Block} (onward : Onward first last)
    (headed : first.1.tree.Headed) : last.1.tree.Headed := by
  apply onward_induction (P := fun ledger => ledger.tree.Headed) _ _ _ _ onward headed
  · intro ledger block now headed
    rcases ledger.examine_tree_pool block now with ⟨same, _⟩ | ⟨_, attached, _⟩
    · rw [same]
      exact headed
    · rw [attached]
      exact headed.attach block
  · exact fun _ _ headed => headed
  · exact fun _ _ headed => headed
  · exact fun _ _ headed => headed

theorem rises_onward {first last : Ledger σ × List Block} (onward : Onward first last) :
    BlockTree.Rises first.1.tree.head last.1.tree.head := by
  apply onward_induction (P := fun ledger => BlockTree.Rises first.1.tree.head ledger.tree.head)
    _ _ _ _ onward (.inl rfl)
  · intro ledger block now rises
    rcases ledger.examine_tree_pool block now with ⟨same, _⟩ | ⟨_, attached, _⟩
    · rw [same]
      exact rises
    · rw [attached]
      exact rises.trans (ledger.tree.rises_attach block)
  · exact fun _ _ rises => rises
  · exact fun _ _ rises => rises
  · exact fun _ _ rises => rises

/-- Stored blocks stay stored, with their weights. -/
theorem stored_onward {first last : Ledger σ × List Block} (onward : Onward first last)
    {entry : StoredBlock} (mem : entry ∈ first.1.tree.stored) : entry ∈ last.1.tree.stored := by
  apply onward_induction (P := fun ledger => entry ∈ ledger.tree.stored) _ _ _ _ onward mem
  · intro ledger block now mem
    rcases ledger.examine_tree_pool block now with ⟨same, _⟩ | ⟨joins, attached, _⟩
    · rw [same]
      exact mem
    · rcases joins.exists_stored_attach with ⟨weight, added⟩
      rw [attached, added]
      exact List.mem_cons_of_mem _ mem
  · exact fun _ _ mem => mem
  · exact fun _ _ mem => mem
  · exact fun _ _ mem => mem

/-- After every run the stored blocks form one tree of blocks with consecutive numbers, which has a
head unless nothing is stored; numbers stay below the count of blocks, and as long as that count
fits in a word the number index follows the head and no number can overflow when one is added to
it. -/
theorem index_follows_head_of_run (engine : σ) (capacity : Nat) (commands : List (Command σ)) :
    let tree := ((empty engine capacity).run commands).tree
    tree.Rooted ∧
      (tree.head = none ↔ tree.isEmpty = true) ∧
      (∀ hash block, tree.block? hash = some block → block.number.toNat < tree.count) ∧
      (tree.count ≤ UInt64.size → tree.IndexFollowsHead) ∧
      (tree.count < UInt64.size → ∀ hash block, tree.block? hash = some block →
        (block.number + 1).toNat = block.number.toNat + 1) := by
  intro tree
  have onward := (empty engine capacity).onward_run commands
  have sound : tree.Sound := sound_onward onward BlockTree.sound_empty
  have headed : tree.Headed := headed_onward onward BlockTree.headed_empty
  have small : ∀ hash block, tree.block? hash = some block → block.number.toNat < tree.count := by
    intro hash block stored
    rcases BlockTree.block?_eq_some_iff.mp stored with ⟨entry, found, rfl⟩
    exact BlockTree.number_lt_length sound.grown (BlockTree.mem_of_lookup found)
  refine ⟨sound.rooted, headed.head_eq_none_iff, small,
    fun fits => (sound.canonical fits).indexFollowsHead, ?_⟩
  intro fits hash block stored
  have bound := small hash block stored
  rw [UInt64.toNat_add]
  exact Nat.mod_eq_of_lt (Nat.lt_of_le_of_lt (Nat.succ_le_of_lt bound) fits)

end Ledger

end HeaviestChain
