import HeaviestChain.Proofs.BlockTree.Canonical
import Mathlib.Logic.ExistsUnique

/-!
# Trees of the same blocks

Two trees that hold the same blocks may have received them in different orders.  They still give
every block the same weight, because a weight depends on the line below the block only, and their
heads weigh the same.  The heads themselves may differ where several blocks are heaviest: the one
that came first is preferred.  When only one is, head and canonical chain are the same too.
-/

namespace HeaviestChain

namespace BlockTree

/-! ## Stored blocks -/

section Stored

variable {rule : Block → Block → Prop} {stored others : List StoredBlock}
  (grown : Grown rule stored) (grown' : Grown rule others)
  (notGenesis : ∀ child parent, rule child parent → child.isGenesis = false)

include grown grown' notGenesis

/-- A block weighs the same in both trees. -/
theorem Grown.subset
    (within : ∀ entry ∈ stored, ∃ entry' ∈ others, entry'.block = entry.block) :
    ∀ entry ∈ stored, entry ∈ others := by
  induction grown with
  | empty =>
      intro entry mem
      cases mem
  | @first block genesis =>
      intro entry mem
      rw [List.mem_singleton] at mem
      subst mem
      rcases within _ (List.mem_singleton_self _) with ⟨entry', mem', rfl⟩
      rcases grown'.first_or_child mem' with ⟨_, _, weight⟩ | ⟨_, _, obeys, _⟩
      · rw [← weight]
        exact mem'
      · rw [notGenesis _ _ obeys] at genesis
        cases genesis
  | @child older block parent _ _ linked obeys ih =>
      have olderWithin := ih fun entry mem => within entry (List.mem_cons_of_mem _ mem)
      intro entry mem
      rw [List.mem_cons] at mem
      rcases mem with rfl | old
      · rcases within _ (List.mem_cons_self ..) with ⟨entry', mem', rfl⟩
        rcases grown'.first_or_child mem' with ⟨_, genesis, _⟩ | ⟨parent', linked', _, weight⟩
        · rw [notGenesis _ _ obeys] at genesis
          cases genesis
        · have found := grown'.lookup_of_mem (olderWithin parent (mem_of_lookup linked))
          rw [hash_of_lookup linked, linked'] at found
          cases found
          rw [← weight]
          exact mem'
      · exact olderWithin entry old

variable (same : ∀ entry, entry ∈ stored ↔ entry ∈ others)

include same

omit notGenesis in
theorem lookup_congr (hash : BlockHash) : lookup stored hash = lookup others hash := by
  apply Option.ext
  intro entry
  constructor
  · intro found
    rw [← hash_of_lookup found]
    exact grown'.lookup_of_mem ((same entry).mp (mem_of_lookup found))
  · intro found
    rw [← hash_of_lookup found]
    exact grown.lookup_of_mem ((same entry).mpr (mem_of_lookup found))

theorem getLast?_congr {entry : StoredBlock} (last : stored.getLast? = some entry) :
    others.getLast? = some entry := by
  have genesis := (grown.genesis_of_getLast? last).1
  rcases grown'.first_or_child ((same entry).mp (List.mem_of_getLast? last)) with
    ⟨last', _⟩ | ⟨_, _, obeys, _⟩
  · exact last'
  · rw [notGenesis _ _ obeys] at genesis
    cases genesis

/-- A block has the same line in both trees. -/
theorem Line.congr {entry : StoredBlock} {line : List Block} (isLine : Line stored entry line) :
    Line others entry line := by
  induction isLine with
  | first last => exact .first (getLast?_congr grown grown' notGenesis same last)
  | @child entry parent _ mem later linked _ ih =>
      rw [lookup_congr grown grown' same] at linked
      refine .child ((same entry).mp mem) ?_ linked ih
      intro last
      exact later (getLast?_congr grown' grown notGenesis (fun other => (same other).symm) last)

end Stored

/-! ## Heads -/

/-- No stored block weighs more than the one with this hash. -/
def IsHeaviest (tree : BlockTree) (hash : BlockHash) : Prop :=
  ∃ weight, tree.weight? hash = some weight ∧
    ∀ other weight', tree.weight? other = some weight' → weight' ≤ weight

theorem weight?_eq_some_iff {tree : BlockTree} {hash : BlockHash} {weight : Difficulty} :
    tree.weight? hash = some weight ↔
      ∃ entry, lookup tree.stored hash = some entry ∧ entry.totalWeight = weight := by
  simp [weight?, find?_eq_lookup]

namespace Canonical

variable {tree other : BlockTree} (canonical : tree.Canonical) (canonical' : other.Canonical)
  (same : ∀ entry, entry ∈ tree.stored ↔ entry ∈ other.stored)

include canonical canonical' same

theorem weight?_congr (hash : BlockHash) : tree.weight? hash = other.weight? hash := by
  simp only [weight?, find?_eq_lookup, lookup_congr canonical.grown canonical'.grown same]

/-- Either both trees are empty, or both have a heaviest block, which is their head. -/
theorem heads_cases :
    (tree.head = none ∧ other.head = none) ∨
      ∃ best best', tree.head = some (headOf best) ∧ other.head = some (headOf best') ∧
        heaviest? tree.stored = some best ∧ heaviest? other.stored = some best' := by
  rcases Option.eq_none_or_eq_some tree.head with headless | ⟨head, isHead⟩
  · rw [← canonical.headed.stored_eq_nil_iff] at headless
    have empty : other.stored = [] := by
      rw [List.eq_nil_iff_forall_not_mem]
      intro entry mem
      have mem' := (same entry).mpr mem
      rw [headless] at mem'
      cases mem'
    exact .inl ⟨canonical.headed.stored_eq_nil_iff.mp headless,
      canonical'.headed.stored_eq_nil_iff.mp empty⟩
  · rcases canonical.headed.exists_heaviest isHead with ⟨best, heaviest, rfl⟩
    have mem := (same best).mp (mem_of_heaviest? heaviest)
    rcases Option.eq_none_or_eq_some other.head with headless | ⟨head, isHead'⟩
    · rw [← canonical'.headed.stored_eq_nil_iff] at headless
      rw [headless] at mem
      cases mem
    · rcases canonical'.headed.exists_heaviest isHead' with ⟨best', heaviest', rfl⟩
      exact .inr ⟨best, best', isHead, isHead', heaviest, heaviest'⟩

omit canonical canonical' in
theorem le_of_heaviest?_of_mem {best best' : StoredBlock}
    (heaviest : heaviest? tree.stored = some best)
    (heaviest' : heaviest? other.stored = some best') : best.totalWeight ≤ best'.totalWeight :=
  le_of_heaviest? heaviest' ((same best).mp (mem_of_heaviest? heaviest))

theorem bestWeight?_congr : tree.bestWeight? = other.bestWeight? := by
  rcases canonical.heads_cases canonical' same with
    ⟨headless, headless'⟩ | ⟨best, best', isHead, isHead', heaviest, heaviest'⟩
  · rw [bestWeight?, bestWeight?, headless, headless']
  · have le := le_of_heaviest?_of_mem same heaviest heaviest'
    have ge := le_of_heaviest?_of_mem (fun entry => (same entry).symm) heaviest' heaviest
    have equal : best.totalWeight = best'.totalWeight := by
      rw [Difficulty.le_iff] at le ge
      exact Difficulty.ext (Nat.le_antisymm le ge)
    simp only [bestWeight?, isHead, isHead', headOf, Option.map_some, equal]

omit canonical' same in
theorem isHeaviest_of_heaviest? {best : StoredBlock}
    (heaviest : heaviest? tree.stored = some best) : tree.IsHeaviest best.block.hash := by
  have found := canonical.grown.lookup_of_mem (mem_of_heaviest? heaviest)
  refine ⟨best.totalWeight, weight?_eq_some_iff.mpr ⟨best, found, rfl⟩, ?_⟩
  intro other weight weighed
  rcases weight?_eq_some_iff.mp weighed with ⟨entry, found', rfl⟩
  exact le_of_heaviest? heaviest (mem_of_lookup found')

/-- When only one block is heaviest, head and canonical chain do not depend on the order in which
the blocks came. -/
theorem head_index_congr (unique : ∃! hash, tree.IsHeaviest hash) :
    tree.head = other.head ∧ tree.index = other.index := by
  rcases canonical.heads_cases canonical' same with
    ⟨headless, headless'⟩ | ⟨best, best', isHead, isHead', heaviest, heaviest'⟩
  · have noLine : tree.bestLine = [] := by simp only [bestLine, headless]
    have noLine' : other.bestLine = [] := by simp only [bestLine, headless']
    rw [headless, headless', canonical.index_eq, canonical'.index_eq, noLine, noLine']
    exact ⟨rfl, rfl⟩
  · have asHeavy : tree.IsHeaviest best'.block.hash := by
      rcases canonical'.isHeaviest_of_heaviest? heaviest' with ⟨weight, weighed, most⟩
      refine ⟨weight, (canonical.weight?_congr canonical' same _).trans weighed, ?_⟩
      intro hash weight' weighed'
      rw [canonical.weight?_congr canonical' same] at weighed'
      exact most hash weight' weighed'
    have sameHash := unique.unique (canonical.isHeaviest_of_heaviest? heaviest) asHeavy
    have sameBest : best = best' := by
      have found := canonical'.grown.lookup_of_mem ((same best).mp (mem_of_heaviest? heaviest))
      rw [sameHash, canonical'.grown.lookup_of_mem (mem_of_heaviest? heaviest')] at found
      exact (Option.some.inj found).symm
    subst sameBest
    refine ⟨isHead.trans isHead'.symm, ?_⟩
    rcases canonical.exists_bestLine isHead with ⟨entry, isBest, _, isLine⟩
    rcases canonical'.exists_bestLine isHead' with ⟨entry', isBest', _, isLine'⟩
    rw [heaviest] at isBest
    rw [heaviest'] at isBest'
    cases isBest
    cases isBest'
    have transferred := isLine.congr canonical.grown canonical'.grown
      (fun _ _ => Follows.isGenesis_eq_false) same
    rw [canonical.index_eq, canonical'.index_eq, transferred.unique isLine']

theorem blockAt?_congr (unique : ∃! hash, tree.IsHeaviest hash) (number : UInt64) :
    tree.blockAt? number = other.blockAt? number := by
  have sameIndex := (canonical.head_index_congr canonical' same unique).2
  have sameBlock : tree.block? = other.block? := by
    funext hash
    simp only [block?, find?_eq_lookup, lookup_congr canonical.grown canonical'.grown same]
  simp only [blockAt?, sameIndex, sameBlock]

end Canonical

end BlockTree

end HeaviestChain
