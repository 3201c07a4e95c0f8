import HeaviestChain.Proofs.BlockTree.ForkChoice
import HeaviestChain.Proofs.NumberIndex

/-!
# The canonical chain

When every block but the first has the number after its parent's, the numbers on a line count up
from zero.  The index is then the head's line written upside down: `Canonical` says so, and every
offer that respects the numbering keeps it.

The proof looks at one move of the head.  The new line and the old one have their lowest blocks in
common, and they part at the highest indexed block of the new line, because the index holds exactly
the old line.  What lies above on the old line leaves, what lies above on the new line joins.
-/

namespace HeaviestChain

namespace BlockTree

/-- A block has the number after its parent's; the number does not start over. -/
def Follows (child parent : Block) : Prop :=
  child.number.toNat = parent.number.toNat + 1

theorem Follows.isGenesis_eq_false {child parent : Block} (follows : Follows child parent) :
    child.isGenesis = false := by
  simp only [Block.isGenesis, decide_eq_false_iff_not, not_and]
  intro zero
  simp only [Follows, zero] at follows
  simp at follows

theorem number_of_isGenesis {block : Block} (genesis : block.isGenesis = true) :
    block.number.toNat = 0 := by
  simp only [Block.isGenesis, decide_eq_true_eq] at genesis
  rw [genesis.1]
  rfl

/-! ## Numbers on a line -/

section Numbers

variable {stored : List StoredBlock} {entry : StoredBlock} {line : List Block}

theorem Line.length_eq (isLine : Line stored entry line) (grown : Grown Follows stored) :
    line.length = entry.block.number.toNat + 1 := by
  induction isLine with
  | first last =>
      rw [number_of_isGenesis (grown.genesis_of_getLast? last).1]
      rfl
  | child mem later linked _ ih =>
      rcases grown.first_or_child mem with ⟨last, _⟩ | ⟨parent, linked', follows, _⟩
      · exact absurd last later
      · rw [linked] at linked'
        cases linked'
        rw [List.length_cons, ih, follows]

/-- From the first block up, the numbers on a line are zero, one, two and so on. -/
theorem Line.numbers_eq (isLine : Line stored entry line) (grown : Grown Follows stored) :
    line.reverse.map (·.number.toNat) = List.range line.length := by
  induction isLine with
  | first last =>
      simp only [List.reverse_singleton, List.map_singleton,
        number_of_isGenesis (grown.genesis_of_getLast? last).1]
      rfl
  | child mem later linked below ih =>
      have length := (Line.child mem later linked below).length_eq grown
      rw [List.length_cons] at length
      rw [List.reverse_cons, List.map_append, ih, List.length_cons, List.range_succ,
        List.map_singleton]
      simp only [List.append_cancel_left_eq, List.cons.injEq, and_true]
      omega

/-- Cut anywhere, a line has the lower numbers below and the higher ones above. -/
theorem Line.number_bounds (isLine : Line stored entry line) (grown : Grown Follows stored)
    {above below : List Block} (split : line = above ++ below) :
    (∀ block ∈ below, block.number.toNat < below.length) ∧
      ∀ block ∈ above, below.length ≤ block.number.toNat := by
  have numbers := isLine.numbers_eq grown
  rw [split, List.reverse_append, List.map_append, List.length_append,
    Nat.add_comm above.length, List.range_add] at numbers
  rcases List.append_inj numbers (by simp) with ⟨lower, upper⟩
  constructor
  · intro block mem
    have inRange : block.number.toNat ∈ List.range below.length := by
      rw [← lower]
      exact List.mem_map_of_mem (List.mem_reverse.mpr mem)
    exact List.mem_range.mp inRange
  · intro block mem
    have shifted : block.number.toNat ∈ (List.range above.length).map (below.length + ·) := by
      rw [← upper]
      exact List.mem_map_of_mem (List.mem_reverse.mpr mem)
    rcases List.mem_map.mp shifted with ⟨offset, _, same⟩
    omega

end Numbers

/-! ## The index of a line -/

/-- How the index names a block. -/
def indexEntry (block : Block) : UInt64 × BlockHash := (block.number, block.hash)

/-- The index of a line, lowest number first. -/
def indexOf (line : List Block) : NumberIndex := line.reverse.map indexEntry

theorem indexOf_append (above below : List Block) :
    indexOf (above ++ below) = indexOf below ++ indexOf above := by
  rw [indexOf, List.reverse_append, List.map_append]
  rfl

theorem mem_indexOf {line : List Block} {number : UInt64} {hash : BlockHash} :
    (number, hash) ∈ indexOf line ↔
      ∃ block ∈ line, block.number = number ∧ block.hash = hash := by
  simp [indexOf, indexEntry]

theorem Line.ascending_indexOf {stored : List StoredBlock} {entry : StoredBlock}
    {line : List Block} (isLine : Line stored entry line) (grown : Grown Follows stored) :
    NumberIndex.Ascending (indexOf line) := by
  have numbers : (line.reverse.map (·.number.toNat)).Pairwise (· < ·) := by
    rw [isLine.numbers_eq grown]
    exact List.pairwise_lt_range
  rw [List.pairwise_map] at numbers
  rw [NumberIndex.Ascending, indexOf, List.pairwise_map]
  exact numbers.imp UInt64.lt_iff_toNat_lt.mpr

/-- Putting the blocks above a part of a line into that part's index gives the index of the line. -/
theorem Line.foldl_put {stored : List StoredBlock} {entry : StoredBlock} {above below : List Block}
    (isLine : Line stored entry (above ++ below)) (grown : Grown Follows stored) :
    above.reverse.foldl (fun index block => index.put block.number block.hash) (indexOf below) =
      indexOf (above ++ below) := by
  have ascending := isLine.ascending_indexOf grown
  rw [indexOf_append] at ascending ⊢
  rw [← NumberIndex.foldl_put ascending]
  simp only [indexOf, List.foldl_map]
  rfl

/-- The index of stored blocks leads back to them. -/
theorem filterMap_indexOf {tree : BlockTree} {line : List Block}
    (stored : ∀ block ∈ line, tree.block? block.hash = some block) :
    (indexOf line).filterMap (fun entry => tree.block? entry.2) = line.reverse := by
  induction line with
  | nil => rfl
  | cons block rest ih =>
      have found := stored block (List.mem_cons_self ..)
      rw [← List.singleton_append, indexOf_append, List.filterMap_append,
        ih fun other mem => stored other (List.mem_cons_of_mem _ mem), List.reverse_append]
      simp [indexOf, indexEntry, found]

/-- The canonical chain, the head first. -/
def bestLine (tree : BlockTree) : List Block :=
  match tree.head with
  | none => []
  | some head => tree.chainTo head.hash

/-- Numbers follow the parents', the head is the earliest of the heaviest, and the index is the
head's line. -/
structure Canonical (tree : BlockTree) : Prop where
  grown : Grown Follows tree.stored
  headed : tree.Headed
  index_eq : tree.index = indexOf tree.bestLine

namespace Canonical

variable {tree : BlockTree} (canonical : tree.Canonical)

include canonical

theorem exists_bestLine {head : ChainHead} (isHead : tree.head = some head) :
    ∃ best, heaviest? tree.stored = some best ∧ head = headOf best ∧
      Line tree.stored best tree.bestLine := by
  rcases canonical.headed.exists_heaviest isHead with ⟨best, heaviest, rfl⟩
  have isLine := canonical.grown.line_ancestry (fun _ _ => Follows.isGenesis_eq_false)
    (mem_of_heaviest? heaviest)
  refine ⟨best, heaviest, rfl, ?_⟩
  simpa [bestLine, isHead, chainTo, headOf] using isLine

/-- The canonical chain is empty, or it is the line of a stored block. -/
theorem bestLine_cases :
    (tree.head = none ∧ tree.stored = [] ∧ tree.bestLine = []) ∨
      ∃ best ∈ tree.stored, Line tree.stored best tree.bestLine := by
  rcases Option.eq_none_or_eq_some tree.head with headless | ⟨head, isHead⟩
  · exact .inl ⟨headless, canonical.headed.stored_eq_nil_iff.mpr headless, by simp [bestLine, headless]⟩
  · rcases canonical.exists_bestLine isHead with ⟨best, heaviest, _, isLine⟩
    exact .inr ⟨best, mem_of_heaviest? heaviest, isLine⟩

theorem exists_entry {block : Block} (mem : block ∈ tree.bestLine) :
    ∃ entry ∈ tree.stored, entry.block = block := by
  rcases canonical.bestLine_cases with ⟨_, _, empty⟩ | ⟨best, _, isLine⟩
  · rw [empty] at mem
    cases mem
  · exact isLine.mem_of_mem mem

theorem ascending : NumberIndex.Ascending tree.index := by
  rw [canonical.index_eq]
  rcases canonical.bestLine_cases with ⟨_, _, empty⟩ | ⟨best, _, isLine⟩
  · rw [empty]
    exact .nil
  · exact isLine.ascending_indexOf canonical.grown

theorem get?_index_eq_some_iff {number : UInt64} {hash : BlockHash} :
    tree.index.get? number = some hash ↔
      ∃ block ∈ tree.bestLine, block.number = number ∧ block.hash = hash := by
  rw [NumberIndex.get?_eq_some_iff canonical.ascending, canonical.index_eq, mem_indexOf]

theorem isIndexed_iff {block : Block} :
    tree.isIndexed block = true ↔
      ∃ other ∈ tree.bestLine, other.number = block.number ∧ other.hash = block.hash := by
  rw [isIndexed, decide_eq_true_iff, canonical.get?_index_eq_some_iff]

/-- The index has a stored block if and only if the block is on the canonical chain. -/
theorem isIndexed_iff_mem {entry : StoredBlock} (mem : entry ∈ tree.stored) :
    tree.isIndexed entry.block = true ↔ entry.block ∈ tree.bestLine := by
  rw [canonical.isIndexed_iff]
  constructor
  · rintro ⟨other, onLine, _, sameHash⟩
    rcases canonical.exists_entry onLine with ⟨otherEntry, otherMem, rfl⟩
    have found := canonical.grown.lookup_of_mem otherMem
    rw [sameHash, canonical.grown.lookup_of_mem mem] at found
    cases found
    exact onLine
  · intro onLine
    exact ⟨entry.block, onLine, rfl, rfl⟩

/-- Cut at the length of its lower part, the index falls into the indexes of both parts. -/
theorem cut_index {leaving common : List Block} (split : tree.bestLine = leaving ++ common)
    {number : UInt64} (cut : number.toNat = common.length) :
    tree.index.below number = indexOf common ∧ tree.index.upFrom number = indexOf leaving := by
  have bounds : (∀ block ∈ common, block.number.toNat < common.length) ∧
      ∀ block ∈ leaving, common.length ≤ block.number.toNat := by
    rcases canonical.bestLine_cases with ⟨_, _, empty⟩ | ⟨best, _, isLine⟩
    · rw [empty, eq_comm, List.append_eq_nil_iff] at split
      rw [split.1, split.2]
      simp
    · exact isLine.number_bounds canonical.grown split
  have lowerBelow : ∀ entry ∈ indexOf common, entry.1 < number := by
    rintro ⟨entryNumber, hash⟩ mem
    rcases mem_indexOf.mp mem with ⟨block, onLine, rfl, _⟩
    rw [UInt64.lt_iff_toNat_lt, cut]
    exact bounds.1 block onLine
  have upperFrom : ∀ entry ∈ indexOf leaving, number ≤ entry.1 := by
    rintro ⟨entryNumber, hash⟩ mem
    rcases mem_indexOf.mp mem with ⟨block, onLine, rfl, _⟩
    rw [UInt64.le_iff_toNat_le, cut]
    exact bounds.2 block onLine
  rw [canonical.index_eq, split, indexOf_append]
  exact ⟨NumberIndex.below_append lowerBelow upperFrom,
    NumberIndex.upFrom_append lowerBelow upperFrom⟩

end Canonical

/-! ## A move of the head -/

section Move

variable {tree : BlockTree} {block : Block} {weight : Difficulty} {newLine : List Block}
  (canonical : tree.Canonical) (fresh : lookup tree.stored block.hash = none)
  (grown : Grown Follows (tree.grow block weight).stored)
  (isLine : Line (tree.grow block weight).stored ⟨block, weight⟩ newLine)

include canonical fresh grown isLine

omit canonical fresh grown isLine in
theorem isIndexed_grow : (tree.grow block weight).isIndexed = tree.isIndexed := rfl

omit canonical fresh grown isLine in
theorem index_grow : (tree.grow block weight).index = tree.index := rfl

/-- The new line and the canonical one agree from the first indexed block of the new line on. -/
theorem exists_common :
    ∃ joining leaving common, newLine = joining ++ common ∧ tree.bestLine = leaving ++ common ∧
      (∀ other ∈ joining, tree.isIndexed other = false) ∧
      common.head? = newLine.find? tree.isIndexed := by
  cases highest : newLine.find? tree.isIndexed with
  | none =>
      rw [List.find?_eq_none] at highest
      -- the first block of the tree lies on both lines, so there is no canonical chain yet
      have noLine : tree.bestLine = [] := by
        rcases canonical.bestLine_cases with ⟨_, _, empty⟩ | ⟨best, mem, bestLine⟩
        · exact empty
        · cases first : tree.stored.getLast? with
          | none =>
              rw [List.getLast?_eq_none_iff] at first
              rw [first] at mem
              cases mem
          | some first' =>
              have stillFirst : (tree.grow block weight).stored.getLast? = some first' := by
                rw [grow, List.getLast?_cons, first]
                rfl
              have onNew := isLine.first_mem stillFirst
              have onBest := bestLine.first_mem first
              have indexed := (canonical.isIndexed_iff_mem (List.mem_of_getLast? first)).mpr onBest
              exact absurd indexed (highest _ onNew)
      refine ⟨newLine, [], [], (List.append_nil _).symm, noLine, ?_, rfl⟩
      intro other mem
      simpa using highest other mem
  | some fork =>
      rw [List.find?_eq_some_iff_append] at highest
      rcases highest with ⟨indexed, joining, below, split, unindexed⟩
      rcases isLine.suffix split with ⟨forkEntry, rfl, forkLine⟩
      rw [canonical.isIndexed_iff] at indexed
      rcases indexed with ⟨other, onBest, _, sameHash⟩
      rcases canonical.bestLine_cases with ⟨_, _, empty⟩ | ⟨best, mem, bestLine⟩
      · rw [empty] at onBest
        cases onBest
      · rcases List.append_of_mem onBest with ⟨leaving, below', split'⟩
        have bestLine' : Line (tree.grow block weight).stored best tree.bestLine := bestLine.cons fresh
        rcases bestLine'.suffix split' with ⟨otherEntry, rfl, otherLine⟩
        -- equal hashes of stored blocks: the canonical chain goes through the fork
        have same := grown.lookup_of_mem otherLine.mem_stored
        rw [sameHash, grown.lookup_of_mem forkLine.mem_stored] at same
        cases same
        have sameBelow := forkLine.unique otherLine
        rw [← sameBelow] at split'
        refine ⟨joining, leaving, _, split, split', ?_, rfl⟩
        intro other mem
        simpa using unindexed other mem

/-- The number from which the index is replaced is the length of the common part. -/
theorem toNat_firstReplaced {joining common : List Block} (split : newLine = joining ++ common)
    (unindexed : ∀ other ∈ joining, tree.isIndexed other = false)
    (highest : common.head? = newLine.find? tree.isIndexed) :
    (((common.head?.map (·.number)).map (· + 1)).getD 0 : UInt64).toNat = common.length := by
  cases common with
  | nil => rfl
  | cons fork below =>
      rcases isLine.suffix split with ⟨forkEntry, rfl, forkLine⟩
      have length := forkLine.length_eq grown
      -- the new block is above the fork, so the number after the fork's is a number of some block
      have blockAbove : block ∈ joining := by
        have head := isLine.head?_eq
        cases joining with
        | cons top rest =>
            rw [split] at head
            cases head
            exact List.mem_cons_self ..
        | nil =>
            rw [split] at head
            have indexed : tree.isIndexed forkEntry.block = true := List.find?_some highest.symm
            rw [canonical.isIndexed_iff] at indexed
            rcases indexed with ⟨other, onBest, _, sameHash⟩
            rcases canonical.exists_entry onBest with ⟨otherEntry, mem, rfl⟩
            have isBlock : forkEntry.block = block := by simpa using head
            rw [isBlock] at sameHash
            exact absurd sameHash (lookup_eq_none_iff.mp fresh otherEntry mem)
      have higher := (isLine.number_bounds grown split).2 block blockAbove
      have fits := block.number.toNat_lt
      simp only [List.head?_cons, Option.map_some, Option.getD_some, UInt64.toNat_add]
      rw [length] at higher ⊢
      exact Nat.mod_eq_of_lt (by simpa using Nat.lt_of_le_of_lt higher fits)

/-- The new line replaces the canonical one: what is above the common part leaves and joins. -/
theorem moveHead_grow :
    ∃ joining leaving common, newLine = joining ++ common ∧ tree.bestLine = leaving ++ common ∧
      (∀ other ∈ joining, tree.isIndexed other = false) ∧
      (tree.grow block weight).moveHead ⟨block.hash, block.number, weight⟩ =
        ({ tree.grow block weight with
            index := indexOf newLine, head := some ⟨block.hash, block.number, weight⟩ },
          ⟨joining.reverse, leaving.reverse⟩) := by
  rcases exists_common canonical fresh grown isLine with
    ⟨joining, leaving, common, newSplit, oldSplit, unindexed, highest⟩
  refine ⟨joining, leaving, common, newSplit, oldSplit, unindexed, ?_⟩
  have chain : (tree.grow block weight).chainTo block.hash = newLine := by
    have walked := grown.line_ancestry (fun _ _ => Follows.isGenesis_eq_false)
      (List.mem_cons_self ..)
    exact walked.unique isLine
  have joined : newLine.takeWhile (fun other => !tree.isIndexed other) = joining := by
    have taken : ∀ other ∈ joining, (!tree.isIndexed other) = true := by
      intro other mem
      rw [unindexed other mem]
      rfl
    rw [newSplit, List.takeWhile_append_of_pos taken]
    cases common with
    | nil => rw [List.takeWhile_nil, List.append_nil]
    | cons fork below =>
        have indexed : tree.isIndexed fork = true := List.find?_some highest.symm
        rw [List.takeWhile_cons, indexed]
        exact List.append_nil _
  have cut := toNat_firstReplaced canonical fresh grown isLine newSplit unindexed highest
  rw [highest] at cut
  rcases canonical.cut_index oldSplit cut with ⟨kept, replaced⟩
  have leftStored : ∀ other ∈ leaving, (tree.grow block weight).block? other.hash = some other := by
    intro other mem
    have onBest : other ∈ tree.bestLine := by
      rw [oldSplit]
      exact List.mem_append_left _ mem
    rcases canonical.exists_entry onBest with ⟨entry, entryMem, rfl⟩
    rw [block?_eq_some_iff]
    exact ⟨entry, grown.lookup_of_mem (List.mem_cons_of_mem _ entryMem), rfl⟩
  have extended := Line.foldl_put (newSplit ▸ isLine) grown
  rw [← newSplit] at extended
  simp only [moveHead, chain, indexedFrom, isIndexed_grow, index_grow, joined, kept, replaced,
    filterMap_indexOf leftStored]
  rw [← extended]

end Move

/-- A change turns one canonical chain into another: above a common part it takes blocks off and
puts blocks on that were not there before. -/
def Turns (change : HeadChange) (old new : List Block) : Prop :=
  ∃ common, old = change.left.reverse ++ common ∧ new = change.joined.reverse ++ common ∧
    ∀ block ∈ change.joined, block ∉ old

theorem canonical_empty : empty.Canonical where
  grown := grown_empty
  headed := headed_empty
  index_eq := rfl

namespace Canonical

variable {tree : BlockTree} {block : Block} (canonical : tree.Canonical)
  (follows : ∀ parent, lookup tree.stored block.parentHash = some parent →
    Follows block parent.block)

include canonical

/-- Blocks off the canonical chain do not change it. -/
theorem bestLine_grow {weight : Difficulty} {head : ChainHead} (isHead : tree.head = some head)
    (fresh : lookup tree.stored block.hash = none) :
    (tree.grow block weight).bestLine = tree.bestLine := by
  rcases canonical.exists_bestLine isHead with ⟨best, heaviest, rfl, _⟩
  have other : block.hash ≠ best.block.hash :=
    fun same => lookup_eq_none_iff.mp fresh best (mem_of_heaviest? heaviest) same.symm
  simp only [bestLine, grow, isHead, headOf, chainTo, ancestry, other, if_false]

include follows

/-- An offer that respects the numbering keeps the index on the head's line, and reports exactly
how the canonical chain changed. -/
theorem attach :
    (tree.attach block).1.Canonical ∧
      match (tree.attach block).2.change? with
      | some change => Turns change tree.bestLine (tree.attach block).1.bestLine
      | none => (tree.attach block).1.bestLine = tree.bestLine := by
  have headed := canonical.headed.attach block
  have offered := tree.offered_attach block
  generalize tree.attach block = result at headed offered ⊢
  cases offered with
  | alreadyStored _ => exact ⟨canonical, rfl⟩
  | parentMissing _ _ => exact ⟨canonical, rfl⟩
  | @sideBranch below head unknown weighed isHead _ =>
      have fresh := contains_eq_false_iff.mp unknown
      have sameLine : (tree.grow block (below + block.localWeight)).bestLine = tree.bestLine :=
        canonical.bestLine_grow isHead fresh
      have sameIndex : (tree.grow block (below + block.localWeight)).index =
          indexOf (tree.grow block (below + block.localWeight)).bestLine := by
        rw [sameLine]
        exact canonical.index_eq
      exact ⟨⟨canonical.grown.grow follows unknown weighed, headed, sameIndex⟩, sameLine⟩
  | @newHead below unknown weighed _ =>
      have fresh := contains_eq_false_iff.mp unknown
      have grown := canonical.grown.grow follows unknown weighed
      have isLine := grown.line_ancestry (fun _ _ => Follows.isGenesis_eq_false)
        (List.mem_cons_self ..)
      rcases moveHead_grow canonical fresh grown isLine with
        ⟨joining, leaving, common, newSplit, oldSplit, unindexed, moved⟩
      dsimp only at headed ⊢
      rw [moved] at headed ⊢
      have newLine : bestLine
          { tree.grow block (below + block.localWeight) with
            index := indexOf (ancestry (tree.grow block (below + block.localWeight)).stored block.hash)
            head := some ⟨block.hash, block.number, below + block.localWeight⟩ } =
          joining ++ common := newSplit
      refine ⟨⟨grown, headed, rfl⟩, common, ?_, ?_, ?_⟩
      · rw [List.reverse_reverse]
        exact oldSplit
      · rw [List.reverse_reverse]
        exact newLine
      · intro other mem onLine
        have indexed := canonical.isIndexed_iff.mpr ⟨other, onLine, rfl, rfl⟩
        rw [unindexed other (List.mem_reverse.mp mem)] at indexed
        cases indexed

end Canonical

/-! ## The canonical chain through its queries -/

namespace Canonical

variable {tree : BlockTree} (canonical : tree.Canonical)

include canonical

theorem block?_of_mem {block : Block} (mem : block ∈ tree.bestLine) :
    tree.block? block.hash = some block := by
  rcases canonical.exists_entry mem with ⟨entry, entryMem, rfl⟩
  rw [block?_eq_some_iff]
  exact ⟨entry, canonical.grown.lookup_of_mem entryMem, rfl⟩

theorem isCanonical_iff {hash : BlockHash} :
    tree.isCanonical hash = true ↔ ∃ block ∈ tree.bestLine, block.hash = hash := by
  simp only [isCanonical, Option.any_eq_true]
  constructor
  · rintro ⟨block, found, indexed⟩
    rcases block?_eq_some_iff.mp found with ⟨entry, isEntry, rfl⟩
    rw [canonical.isIndexed_iff_mem (mem_of_lookup isEntry)] at indexed
    exact ⟨entry.block, indexed, hash_of_lookup isEntry⟩
  · rintro ⟨block, onLine, rfl⟩
    exact ⟨block, canonical.block?_of_mem onLine,
      canonical.isIndexed_iff.mpr ⟨block, onLine, rfl, rfl⟩⟩

theorem blockAt?_eq_some_iff {number : UInt64} {block : Block} :
    tree.blockAt? number = some block ↔ block ∈ tree.bestLine ∧ block.number = number := by
  simp only [blockAt?, Option.bind_eq_some_iff, canonical.get?_index_eq_some_iff]
  constructor
  · rintro ⟨hash, ⟨other, onLine, isNumber, rfl⟩, found⟩
    rw [canonical.block?_of_mem onLine] at found
    cases found
    exact ⟨onLine, isNumber⟩
  · rintro ⟨onLine, isNumber⟩
    exact ⟨block.hash, ⟨block, onLine, isNumber, rfl⟩, canonical.block?_of_mem onLine⟩

/-- The block under a number is the one at that height of the canonical chain. -/
theorem blockAt?_eq (number : UInt64) :
    tree.blockAt? number = tree.bestLine.reverse[number.toNat]? := by
  have heights : tree.bestLine.reverse.map (·.number.toNat) = List.range tree.bestLine.length := by
    rcases canonical.bestLine_cases with ⟨_, _, empty⟩ | ⟨best, _, isLine⟩
    · rw [empty]
      rfl
    · exact isLine.numbers_eq canonical.grown
  have height (index : Nat) (block : Block) (at_ : tree.bestLine.reverse[index]? = some block) :
      block.number.toNat = index := by
    have mapped := congrArg (·[index]?) heights
    simp only [List.getElem?_map, at_, Option.map_some] at mapped
    have inRange := (List.getElem?_eq_some_iff.mp mapped.symm).2
    rw [List.getElem_range] at inRange
    exact inRange.symm
  ext block
  rw [canonical.blockAt?_eq_some_iff]
  constructor
  · rintro ⟨onLine, rfl⟩
    rcases List.mem_iff_getElem?.mp (List.mem_reverse.mpr onLine) with ⟨index, at_⟩
    rw [height index block at_]
    exact at_
  · intro at_
    refine ⟨List.mem_reverse.mp (List.mem_of_getElem? at_), ?_⟩
    exact UInt64.toNat_inj.mp (height _ block at_)

/-- A canonical block above the first one lies on its parent. -/
theorem exists_below {block : Block} (mem : block ∈ tree.bestLine) (above : 0 < block.number) :
    ∃ below ∈ tree.bestLine, block.parentHash = below.hash ∧ Follows block below := by
  rcases canonical.bestLine_cases with ⟨_, _, empty⟩ | ⟨best, _, isLine⟩
  · rw [empty] at mem
    cases mem
  · rcases List.append_of_mem mem with ⟨higher, lower, split⟩
    rcases isLine.suffix split with ⟨entry, rfl, suffixLine⟩
    rcases canonical.grown.first_or_child suffixLine.mem_stored with
      ⟨_, genesis, _⟩ | ⟨parent, linked, follows, _⟩
    · rw [UInt64.lt_iff_toNat_lt, number_of_isGenesis genesis] at above
      cases above
    · cases suffixLine with
      | first last =>
          rw [UInt64.lt_iff_toNat_lt,
            number_of_isGenesis (canonical.grown.genesis_of_getLast? last).1] at above
          cases above
      | child _ _ linked' below =>
          rw [linked] at linked'
          cases linked'
          refine ⟨parent.block, ?_, (hash_of_lookup linked).symm, follows⟩
          rw [split, List.mem_append, List.mem_cons]
          exact .inr (.inr (List.mem_of_mem_head? below.head?_eq))

end Canonical

/-- The number index leads along the canonical chain: it is defined up to the head's number, each
of its blocks lies on the one before, and a block is canonical if and only if it is on the head's
line. -/
structure IndexFollowsHead (tree : BlockTree) : Prop where
  defined : ∀ number, (tree.blockAt? number).isSome = true ↔
    ∃ best, tree.bestNumber? = some best ∧ number ≤ best
  top : ∀ best, tree.bestNumber? = some best →
    ∃ block, tree.best? = some block ∧ tree.blockAt? best = some block
  linked : ∀ number block, tree.blockAt? number = some block → 0 < number →
    ∃ below, tree.blockAt? (number - 1) = some below ∧ block.parentHash = below.hash
  ancestors : ∀ best line, tree.bestHash?.bind tree.find? = some best →
    Line tree.stored best line → ∀ number, tree.blockAt? number = line.reverse[number.toNat]?
  canonical : ∀ hash, tree.isCanonical hash = true ↔
    ∃ best line, tree.bestHash?.bind tree.find? = some best ∧ Line tree.stored best line ∧
      ∃ block ∈ line, block.hash = hash

theorem Canonical.indexFollowsHead {tree : BlockTree} (canonical : tree.Canonical) :
    tree.IndexFollowsHead := by
  rcases Option.eq_none_or_eq_some tree.head with headless | ⟨head, isHead⟩
  · have noLine : tree.bestLine = [] := by simp only [bestLine, headless]
    have undefined (number : UInt64) : tree.blockAt? number = none := by
      simp [canonical.blockAt?_eq, noLine]
    constructor
    · simp [undefined, bestNumber?, headless]
    · simp [bestNumber?, headless]
    · simp [undefined]
    · simp [bestHash?, headless]
    · simp [canonical.isCanonical_iff, noLine, bestHash?, headless]
  · rcases canonical.exists_bestLine isHead with ⟨best, heaviest, rfl, isLine⟩
    have stored := canonical.grown.lookup_of_mem isLine.mem_stored
    have length := isLine.length_eq canonical.grown
    have bestNumber : tree.bestNumber? = some best.block.number := by simp [bestNumber?, isHead, headOf]
    have bestEntry : tree.bestHash?.bind tree.find? = some best := by
      simp [bestHash?, isHead, headOf, find?_eq_lookup, stored]
    have bestBlock : tree.best? = some best.block := by
      simp [best?, isHead, headOf, block?, find?_eq_lookup, stored]
    have topOnLine : best.block ∈ tree.bestLine := List.mem_of_mem_head? isLine.head?_eq
    constructor
    · intro number
      simp only [canonical.blockAt?_eq, Option.isSome_iff_ne_none, ne_eq, List.getElem?_eq_none_iff,
        List.length_reverse, length, bestNumber, Option.some.injEq, exists_eq_left',
        UInt64.le_iff_toNat_le]
      omega
    · intro number isBest
      rw [bestNumber, Option.some.injEq] at isBest
      exact ⟨best.block, bestBlock, canonical.blockAt?_eq_some_iff.mpr ⟨topOnLine, isBest⟩⟩
    · intro number block found above
      rcases canonical.blockAt?_eq_some_iff.mp found with ⟨onLine, rfl⟩
      rcases canonical.exists_below onLine above with ⟨below, belowOnLine, linked, follows⟩
      refine ⟨below, canonical.blockAt?_eq_some_iff.mpr ⟨belowOnLine, ?_⟩, linked⟩
      have positive : (1 : UInt64) ≤ block.number := by
        simp only [UInt64.lt_iff_toNat_lt, UInt64.le_iff_toNat_le] at above ⊢
        exact above
      simp only [Follows] at follows
      rw [← UInt64.toNat_inj, UInt64.toNat_sub_of_le _ _ positive, follows]
      rfl
    · intro entry line isEntry isLine' number
      rw [bestEntry, Option.some.injEq] at isEntry
      subst isEntry
      rw [isLine'.unique isLine, canonical.blockAt?_eq]
    · intro hash
      rw [canonical.isCanonical_iff]
      constructor
      · exact fun onLine => ⟨best, tree.bestLine, bestEntry, isLine, onLine⟩
      · rintro ⟨entry, line, isEntry, isLine', onLine⟩
        rw [bestEntry, Option.some.injEq] at isEntry
        subst isEntry
        rw [isLine'.unique isLine] at onLine
        exact onLine

end BlockTree

end HeaviestChain
