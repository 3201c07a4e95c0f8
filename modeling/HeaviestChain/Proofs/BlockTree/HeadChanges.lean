import HeaviestChain.Proofs.BlockTree.Canonical
import Mathlib.Data.List.DropRight

/-!
# Changes of the head

What a block tree reports when its head moves.  The new head's chain is walked downwards, from
parent to parent as the blocks are found in the store, until an indexed block is met (`Walk`).  The
blocks passed are those that join the canonical chain, and the block met is the highest one that the
old and the new chain share; what the old chain has above it leaves (`HeadMove`).

Blocks are offered one after the other, each with the number after its parent's (`Numbered`).  Then
every walk ends, and whoever only hears of the changes, in order, can keep the canonical chain up to
date with them.
-/

namespace HeaviestChain

/-- The chain after a change, lowest number first: what leaves is cut off its top, and what joins is
put there. -/
def HeadChange.apply (change : HeadChange) (chain : List Block) : List Block :=
  chain.rdrop change.left.length ++ change.joined

namespace BlockTree

/-! ## The chain as the index lists it -/

/-- The blocks of the index, lowest number first. -/
def canonicalChain (tree : BlockTree) : List Block :=
  tree.index.filterMap fun entry => tree.block? entry.2

namespace Canonical

variable {tree : BlockTree} (canonical : tree.Canonical)

include canonical

theorem canonicalChain_eq : tree.canonicalChain = tree.bestLine.reverse := by
  rw [canonicalChain, canonical.index_eq]
  exact filterMap_indexOf fun _ onLine => canonical.block?_of_mem onLine

theorem numbers_canonicalChain :
    tree.canonicalChain.map (·.number.toNat) = List.range tree.canonicalChain.length := by
  rw [canonical.canonicalChain_eq, List.length_reverse]
  rcases canonical.bestLine_cases with ⟨_, _, empty⟩ | ⟨best, _, isLine⟩
  · rw [empty]
    rfl
  · exact isLine.numbers_eq canonical.grown

theorem nodup_canonicalChain : tree.canonicalChain.Nodup := by
  apply List.Nodup.of_map (·.number.toNat)
  rw [canonical.numbers_canonicalChain]
  exact List.nodup_range

/-- The upper part of the canonical chain counts on where the lower part ends. -/
theorem numbers_of_append {lower upper : List Block} (split : tree.canonicalChain = lower ++ upper) :
    upper.map (·.number.toNat) = List.range' lower.length upper.length := by
  have numbers := canonical.numbers_canonicalChain
  rw [split, List.map_append, List.length_append, List.range_add] at numbers
  rw [List.range'_eq_map_range]
  exact List.append_inj_right numbers (by simp)

theorem best?_eq : tree.best? = tree.canonicalChain.getLast? := by
  rw [canonical.canonicalChain_eq, List.getLast?_reverse]
  rcases Option.eq_none_or_eq_some tree.head with headless | ⟨head, isHead⟩
  · simp [best?, bestLine, headless]
  · rcases canonical.exists_bestLine isHead with ⟨best, _, rfl, isLine⟩
    rw [isLine.head?_eq, best?, isHead]
    exact canonical.block?_of_mem (List.mem_of_mem_head? isLine.head?_eq)

theorem isEmpty_iff : tree.isEmpty = true ↔ tree.canonicalChain = [] := by
  rw [canonical.canonicalChain_eq, List.reverse_eq_nil_iff, isEmpty, List.isEmpty_iff]
  constructor
  · intro empty
    simp only [bestLine, canonical.headed.stored_eq_nil_iff.mp empty]
  · intro empty
    rcases canonical.bestLine_cases with ⟨_, stored, _⟩ | ⟨best, _, isLine⟩
    · exact stored
    · have top := isLine.head?_eq
      rw [empty] at top
      cases top

end Canonical

/-! ## The walk down from a new head -/

/-- A walk down from a hash.  Blocks are looked up and passed, each followed by its parent, until one
is indexed; the walk also ends at a genesis block and at a hash that leads to no block.  Gives the
blocks passed, the highest one first, and the indexed block met. -/
inductive Walk (find : BlockHash → Option Block) (indexed : Block → Bool) :
    BlockHash → List Block → Option Block → Prop
  | missing {hash : BlockHash} (absent : find hash = none) : Walk find indexed hash [] none
  | met {hash : BlockHash} {block : Block} (found : find hash = some block)
      (isIndexed : indexed block = true) : Walk find indexed hash [] (some block)
  | bottom {hash : BlockHash} {block : Block} (found : find hash = some block)
      (unindexed : indexed block = false) (genesis : block.isGenesis = true) :
      Walk find indexed hash [block] none
  | passed {hash : BlockHash} {block : Block} {below : List Block} {fork : Option Block}
      (found : find hash = some block) (unindexed : indexed block = false)
      (notGenesis : block.isGenesis = false)
      (onward : Walk find indexed block.parentHash below fork) :
      Walk find indexed hash (block :: below) fork

/-- Along a line the walk passes what is not indexed. -/
theorem Line.walk {tree : BlockTree} {entry : StoredBlock} {line : List Block}
    (isLine : Line tree.stored entry line) (grown : Grown Follows tree.stored)
    {indexed : Block → Bool} {above common : List Block} (split : line = above ++ common)
    (unindexed : ∀ block ∈ above, indexed block = false)
    (isIndexed : ∀ block ∈ common, indexed block = true) :
    Walk tree.block? indexed entry.block.hash above common.head? := by
  induction isLine generalizing above with
  | @first entry last =>
      have found : tree.block? entry.block.hash = some entry.block :=
        block?_eq_some_iff.mpr ⟨entry, grown.lookup_of_mem (List.mem_of_getLast? last), rfl⟩
      cases above with
      | nil =>
          rw [List.nil_append] at split
          rw [← split] at isIndexed ⊢
          exact .met found (isIndexed _ (List.mem_cons_self ..))
      | cons top above =>
          rw [List.cons_append, List.cons.injEq, eq_comm (a := []), List.append_eq_nil_iff] at split
          rcases split with ⟨rfl, rfl, rfl⟩
          exact .bottom found (unindexed _ (List.mem_cons_self ..)) (grown.genesis_of_getLast? last).1
  | @child entry parent line mem later linked below ih =>
      have found : tree.block? entry.block.hash = some entry.block :=
        block?_eq_some_iff.mpr ⟨entry, grown.lookup_of_mem mem, rfl⟩
      cases above with
      | nil =>
          rw [List.nil_append] at split
          rw [← split] at isIndexed ⊢
          exact .met found (isIndexed _ (List.mem_cons_self ..))
      | cons top above =>
          rw [List.cons_append, List.cons.injEq] at split
          rcases split with ⟨rfl, split⟩
          rw [List.forall_mem_cons] at unindexed
          rcases grown.first_or_child mem with ⟨last, _⟩ | ⟨parent', linked', follows, _⟩
          · exact absurd last later
          · have onward := ih split unindexed.2
            rw [hash_of_lookup linked] at onward
            exact .passed found unindexed.1 follows.isGenesis_eq_false onward

/-! ## One move of the head -/

/-- What a reported change says about the tree before, the tree after, and the block that became the
head.  The two canonical chains have `common` in common, lowest number first. -/
structure HeadMove (tree next : BlockTree) (block : Block) (change : HeadChange)
    (common : List Block) : Prop where
  /-- The walk down from the new head ends at the highest common block, and has passed what joins. -/
  walked : Walk next.block? tree.isIndexed block.hash change.joined.reverse common.getLast?
  /-- What joins lies on what is common; together they are the new head and all its ancestors. -/
  path : ∃ entry, next.find? block.hash = some entry ∧ entry.block = block ∧
    Line next.stored entry (common ++ change.joined).reverse
  /-- What leaves was the top of the old chain. -/
  before : tree.canonicalChain = common ++ change.left
  /-- What joins is the top of the new chain. -/
  after : next.canonicalChain = common ++ change.joined
  /-- Nothing else is common to the two chains. -/
  shared : ∀ other, other ∈ common ↔ other ∈ tree.canonicalChain ∧ other ∈ next.canonicalChain
  /-- What joins ascends by number without gaps. -/
  joined_numbers :
    change.joined.map (·.number.toNat) = List.range' common.length change.joined.length
  /-- What leaves ascends by number without gaps. -/
  left_numbers : change.left.map (·.number.toNat) = List.range' common.length change.left.length
  /-- No block joins and leaves at once. -/
  disjoint : change.joined.Disjoint change.left
  /-- Nothing leaves if and only if there was no chain, or the new head's chain meets the old one at
  the old head. -/
  left_eq_nil_iff : change.left = [] ↔
    tree.isEmpty = true ∨ ∃ best, tree.best? = some best ∧ common.getLast? = some best

theorem HeadMove.apply_eq {tree next : BlockTree} {block : Block} {change : HeadChange}
    {common : List Block} (move : HeadMove tree next block change common) :
    change.apply tree.canonicalChain = next.canonicalChain := by
  rw [HeadChange.apply, move.before, move.after, List.rdrop, List.length_append,
    Nat.add_sub_cancel, List.take_left]

/-- A block that is reported as a new head is stored and is the head. -/
theorem attach_of_newHead {tree : BlockTree} {block : Block} {change : HeadChange}
    (reported : (tree.attach block).2 = .newHead change) :
    ∃ weight, (tree.attach block).1.stored = ⟨block, weight⟩ :: tree.stored ∧
      (tree.attach block).1.head = some ⟨block.hash, block.number, weight⟩ := by
  have offered := tree.offered_attach block
  generalize tree.attach block = result at offered reported ⊢
  cases offered with
  | alreadyStored _ => cases reported
  | parentMissing _ _ => cases reported
  | sideBranch _ _ _ _ => cases reported
  | newHead _ _ _ => exact ⟨_, rfl, rfl⟩

/-- Head and index stay unless a new head is reported. -/
theorem attach_of_unchanged {tree : BlockTree} {block : Block}
    (unchanged : ∀ change, (tree.attach block).2 ≠ .newHead change) :
    (tree.attach block).1.head = tree.head ∧ (tree.attach block).1.index = tree.index := by
  have offered := tree.offered_attach block
  generalize tree.attach block = result at offered unchanged ⊢
  cases offered with
  | alreadyStored _ => exact ⟨rfl, rfl⟩
  | parentMissing _ _ => exact ⟨rfl, rfl⟩
  | sideBranch _ _ _ _ => exact ⟨rfl, rfl⟩
  | newHead _ _ _ => exact absurd rfl (unchanged _)

/-- The first block is the head, and nothing leaves the canonical chain for it. -/
theorem attach_first {genesis : Block} (isGenesis : genesis.isGenesis = true) :
    (empty.attach genesis).1.bestNumber? = some 0 ∧
      ∃ change, (empty.attach genesis).2.change? = some change ∧ change.left = [] := by
  have zero : genesis.number = 0 := UInt64.toNat_inj.mp (number_of_isGenesis isGenesis)
  have below : empty.weightBelow? genesis = some .zero := by
    simp only [weightBelow?, isGenesis, Bool.and_true]
    rfl
  have unknown : empty.contains genesis.hash = false := rfl
  have offered := empty.offered_attach genesis
  generalize empty.attach genesis = result at offered ⊢
  cases offered with
  | alreadyStored known =>
      rw [unknown] at known
      cases known
  | parentMissing _ rootless =>
      rw [below] at rootless
      cases rootless
  | sideBranch _ _ isHead _ => cases isHead
  | newHead _ _ _ => exact ⟨congrArg some zero, _, rfl, rfl⟩

namespace Canonical

variable {tree : BlockTree} {block : Block} (canonical : tree.Canonical)
  (follows : ∀ parent, lookup tree.stored block.parentHash = some parent →
    Follows block parent.block)

include canonical

/-- A stored block that is off the canonical chain is not indexed. -/
theorem isIndexed_eq_false {next : BlockTree} (nextCanonical : next.Canonical)
    (kept : ∀ entry ∈ tree.stored, entry ∈ next.stored) {other : Block} (isNew : other ∈ next.bestLine)
    (off : other ∉ tree.bestLine) : tree.isIndexed other = false := by
  rw [← Bool.not_eq_true, canonical.isIndexed_iff]
  rintro ⟨indexed, onLine, _, sameHash⟩
  rcases canonical.exists_entry onLine with ⟨entry, mem, rfl⟩
  have found := nextCanonical.block?_of_mem isNew
  have same := nextCanonical.grown.lookup_of_mem (kept entry mem)
  rw [← sameHash, block?_eq_some_iff, same] at found
  rcases found with ⟨_, ⟨⟩, rfl⟩
  exact off onLine

omit follows in
/-- The canonical chain is the line of the block last stored, if that is the head. -/
theorem line_of_newHead {weight : Difficulty} {older : List StoredBlock}
    (stored : tree.stored = ⟨block, weight⟩ :: older)
    (isHead : tree.head = some ⟨block.hash, block.number, weight⟩) :
    ∃ entry, tree.find? block.hash = some entry ∧ entry.block = block ∧
      Line tree.stored entry tree.bestLine := by
  rcases canonical.exists_bestLine isHead with ⟨best, _, isBest, isLine⟩
  have isHash : block.hash = best.block.hash := congrArg ChainHead.hash isBest
  have newest : tree.find? block.hash = some ⟨block, weight⟩ := by
    rw [find?_eq_lookup, stored, lookup_cons_self]
  have found : tree.find? block.hash = some best := by
    rw [isHash, find?_eq_lookup]
    exact canonical.grown.lookup_of_mem isLine.mem_stored
  rw [newest] at found
  cases found
  exact ⟨_, newest, rfl, isLine⟩

/-- Nothing lies above a part of the canonical chain that reaches up to the head. -/
theorem top_eq_nil_iff {common top : List Block} (split : tree.canonicalChain = common ++ top) :
    top = [] ↔
      tree.isEmpty = true ∨ ∃ best, tree.best? = some best ∧ common.getLast? = some best := by
  have nodup := canonical.nodup_canonicalChain
  rw [canonical.isEmpty_iff, canonical.best?_eq]
  rw [split] at nodup ⊢
  constructor
  · rintro rfl
    rw [List.append_nil]
    cases last : common.getLast? with
    | none => exact .inl (List.getLast?_eq_none_iff.mp last)
    | some best => exact .inr ⟨best, rfl, rfl⟩
  · rintro (empty | ⟨best, isBest, onCommon⟩)
    · exact (List.append_eq_nil_iff.mp empty).2
    · by_contra nonempty
      have onTop : best ∈ top := by
        rw [List.getLast?_append_of_ne_nil _ nonempty] at isBest
        exact List.mem_of_getLast? isBest
      exact List.disjoint_of_nodup_append nodup (List.mem_of_getLast? onCommon) onTop

include follows

/-- A new head is reported with exactly what changed. -/
theorem headMove {change : HeadChange} (reported : (tree.attach block).2 = .newHead change) :
    ∃ common, HeadMove tree (tree.attach block).1 block change common := by
  rcases canonical.attach follows with ⟨nextCanonical, turned⟩
  rcases attach_of_newHead reported with ⟨weight, stored, isHead⟩
  rw [reported] at turned
  rcases turned with ⟨line, oldSplit, newSplit, joins⟩
  generalize (tree.attach block).1 = next at nextCanonical newSplit stored isHead ⊢
  have before : tree.canonicalChain = line.reverse ++ change.left := by
    rw [canonical.canonicalChain_eq, oldSplit, List.reverse_append, List.reverse_reverse]
  have after : next.canonicalChain = line.reverse ++ change.joined := by
    rw [nextCanonical.canonicalChain_eq, newSplit, List.reverse_append, List.reverse_reverse]
  have onOld {other : Block} : other ∈ tree.bestLine ↔ other ∈ tree.canonicalChain := by
    rw [canonical.canonicalChain_eq, List.mem_reverse]
  rcases nextCanonical.line_of_newHead stored isHead with ⟨entry, found, isBlock, isLine⟩
  refine ⟨line.reverse, ?walked, ?path, before, after, ?shared,
    nextCanonical.numbers_of_append after, canonical.numbers_of_append before, ?disjoint,
    canonical.top_eq_nil_iff before⟩
  case path =>
      refine ⟨entry, found, isBlock, ?_⟩
      rw [← after, nextCanonical.canonicalChain_eq, List.reverse_reverse]
      exact isLine
  case walked =>
      have kept : ∀ entry ∈ tree.stored, entry ∈ next.stored := by
        intro entry mem
        rw [stored]
        exact List.mem_cons_of_mem _ mem
      rw [← isBlock, List.getLast?_reverse]
      apply isLine.walk nextCanonical.grown newSplit
      · intro other mem
        have isNew : other ∈ next.bestLine := by
          rw [newSplit]
          exact List.mem_append_left _ mem
        exact canonical.isIndexed_eq_false nextCanonical kept isNew
          (joins other (List.mem_reverse.mp mem))
      · intro other mem
        refine canonical.isIndexed_iff.mpr ⟨other, ?_, rfl, rfl⟩
        rw [oldSplit]
        exact List.mem_append_right _ mem
  case shared =>
      intro other
      rw [before, after, List.mem_append, List.mem_append]
      constructor
      · exact fun common => ⟨.inl common, .inl common⟩
      · rintro ⟨old, common | joined⟩
        · exact common
        · rw [← List.mem_append, ← before, ← onOld] at old
          exact absurd old (joins other joined)
  case disjoint =>
      intro other joined left
      apply joins other joined
      rw [onOld, before]
      exact List.mem_append_right _ left

end Canonical

/-! ## Runs -/

/-- Each block of a list has the number after its parent's when it is offered, provided that the
parent is stored then. -/
def Numbered (tree : BlockTree) : List Block → Prop
  | [] => True
  | block :: rest =>
      (∀ parent ∈ tree.block? block.parentHash, Follows block parent) ∧
        (tree.attach block).1.Numbered rest

instance (child parent : Block) : Decidable (Follows child parent) :=
  inferInstanceAs (Decidable (child.number.toNat = parent.number.toNat + 1))

instance decidableNumbered : (tree : BlockTree) → (offers : List Block) →
    Decidable (tree.Numbered offers)
  | _, [] => isTrue trivial
  | tree, block :: rest =>
      have := decidableNumbered (tree.attach block).1 rest
      inferInstanceAs (Decidable
        ((∀ parent ∈ tree.block? block.parentHash, Follows block parent) ∧
          (tree.attach block).1.Numbered rest))

/-- The changes of the head that are reported while blocks are offered one after the other. -/
def headChanges (tree : BlockTree) : List Block → List HeadChange
  | [] => []
  | block :: rest =>
      (tree.attach block).2.change?.toList ++ (tree.attach block).1.headChanges rest

theorem headChanges_append (tree : BlockTree) (earlier later : List Block) :
    tree.headChanges (earlier ++ later) =
      tree.headChanges earlier ++ (tree.attachAll earlier).headChanges later := by
  induction earlier generalizing tree with
  | nil => rfl
  | cons block rest ih =>
      simp only [List.cons_append, headChanges, ih, List.append_assoc]
      rfl

theorem follows_of_block? {tree : BlockTree} {block : Block}
    (numbered : ∀ parent ∈ tree.block? block.parentHash, Follows block parent) :
    ∀ parent, lookup tree.stored block.parentHash = some parent → Follows block parent.block :=
  fun parent linked => numbered _ (block?_eq_some_iff.mpr ⟨parent, linked, rfl⟩)

/-- Offers with consecutive numbers keep the index on the head's line, and the reported changes lead
from the canonical chain before to the one afterwards. -/
theorem Canonical.attachAll {tree : BlockTree} (canonical : tree.Canonical) {offers : List Block}
    (numbered : tree.Numbered offers) :
    (tree.attachAll offers).Canonical ∧
      (tree.headChanges offers).foldl (fun chain change => change.apply chain) tree.canonicalChain =
        (tree.attachAll offers).canonicalChain := by
  induction offers generalizing tree with
  | nil => exact ⟨canonical, rfl⟩
  | cons block rest ih =>
      have follows := follows_of_block? numbered.1
      rcases ih (canonical.attach follows).1 numbered.2 with ⟨last, applied⟩
      refine ⟨last, ?_⟩
      rw [headChanges, List.foldl_append]
      suffices first : (tree.attach block).2.change?.toList.foldl
          (fun chain change => change.apply chain) tree.canonicalChain =
            (tree.attach block).1.canonicalChain by
        rw [first]
        exact applied
      cases isChange : (tree.attach block).2 with
      | newHead change =>
          rcases canonical.headMove follows isChange with ⟨common, move⟩
          exact move.apply_eq
      | _ =>
          have sameLine := (canonical.attach follows).2
          rw [isChange] at sameLine
          rw [(canonical.attach follows).1.canonicalChain_eq, canonical.canonicalChain_eq]
          exact congrArg List.reverse sameLine.symm

/-- After offers of blocks with consecutive numbers to an empty tree, in any order, the changes
reported so far lead from no chain to the canonical one.  Whenever another such block becomes the
head, the report is exact; otherwise head and index stay as they are. -/
theorem headChanges_exact {offers : List Block} (numbered : empty.Numbered offers) :
    let tree := empty.attachAll offers
    (empty.headChanges offers).foldl (fun chain change => change.apply chain) [] =
        tree.canonicalChain ∧
      (∀ number, tree.blockAt? number = tree.canonicalChain[number.toNat]?) ∧
      ∀ block, (∀ parent ∈ tree.block? block.parentHash, Follows block parent) →
        (∀ change, (tree.attach block).2 = .newHead change →
          ∃ common, HeadMove tree (tree.attach block).1 block change common) ∧
        ((∀ change, (tree.attach block).2 ≠ .newHead change) →
          (tree.attach block).1.head = tree.head ∧ (tree.attach block).1.index = tree.index) := by
  intro tree
  rcases canonical_empty.attachAll numbered with ⟨canonical, applied⟩
  refine ⟨applied, ?numbers, ?next⟩
  case numbers =>
      intro number
      rw [canonical.blockAt?_eq, canonical.canonicalChain_eq]
  case next =>
      intro block follows
      exact ⟨fun _ => canonical.headMove (follows_of_block? follows), attach_of_unchanged⟩

/-- A chain of two blocks on a genesis block, and a heavier single block beside them. -/
def switchBase : Block := ({} : GenesisSpec).block

def switchLow : Block :=
  .build 1 switchBase.hash [] [] switchBase.stateRoot .epoch .zero .one

def switchTop : Block :=
  .build 2 switchLow.hash [] [] switchLow.stateRoot .epoch .zero .one

def switchRival : Block :=
  .build 1 switchBase.hash [] [] switchBase.stateRoot .epoch .zero (.ofWord 5)

/-- The head moves from the upper of the two blocks down to the heavier one. -/
theorem switchRival_headMove :
    let tree := empty.attachAll [switchTop, switchBase, switchLow, switchTop]
    let change : HeadChange := ⟨[switchRival], [switchLow, switchTop]⟩
    empty.Numbered [switchTop, switchBase, switchLow, switchTop] ∧
      (tree.attach switchRival).2 = .newHead change ∧
      ∃ common, HeadMove tree (tree.attach switchRival).1 switchRival change common := by
  intro tree change
  have numbered : empty.Numbered [switchTop, switchBase, switchLow, switchTop] := by decide +kernel
  have evaluated : (tree.attach switchRival).2 = .newHead change ∧
      ∀ parent ∈ tree.block? switchRival.parentHash, Follows switchRival parent := by
    decide +kernel
  have next := (headChanges_exact numbered).2.2 switchRival evaluated.2
  exact ⟨numbered, evaluated.1, next.1 change evaluated.1⟩

end BlockTree

end HeaviestChain
