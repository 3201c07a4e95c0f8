import HeaviestChain.BlockTree
import HeaviestChain.Proofs.Weight
import Mathlib.Data.Finset.Card

/-!
# How a block tree grows

The blocks of a tree were added one by one, each after its parent.  `Grown` is this history as a
property of the list of stored blocks; it is kept by `attach` whatever block is offered, so it
holds of every tree.  A `rule` that every later block satisfies together with its parent is carried
along: the callers of `attach` decide which rule they guarantee.

`Line` follows the parent hashes from a block down to the first one.  Every stored block has
exactly one line, and its total weight is the exact sum of the weights on the line, as far as it
fits.
-/

namespace HeaviestChain

/-- The change of the canonical chain that an attachment reports. -/
def Attachment.change? : Attachment → Option HeadChange
  | newHead change => some change
  | _ => none

namespace BlockTree

/-! ## Looking blocks up -/

/-- The entry of the block with this hash in a list of stored blocks. -/
def lookup (stored : List StoredBlock) (hash : BlockHash) : Option StoredBlock :=
  stored.find? fun entry => decide (entry.block.hash = hash)

theorem find?_eq_lookup (tree : BlockTree) (hash : BlockHash) :
    tree.find? hash = lookup tree.stored hash := rfl

theorem lookup_cons (entry : StoredBlock) (older : List StoredBlock) (hash : BlockHash) :
    lookup (entry :: older) hash =
      if entry.block.hash = hash then some entry else lookup older hash := by
  unfold lookup
  by_cases here : entry.block.hash = hash
  · simp [here]
  · simp [here]

theorem lookup_cons_self (entry : StoredBlock) (older : List StoredBlock) :
    lookup (entry :: older) entry.block.hash = some entry := by
  rw [lookup_cons, if_pos rfl]

/-- A new block does not hide an older one. -/
theorem lookup_cons_of_some {entry found : StoredBlock} {older : List StoredBlock}
    {hash : BlockHash} (fresh : lookup older entry.block.hash = none)
    (present : lookup older hash = some found) : lookup (entry :: older) hash = some found := by
  rw [lookup_cons, if_neg, present]
  intro same
  rw [same, present] at fresh
  cases fresh

theorem hash_of_lookup {stored : List StoredBlock} {hash : BlockHash} {entry : StoredBlock}
    (found : lookup stored hash = some entry) : entry.block.hash = hash := by
  simpa using List.find?_some found

theorem mem_of_lookup {stored : List StoredBlock} {hash : BlockHash} {entry : StoredBlock}
    (found : lookup stored hash = some entry) : entry ∈ stored :=
  List.mem_of_find?_eq_some found

theorem lookup_eq_none_iff {stored : List StoredBlock} {hash : BlockHash} :
    lookup stored hash = none ↔ ∀ entry ∈ stored, entry.block.hash ≠ hash := by
  simp [lookup]

theorem contains_eq_false_iff {tree : BlockTree} {hash : BlockHash} :
    tree.contains hash = false ↔ lookup tree.stored hash = none := by
  simp [contains, find?_eq_lookup]

theorem contains_iff {tree : BlockTree} {hash : BlockHash} :
    tree.contains hash = true ↔ ∃ entry, lookup tree.stored hash = some entry := by
  simp [contains, find?_eq_lookup, Option.isSome_iff_exists]

theorem lookup_of_isEmpty {tree : BlockTree} (empty : tree.isEmpty = true) (hash : BlockHash) :
    lookup tree.stored hash = none := by
  rw [isEmpty, List.isEmpty_iff] at empty
  rw [empty]
  rfl

theorem block?_eq_some_iff {tree : BlockTree} {hash : BlockHash} {block : Block} :
    tree.block? hash = some block ↔
      ∃ entry, lookup tree.stored hash = some entry ∧ entry.block = block := by
  simp [block?, find?_eq_lookup]

/-! ## Growth -/

/-- Stored blocks that were added one by one: first a genesis block, then blocks whose parents were
there already and stand in `rule` to them.  Weights are added up on the way. -/
inductive Grown (rule : Block → Block → Prop) : List StoredBlock → Prop
  | empty : Grown rule []
  | first {block : Block} (genesis : block.isGenesis = true) :
      Grown rule [⟨block, .zero + block.localWeight⟩]
  | child {stored : List StoredBlock} {block : Block} {parent : StoredBlock}
      (grown : Grown rule stored) (fresh : lookup stored block.hash = none)
      (linked : lookup stored block.parentHash = some parent) (obeys : rule block parent.block) :
      Grown rule (⟨block, parent.totalWeight + block.localWeight⟩ :: stored)

theorem grown_empty {rule : Block → Block → Prop} : Grown rule empty.stored := .empty

namespace Grown

variable {rule : Block → Block → Prop} {stored : List StoredBlock}

/-- No two stored blocks share a hash. -/
theorem lookup_of_mem (grown : Grown rule stored) {entry : StoredBlock} (mem : entry ∈ stored) :
    lookup stored entry.block.hash = some entry := by
  induction grown with
  | empty => cases mem
  | first _ =>
      rw [List.mem_singleton] at mem
      subst mem
      exact lookup_cons_self _ _
  | child _ fresh _ _ ih =>
      rw [List.mem_cons] at mem
      rcases mem with rfl | older
      · exact lookup_cons_self _ _
      · exact lookup_cons_of_some fresh (ih older)

theorem nodup_hashes (grown : Grown rule stored) :
    (stored.map (·.block.hash)).Nodup := by
  induction grown with
  | empty => exact List.nodup_nil
  | first _ => simp
  | child _ fresh _ _ ih =>
      rw [List.map_cons, List.nodup_cons]
      refine ⟨?_, ih⟩
      rw [List.mem_map]
      rintro ⟨entry, mem, same⟩
      exact lookup_eq_none_iff.mp fresh entry mem same

theorem nodup_blocks (grown : Grown rule stored) : (stored.map (·.block)).Nodup := by
  have hashes := grown.nodup_hashes
  rw [← Function.comp_def Block.hash, ← List.map_map] at hashes
  exact hashes.of_map _

/-- No more blocks are stored than a collection has that holds them all. -/
theorem length_le_card (grown : Grown rule stored) {collection : Finset Block}
    (within : ∀ entry ∈ stored, entry.block ∈ collection) : stored.length ≤ collection.card := by
  have listed : (stored.map (·.block)).toFinset ⊆ collection := by
    intro block mem
    rw [List.mem_toFinset, List.mem_map] at mem
    rcases mem with ⟨entry, isStored, rfl⟩
    exact within entry isStored
  calc stored.length = (stored.map (·.block)).length := (List.length_map _).symm
    _ = (stored.map (·.block)).toFinset.card := (List.toFinset_card_of_nodup grown.nodup_blocks).symm
    _ ≤ collection.card := Finset.card_le_card listed

/-- A stored block is the first one, or its parent is stored and the two obey the rule. -/
theorem first_or_child (grown : Grown rule stored) {entry : StoredBlock} (mem : entry ∈ stored) :
    (stored.getLast? = some entry ∧ entry.block.isGenesis = true ∧
        entry.totalWeight = .zero + entry.block.localWeight) ∨
      ∃ parent, lookup stored entry.block.parentHash = some parent ∧
        rule entry.block parent.block ∧
        entry.totalWeight = parent.totalWeight + entry.block.localWeight := by
  induction grown with
  | empty => cases mem
  | first genesis =>
      rw [List.mem_singleton] at mem
      subst mem
      exact .inl ⟨rfl, genesis, rfl⟩
  | @child older block parent _ fresh linked obeys ih =>
      rw [List.mem_cons] at mem
      rcases mem with rfl | old
      · exact .inr ⟨parent, lookup_cons_of_some fresh linked, obeys, rfl⟩
      · rcases ih old with ⟨last, genesis, weight⟩ | ⟨below, found, obeys, weight⟩
        · left
          refine ⟨?_, genesis, weight⟩
          rw [List.getLast?_cons, last]
          rfl
        · exact .inr ⟨below, lookup_cons_of_some fresh found, obeys, weight⟩

theorem genesis_of_getLast? (grown : Grown rule stored) {entry : StoredBlock}
    (last : stored.getLast? = some entry) :
    entry.block.isGenesis = true ∧ entry.totalWeight = .zero + entry.block.localWeight := by
  induction grown with
  | empty => cases last
  | first genesis =>
      cases last
      exact ⟨genesis, rfl⟩
  | @child older block parent grown fresh linked obeys ih =>
      apply ih
      rw [List.getLast?_cons] at last
      cases older with
      | nil => cases linked
      | cons first rest =>
          rw [List.getLast?_cons] at last ⊢
          exact last

/-- What a tree with blocks does not have is not its genesis block. -/
theorem exists_other_genesis {tree : BlockTree} (grown : Grown rule tree.stored)
    (nonempty : tree.isEmpty = false) {block : Block}
    (unknown : tree.contains block.hash = false) :
    ∃ first ∈ tree.stored, first.block.isGenesis = true ∧ first.block ≠ block := by
  rw [isEmpty, List.isEmpty_eq_false_iff] at nonempty
  have last := List.getLast?_eq_some_getLast nonempty
  have mem := List.mem_of_getLast? last
  refine ⟨_, mem, (grown.genesis_of_getLast? last).1, ?_⟩
  intro same
  have stored := grown.lookup_of_mem mem
  rw [same, contains_eq_false_iff.mp unknown] at stored
  cases stored

theorem getLast?_cons_of_lookup {new found : StoredBlock} {hash : BlockHash}
    (linked : lookup stored hash = some found) :
    (new :: stored).getLast? = stored.getLast? := by
  cases stored with
  | nil => cases linked
  | cons entry older => rfl

end Grown

/-! ## Lines -/

/-- The blocks from an entry down to the first block of the tree, each followed by its parent. -/
inductive Line (stored : List StoredBlock) : StoredBlock → List Block → Prop
  | first {entry : StoredBlock} (last : stored.getLast? = some entry) :
      Line stored entry [entry.block]
  | child {entry parent : StoredBlock} {line : List Block} (mem : entry ∈ stored)
      (later : stored.getLast? ≠ some entry)
      (linked : lookup stored entry.block.parentHash = some parent)
      (below : Line stored parent line) : Line stored entry (entry.block :: line)

namespace Line

variable {stored : List StoredBlock} {entry : StoredBlock} {line : List Block}

theorem unique (first : Line stored entry line) {other : List Block}
    (second : Line stored entry other) : line = other := by
  induction first generalizing other with
  | first last =>
      cases second with
      | first _ => rfl
      | child _ later _ _ => exact absurd last later
  | child _ later linked _ ih =>
      cases second with
      | first last => exact absurd last later
      | child _ _ linked' below =>
          rw [linked] at linked'
          cases linked'
          rw [ih below]

theorem mem_stored (isLine : Line stored entry line) : entry ∈ stored := by
  cases isLine with
  | first last => exact List.mem_of_getLast? last
  | child mem _ _ _ => exact mem

theorem head?_eq (isLine : Line stored entry line) : line.head? = some entry.block := by
  cases isLine <;> rfl

theorem mem_of_mem (isLine : Line stored entry line) {block : Block} (mem : block ∈ line) :
    ∃ lower ∈ stored, lower.block = block := by
  induction isLine with
  | @first entry last =>
      rw [List.mem_singleton] at mem
      exact ⟨entry, List.mem_of_getLast? last, mem.symm⟩
  | @child entry _ _ entryMem _ _ _ ih =>
      rw [List.mem_cons] at mem
      rcases mem with here | lower
      · exact ⟨entry, entryMem, here.symm⟩
      · exact ih lower

/-- From each of its blocks on a line is the line of that block. -/
theorem suffix (isLine : Line stored entry line) {above below : List Block} {block : Block}
    (split : line = above ++ block :: below) :
    ∃ lower, lower.block = block ∧ Line stored lower (block :: below) := by
  induction isLine generalizing above with
  | @first entry last =>
      have short := congrArg List.length split
      simp only [List.length_append, List.length_cons, List.length_nil] at short
      have noneAbove : above = [] := List.eq_nil_of_length_eq_zero (by omega)
      subst noneAbove
      cases split
      exact ⟨entry, rfl, .first last⟩
  | @child entry parent line mem later linked lower ih =>
      cases above with
      | nil =>
          cases split
          exact ⟨entry, rfl, .child mem later linked lower⟩
      | cons top above =>
          rw [List.cons_append, List.cons.injEq] at split
          exact ih split.2

/-- A line stays a line when another block is added. -/
theorem cons (isLine : Line stored entry line) {new : StoredBlock}
    (fresh : lookup stored new.block.hash = none) : Line (new :: stored) entry line := by
  induction isLine with
  | first last =>
      apply Line.first
      rw [List.getLast?_cons, last]
      rfl
  | child mem later linked _ ih =>
      refine .child (List.mem_cons_of_mem _ mem) ?_ (lookup_cons_of_some fresh linked) ih
      rw [Grown.getLast?_cons_of_lookup linked]
      exact later

/-- The first block of the tree is on every line. -/
theorem first_mem (isLine : Line stored entry line) {first : StoredBlock}
    (last : stored.getLast? = some first) : first.block ∈ line := by
  induction isLine with
  | first last' =>
      rw [last] at last'
      cases last'
      exact List.mem_singleton_self _
  | child _ _ _ _ ih => exact List.mem_cons_of_mem _ ih

end Line

namespace Grown

variable {rule : Block → Block → Prop} {stored : List StoredBlock}

/-- A new block lies on top of its parent's line. -/
theorem line_of_new {block : Block} {parent : StoredBlock} {weight : Difficulty} {line : List Block}
    (fresh : lookup stored block.hash = none)
    (linked : lookup stored block.parentHash = some parent) (below : Line stored parent line) :
    Line (⟨block, weight⟩ :: stored) ⟨block, weight⟩ (block :: line) := by
  refine .child (List.mem_cons_self ..) ?_ (lookup_cons_of_some fresh linked) (below.cons fresh)
  rw [getLast?_cons_of_lookup linked]
  intro last
  exact lookup_eq_none_iff.mp fresh _ (List.mem_of_getLast? last) rfl

/-- Every stored block has a line, and its total weight is what the blocks on the line weigh. -/
theorem exists_line (grown : Grown rule stored) {entry : StoredBlock} (mem : entry ∈ stored) :
    ∃ line, Line stored entry line ∧
      entry.totalWeight = .ofNat (line.map Block.exactWeight).sum := by
  induction grown generalizing entry with
  | empty => cases mem
  | @first block _ =>
      rw [List.mem_singleton] at mem
      subst mem
      refine ⟨[block], .first rfl, ?_⟩
      rw [Block.localWeight_eq_ofNat, Difficulty.zero_eq_ofNat, ← Difficulty.ofNat_add]
      simp
  | @child older block parent _ fresh linked _ ih =>
      rw [List.mem_cons] at mem
      rcases mem with rfl | old
      · rcases ih (mem_of_lookup linked) with ⟨line, isLine, weight⟩
        refine ⟨block :: line, line_of_new fresh linked isLine, ?_⟩
        rw [weight, Block.localWeight_eq_ofNat, ← Difficulty.ofNat_add, List.map_cons,
          List.sum_cons, Nat.add_comm]
      · rcases ih old with ⟨line, isLine, weight⟩
        exact ⟨line, isLine.cons fresh, weight⟩

/-- The chain that the tree walks along is the line, if only the first block is a genesis block. -/
theorem line_ancestry (grown : Grown rule stored)
    (notGenesis : ∀ child parent, rule child parent → child.isGenesis = false)
    {entry : StoredBlock} (mem : entry ∈ stored) :
    Line stored entry (ancestry stored entry.block.hash) := by
  induction grown generalizing entry with
  | empty => cases mem
  | @first block genesis =>
      rw [List.mem_singleton] at mem
      subst mem
      simp only [ancestry, genesis, if_true]
      exact .first rfl
  | @child older block parent _ fresh linked obeys ih =>
      rw [List.mem_cons] at mem
      rcases mem with rfl | old
      · have below := ih (mem_of_lookup linked)
        rw [hash_of_lookup linked] at below
        simp only [ancestry, notGenesis _ _ obeys, if_true, Bool.false_eq_true, if_false]
        exact line_of_new fresh linked below
      · have other : block.hash ≠ entry.block.hash :=
          fun same => lookup_eq_none_iff.mp fresh entry old same.symm
        simp only [ancestry, other, if_false]
        exact (ih old).cons fresh

end Grown

/-! ## Adding a block -/

/-- The weight below a block is none in an empty tree and the parent's in another one. -/
theorem weightBelow?_eq_some {tree : BlockTree} {block : Block} {below : Difficulty}
    (found : tree.weightBelow? block = some below) :
    (tree.stored = [] ∧ block.isGenesis = true ∧ below = .zero) ∨
      ∃ parent, lookup tree.stored block.parentHash = some parent ∧ below = parent.totalWeight := by
  simp only [weightBelow?] at found
  split at found
  case isTrue first =>
      rw [Bool.and_eq_true, isEmpty, List.isEmpty_iff] at first
      cases found
      exact .inl ⟨first.1, first.2, rfl⟩
  case isFalse =>
      simp only [weight?, find?_eq_lookup, Option.map_eq_some_iff] at found
      rcases found with ⟨parent, linked, rfl⟩
      exact .inr ⟨parent, linked, rfl⟩

/-- The tree with one more block, whose head has not moved yet. -/
def grow (tree : BlockTree) (block : Block) (weight : Difficulty) : BlockTree :=
  { tree with stored := ⟨block, weight⟩ :: tree.stored }

/-- What became of a block offered to a tree, with all that decides it. -/
inductive Offered (tree : BlockTree) (block : Block) : BlockTree × Attachment → Prop
  | alreadyStored (known : tree.contains block.hash = true) :
      Offered tree block (tree, .alreadyStored)
  | parentMissing (unknown : tree.contains block.hash = false)
      (rootless : tree.weightBelow? block = none) : Offered tree block (tree, .parentMissing)
  | sideBranch {below : Difficulty} {head : ChainHead}
      (unknown : tree.contains block.hash = false) (weighed : tree.weightBelow? block = some below)
      (headed : tree.head = some head) (lighter : ¬head.weight < below + block.localWeight) :
      Offered tree block (tree.grow block (below + block.localWeight), .sideBranch)
  | newHead {below : Difficulty} (unknown : tree.contains block.hash = false)
      (weighed : tree.weightBelow? block = some below)
      (heavier : ∀ head, tree.head = some head → head.weight < below + block.localWeight) :
      Offered tree block
        (((tree.grow block (below + block.localWeight)).moveHead
            ⟨block.hash, block.number, below + block.localWeight⟩).1,
          .newHead ((tree.grow block (below + block.localWeight)).moveHead
            ⟨block.hash, block.number, below + block.localWeight⟩).2)

theorem offered_attach (tree : BlockTree) (block : Block) :
    Offered tree block (tree.attach block) := by
  simp only [attach]
  split
  case isTrue known => exact .alreadyStored known
  case isFalse unknown =>
      rw [Bool.not_eq_true] at unknown
      split
      case h_1 rootless => exact .parentMissing unknown rootless
      case h_2 below weighed =>
          split
          case isTrue heavier =>
              apply Offered.newHead unknown weighed
              intro head headed
              simpa [headed] using heavier
          case isFalse lighter =>
              rcases Option.eq_none_or_eq_some tree.head with headless | ⟨head, headed⟩
              · simp [headless] at lighter
              · exact .sideBranch unknown weighed headed (by simpa [headed] using lighter)

@[simp]
theorem stored_moveHead (tree : BlockTree) (head : ChainHead) :
    (tree.moveHead head).1.stored = tree.stored := rfl

@[simp]
theorem head_moveHead (tree : BlockTree) (head : ChainHead) :
    (tree.moveHead head).1.head = some head := rfl

/-- Whatever block is offered, the stored blocks stay as they are or the block is put before
them. -/
theorem stored_attach (tree : BlockTree) (block : Block) :
    (tree.attach block).1.stored = tree.stored ∨
      ∃ below, tree.contains block.hash = false ∧ tree.weightBelow? block = some below ∧
        (tree.attach block).1.stored = ⟨block, below + block.localWeight⟩ :: tree.stored := by
  have offered := tree.offered_attach block
  generalize tree.attach block = result at offered ⊢
  cases offered with
  | alreadyStored _ => exact .inl rfl
  | parentMissing _ _ => exact .inl rfl
  | @sideBranch below _ unknown weighed _ _ => exact .inr ⟨below, unknown, weighed, rfl⟩
  | @newHead below unknown weighed _ => exact .inr ⟨below, unknown, weighed, rfl⟩

theorem stored_attach_of_weighed {tree : BlockTree} {block : Block} {below : Difficulty}
    (unknown : tree.contains block.hash = false)
    (weighed : tree.weightBelow? block = some below) :
    (tree.attach block).1.stored = ⟨block, below + block.localWeight⟩ :: tree.stored := by
  have offered := tree.offered_attach block
  generalize tree.attach block = result at offered ⊢
  cases offered with
  | alreadyStored known =>
      rw [unknown] at known
      cases known
  | parentMissing _ rootless =>
      rw [weighed] at rootless
      cases rootless
  | sideBranch _ weighed' _ _ =>
      rw [weighed] at weighed'
      cases weighed'
      rfl
  | newHead _ weighed' _ =>
      rw [weighed] at weighed'
      cases weighed'
      rfl

section Added

variable {tree tree' : BlockTree} {entry : StoredBlock} (added : tree'.stored = entry :: tree.stored)

include added

theorem contains_of_stored_cons {hash : BlockHash} :
    tree'.contains hash = true ↔ entry.block.hash = hash ∨ tree.contains hash = true := by
  simp only [contains, find?_eq_lookup, added, lookup_cons]
  by_cases here : entry.block.hash = hash
  · simp [here]
  · simp [here]

theorem not_contains_of_stored_cons {hash : BlockHash} (other : hash ≠ entry.block.hash)
    (absent : tree.contains hash = false) : tree'.contains hash = false := by
  rw [← Bool.not_eq_true, contains_of_stored_cons added, absent]
  simpa using other.symm

theorem block?_of_stored_cons (unknown : tree.contains entry.block.hash = false) {hash : BlockHash}
    {block : Block} (found : tree.block? hash = some block) : tree'.block? hash = some block := by
  rcases block?_eq_some_iff.mp found with ⟨older, isOlder, rfl⟩
  rw [block?_eq_some_iff, added]
  exact ⟨older, lookup_cons_of_some (contains_eq_false_iff.mp unknown) isOlder, rfl⟩

end Added

namespace Grown

variable {rule : Block → Block → Prop} {tree : BlockTree} {block : Block}

theorem grow (grown : Grown rule tree.stored)
    (obeys : ∀ parent, lookup tree.stored block.parentHash = some parent → rule block parent.block)
    (unknown : tree.contains block.hash = false) {below : Difficulty}
    (weighed : tree.weightBelow? block = some below) :
    Grown rule (tree.grow block (below + block.localWeight)).stored := by
  simp only [BlockTree.grow]
  rcases weightBelow?_eq_some weighed with ⟨empty, genesis, rfl⟩ | ⟨parent, linked, rfl⟩
  · rw [empty]
    exact .first genesis
  · exact .child grown (contains_eq_false_iff.mp unknown) linked (obeys parent linked)

/-- If every block but the first obeys a rule together with its parent, this stays so, provided
that the rule holds of a block that finds its parent. -/
theorem attach (grown : Grown rule tree.stored)
    (obeys : ∀ parent, lookup tree.stored block.parentHash = some parent →
      rule block parent.block) : Grown rule (tree.attach block).1.stored := by
  rcases tree.stored_attach block with same | ⟨below, unknown, weighed, added⟩
  · rw [same]
    exact grown
  · rw [added]
    exact grown.grow obeys unknown weighed

end Grown

end BlockTree

end HeaviestChain
