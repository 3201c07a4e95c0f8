import HeaviestChain.Proofs.BlockTree.Growth

/-!
# Fork choice

The head of a block tree is a function of its stored blocks: it is the block that came first among
those of the greatest total weight.  `heaviest?` is that function, and `Headed` says that a tree's
head agrees with it.  Every offer keeps this, whatever the block, because the head moves only to a
strictly heavier one.
-/

namespace HeaviestChain

namespace BlockTree

/-! ## The earliest of the heaviest -/

/-- The entry that came first among those of the greatest total weight, newest entry first. -/
def heaviest? : List StoredBlock → Option StoredBlock
  | [] => none
  | entry :: older =>
      match heaviest? older with
      | none => some entry
      | some best => if best.totalWeight < entry.totalWeight then some entry else some best

theorem heaviest?_eq_none_iff {stored : List StoredBlock} :
    heaviest? stored = none ↔ stored = [] := by
  cases stored with
  | nil => simp [heaviest?]
  | cons entry older =>
      simp only [heaviest?, reduceCtorEq, iff_false]
      cases heaviest? older with
      | none => simp
      | some best =>
          dsimp only
          split <;> simp

theorem mem_of_heaviest? {stored : List StoredBlock} {best : StoredBlock}
    (heaviest : heaviest? stored = some best) : best ∈ stored := by
  induction stored generalizing best with
  | nil => cases heaviest
  | cons entry older ih =>
      simp only [heaviest?] at heaviest
      split at heaviest
      case h_1 =>
          cases heaviest
          exact List.mem_cons_self ..
      case h_2 bestOfOlder older =>
          split at heaviest
          case isTrue =>
              cases heaviest
              exact List.mem_cons_self ..
          case isFalse =>
              cases heaviest
              exact List.mem_cons_of_mem _ (ih older)

theorem le_of_heaviest? {stored : List StoredBlock} {best : StoredBlock}
    (heaviest : heaviest? stored = some best) {entry : StoredBlock} (mem : entry ∈ stored) :
    entry.totalWeight ≤ best.totalWeight := by
  induction stored generalizing best with
  | nil => cases mem
  | cons new older ih =>
      simp only [heaviest?] at heaviest
      split at heaviest
      case h_1 none =>
          cases heaviest
          rw [heaviest?_eq_none_iff] at none
          rw [none, List.mem_singleton] at mem
          subst mem
          exact Difficulty.le_iff.mpr (Nat.le_refl _)
      case h_2 bestOfOlder found =>
          rw [List.mem_cons] at mem
          rw [Difficulty.le_iff]
          split at heaviest
          case isTrue heavier =>
              cases heaviest
              rw [Difficulty.lt_iff] at heavier
              rcases mem with rfl | old
              · exact Nat.le_refl _
              · have := Difficulty.le_iff.mp (ih found old)
                omega
          case isFalse lighter =>
              cases heaviest
              rw [Difficulty.lt_iff] at lighter
              rcases mem with rfl | old
              · omega
              · exact Difficulty.le_iff.mp (ih found old)

/-- Newer blocks that are not heavier do not displace the heaviest one. -/
theorem heaviest?_append {newer older : List StoredBlock} {best : StoredBlock}
    (heaviest : heaviest? older = some best)
    (lighter : ∀ entry ∈ newer, entry.totalWeight ≤ best.totalWeight) :
    heaviest? (newer ++ older) = some best := by
  induction newer with
  | nil => exact heaviest
  | cons entry newer ih =>
      have rest := ih fun other mem => lighter other (List.mem_cons_of_mem _ mem)
      have entryLighter := Difficulty.le_iff.mp (lighter entry (List.mem_cons_self ..))
      have notHeavier : ¬best.totalWeight < entry.totalWeight := by
        rw [Difficulty.lt_iff]
        omega
      simp only [List.cons_append, heaviest?, rest, notHeavier, if_false]

/-- If an older block is as heavy as the heaviest one, the heaviest one is not newer. -/
theorem heaviest?_of_append {newer older : List StoredBlock} {best entry : StoredBlock}
    (heaviest : heaviest? (newer ++ older) = some best) (mem : entry ∈ older)
    (asHeavy : entry.totalWeight = best.totalWeight) : heaviest? older = some best := by
  cases bestBefore : heaviest? older with
  | none =>
      rw [heaviest?_eq_none_iff] at bestBefore
      rw [bestBefore] at mem
      cases mem
  | some first =>
      have reached := le_of_heaviest? bestBefore mem
      rw [asHeavy] at reached
      have unbeaten : ∀ other ∈ newer, other.totalWeight ≤ first.totalWeight := by
        intro other otherMem
        have beaten := le_of_heaviest? heaviest (List.mem_append_left _ otherMem)
        rw [Difficulty.le_iff] at reached beaten ⊢
        exact Nat.le_trans beaten reached
      have same := heaviest?_append bestBefore unbeaten
      rw [heaviest] at same
      exact same.symm

/-! ## The head -/

/-- The head that a stored block makes. -/
def headOf (entry : StoredBlock) : ChainHead :=
  ⟨entry.block.hash, entry.block.number, entry.totalWeight⟩

/-- The head is the earliest of the heaviest blocks. -/
def Headed (tree : BlockTree) : Prop :=
  tree.head = (heaviest? tree.stored).map headOf

namespace Headed

variable {tree : BlockTree}

theorem stored_eq_nil_iff (headed : tree.Headed) : tree.stored = [] ↔ tree.head = none := by
  rw [headed, Option.map_eq_none_iff, heaviest?_eq_none_iff]

theorem head_eq_none_iff (headed : tree.Headed) : tree.head = none ↔ tree.isEmpty = true := by
  rw [← headed.stored_eq_nil_iff, isEmpty, List.isEmpty_iff]

theorem exists_heaviest (headed : tree.Headed) {head : ChainHead} (isHead : tree.head = some head) :
    ∃ best, heaviest? tree.stored = some best ∧ head = headOf best := by
  rw [headed, Option.map_eq_some_iff] at isHead
  rcases isHead with ⟨best, heaviest, rfl⟩
  exact ⟨best, heaviest, rfl⟩

theorem exists_best? (headed : tree.Headed) {head : ChainHead}
    (isHead : tree.head = some head) : ∃ best, tree.best? = some best := by
  rcases headed.exists_heaviest isHead with ⟨best, heaviest, rfl⟩
  have stored := mem_of_heaviest? heaviest
  simp only [best?, isHead, Option.bind_some, headOf, ← Option.isSome_iff_exists,
    block?, find?, Option.isSome_map, List.find?_isSome]
  exact ⟨best, stored, decide_eq_true rfl⟩

/-- The head is a stored block with its weight. -/
theorem exists_entry (headed : tree.Headed) {rule : Block → Block → Prop}
    (grown : Grown rule tree.stored) {head : ChainHead} (isHead : tree.head = some head) :
    ∃ entry ∈ tree.stored, entry.totalWeight = head.weight ∧ tree.best? = some entry.block := by
  rcases headed.exists_heaviest isHead with ⟨entry, heaviest, rfl⟩
  have mem := mem_of_heaviest? heaviest
  refine ⟨entry, mem, rfl, ?_⟩
  rw [best?, isHead, Option.bind_some, block?_eq_some_iff]
  exact ⟨entry, grown.lookup_of_mem mem, rfl⟩

theorem attach (headed : tree.Headed) (block : Block) : (tree.attach block).1.Headed := by
  have offered := tree.offered_attach block
  generalize tree.attach block = result at offered ⊢
  cases offered with
  | alreadyStored _ => exact headed
  | parentMissing _ _ => exact headed
  | sideBranch _ _ isHead lighter =>
      rcases headed.exists_heaviest isHead with ⟨best, heaviest, rfl⟩
      simp only [Headed, grow, heaviest?, heaviest, isHead, headOf] at lighter ⊢
      rw [if_neg lighter]
      rfl
  | newHead _ _ heavier =>
      simp only [Headed, head_moveHead, stored_moveHead, grow, heaviest?]
      cases heaviest : heaviest? tree.stored with
      | none => rfl
      | some best =>
          have isHead : tree.head = some (headOf best) := by rw [headed, heaviest]; rfl
          have bestLighter := heavier _ isHead
          simp only [headOf] at bestLighter
          dsimp only
          rw [if_pos bestLighter]
          rfl

end Headed

/-- The head is the same one, or a strictly heavier one. -/
def Rises (before after : Option ChainHead) : Prop :=
  after = before ∨
    ∃ next, after = some next ∧ ∀ head, before = some head → head.weight < next.weight

/-- What is heavier than the later head is heavier than the earlier one. -/
theorem Rises.lt_of_lt {before after : Option ChainHead} (rises : Rises before after)
    {weight : Difficulty} (heavier : ∀ head, after = some head → head.weight < weight) :
    ∀ head, before = some head → head.weight < weight := by
  intro head isHead
  rcases rises with rfl | ⟨next, isNext, above⟩
  · exact heavier head isHead
  · have low := Difficulty.lt_iff.mp (above head isHead)
    have high := Difficulty.lt_iff.mp (heavier next isNext)
    exact Difficulty.lt_iff.mpr (Nat.lt_trans low high)

theorem Rises.trans {first second third : Option ChainHead} (early : Rises first second)
    (late : Rises second third) : Rises first third := by
  rcases late with rfl | ⟨next, rfl, heavier⟩
  · exact early
  · exact .inr ⟨next, rfl, early.lt_of_lt heavier⟩

theorem rises_attach (tree : BlockTree) (block : Block) :
    Rises tree.head (tree.attach block).1.head := by
  have offered := tree.offered_attach block
  generalize tree.attach block = result at offered ⊢
  cases offered with
  | alreadyStored _ => exact .inl rfl
  | parentMissing _ _ => exact .inl rfl
  | sideBranch _ _ _ _ => exact .inl rfl
  | newHead _ _ heavier => exact .inr ⟨_, rfl, heavier⟩

theorem lt_of_head_attach_ne {tree : BlockTree} {block : Block} {head : ChainHead}
    (isHead : tree.head = some head) (changed : (tree.attach block).1.head ≠ tree.head) :
    ∃ next, (tree.attach block).1.head = some next ∧ head.weight < next.weight := by
  rcases tree.rises_attach block with same | ⟨next, isNext, heavier⟩
  · exact absurd same changed
  · exact ⟨next, isNext, heavier head isHead⟩

/-! ## Runs -/

/-- The tree after blocks were offered one after the other. -/
def attachAll (tree : BlockTree) (offers : List Block) : BlockTree :=
  offers.foldl (fun tree block => (tree.attach block).1) tree

theorem attachAll_append (tree : BlockTree) (earlier later : List Block) :
    tree.attachAll (earlier ++ later) = (tree.attachAll earlier).attachAll later :=
  List.foldl_append

theorem headed_empty : empty.Headed := rfl

theorem headed_attachAll {tree : BlockTree} (headed : tree.Headed) (offers : List Block) :
    (tree.attachAll offers).Headed := by
  induction offers generalizing tree with
  | nil => exact headed
  | cons block rest ih => exact ih (headed.attach block)

/-- Offers without any promise about the blocks build a tree of which no rule can be told. -/
theorem grown_attachAll {tree : BlockTree} (grown : Grown (fun _ _ => True) tree.stored)
    (offers : List Block) : Grown (fun _ _ => True) (tree.attachAll offers).stored := by
  induction offers generalizing tree with
  | nil => exact grown
  | cons block rest ih => exact ih (grown.attach fun _ _ => trivial)

/-- Later offers put blocks before the stored ones and leave these alone. -/
theorem exists_stored_attachAll (tree : BlockTree) (offers : List Block) :
    ∃ newer, (tree.attachAll offers).stored = newer ++ tree.stored := by
  induction offers generalizing tree with
  | nil => exact ⟨[], rfl⟩
  | cons block rest ih =>
      rcases ih (tree.attach block).1 with ⟨newer, split⟩
      rcases tree.stored_attach block with same | ⟨below, _, _, added⟩
      · rw [same] at split
        exact ⟨newer, split⟩
      · rw [added] at split
        exact ⟨newer ++ [_], by rw [List.append_assoc]; exact split⟩

/-- After any offers to an empty tree, the weight of a stored block is the exact sum of the
difficulties of the blocks and uncles on its line, or the largest number if that does not fit; the
head is the block that was stored earliest among the heaviest, and it gives way only to a strictly
heavier one. -/
theorem head_is_earliest_heaviest (offers : List Block) :
    let tree := empty.attachAll offers
    (∀ hash entry, tree.find? hash = some entry →
      (∃ line, Line tree.stored entry line) ∧
        ∀ line, Line tree.stored entry line →
          entry.totalWeight.toNat = min (2 ^ 256 - 1) (line.map Block.exactWeight).sum) ∧
    (tree.head = none ↔ tree.isEmpty = true) ∧
    (∀ head, tree.head = some head →
      (∃ best, tree.find? head.hash = some best ∧ head = headOf best) ∧
      (∀ hash entry, tree.find? hash = some entry → entry.totalWeight ≤ head.weight) ∧
      ∀ earlier later, offers = earlier ++ later →
        ∀ hash entry, (empty.attachAll earlier).find? hash = some entry →
          entry.totalWeight = head.weight → (empty.attachAll earlier).contains head.hash = true) ∧
    ∀ head block, tree.head = some head → (tree.attach block).1.head ≠ tree.head →
      ∃ next, (tree.attach block).1.head = some next ∧ head.weight < next.weight := by
  intro tree
  have grown : Grown (fun _ _ => True) tree.stored := grown_attachAll grown_empty offers
  have headed : tree.Headed := headed_attachAll headed_empty offers
  refine ⟨?weights, headed.head_eq_none_iff, ?head, fun head block => lt_of_head_attach_ne⟩
  case weights =>
      intro hash entry found
      rcases grown.exists_line (mem_of_lookup found) with ⟨line, isLine, weight⟩
      refine ⟨⟨line, isLine⟩, ?_⟩
      intro other isOther
      rw [isOther.unique isLine, weight, Difficulty.toNat_ofNat]
  case head =>
      intro head isHead
      rcases headed.exists_heaviest isHead with ⟨best, heaviest, rfl⟩
      refine ⟨⟨best, grown.lookup_of_mem (mem_of_heaviest? heaviest), rfl⟩, ?_, ?_⟩
      · intro hash entry found
        exact le_of_heaviest? heaviest (mem_of_lookup found)
      · intro earlier later split hash entry found asHeavy
        rcases exists_stored_attachAll (empty.attachAll earlier) later with ⟨newer, stored⟩
        rw [← attachAll_append, ← split] at stored
        have heaviest' : heaviest? (newer ++ (empty.attachAll earlier).stored) = some best := by
          rw [← stored]
          exact heaviest
        have earlierHeaviest := heaviest?_of_append heaviest' (mem_of_lookup found) asHeavy
        have earlierGrown := grown_attachAll grown_empty earlier
        rw [contains_iff]
        exact ⟨best, earlierGrown.lookup_of_mem (mem_of_heaviest? earlierHeaviest)⟩

end BlockTree

end HeaviestChain
