import HeaviestChain.Block
import Mathlib.Data.List.Flatten

/-!
# Level order

A work-list from which blocks are taken at the front, and to whose end the offspring of each kept
block is added, goes through a tree level by level.  The argument works on a whole level at once:
when the blocks of one level have been taken, the list holds the next level, and the kept blocks of
the level have been put out in their order (`Sweep.round`).
-/

namespace HeaviestChain

variable (offspring : Block → List Block) (keeps : Block → Bool)

/-- Work on a list until it is empty, with the blocks that have been kept, in order. -/
inductive Sweep : List Block → List Block → Prop
  | done : Sweep [] []
  | kept {block : Block} {queue out : List Block} (keep : keeps block = true)
      (onward : Sweep (queue ++ offspring block) out) : Sweep (block :: queue) (block :: out)
  | dropped {block : Block} {queue out : List Block} (drop : keeps block = false)
      (onward : Sweep queue out) : Sweep (block :: queue) out

/-- The kept blocks that are `depth` generations below `root`, siblings in their order. -/
def level (root : Block) : Nat → List Block
  | 0 => [root]
  | depth + 1 => (level root depth).flatMap fun parent => (offspring parent).filter keeps

variable {offspring keeps}

/-- Below an empty level there is nothing. -/
theorem level_eq_nil_of_le {root : Block} {height depth : Nat}
    (empty : level offspring keeps root height = []) (below : height ≤ depth) :
    level offspring keeps root depth = [] := by
  induction below with
  | refl => exact empty
  | step _ ih => rw [level, ih, List.flatMap_nil]

namespace Sweep

/-- Only the offspring of the blocks that are put out matters. -/
theorem congr {offspring' : Block → List Block} {queue out : List Block}
    (sweep : Sweep offspring keeps queue out) (same : ∀ block ∈ out, offspring block = offspring' block) :
    Sweep offspring' keeps queue out := by
  induction sweep with
  | done => exact .done
  | kept keep _ ih =>
      rw [List.forall_mem_cons] at same
      rw [same.1] at ih
      exact .kept keep (ih same.2)
  | dropped drop _ ih => exact .dropped drop (ih same)

/-- When the front part of the list has been taken, its kept blocks are out, and their offspring
stands at the end. -/
theorem round {front later out : List Block} (sweep : Sweep offspring keeps (front ++ later) out) :
    ∃ rest, out = front.filter keeps ++ rest ∧
      Sweep offspring keeps (later ++ (front.filter keeps).flatMap offspring) rest := by
  induction front generalizing later out with
  | nil => exact ⟨out, rfl, by simpa using sweep⟩
  | cons block front ih =>
      cases sweep with
      | kept keep onward =>
          change Sweep offspring keeps ((front ++ later) ++ offspring block) _ at onward
          rw [List.append_assoc] at onward
          rcases ih onward with ⟨rest, isOut, next⟩
          rw [List.filter_cons_of_pos keep, List.flatMap_cons]
          refine ⟨rest, congrArg (block :: ·) isOut, ?_⟩
          rwa [List.append_assoc] at next
      | dropped drop onward =>
          rw [List.filter_cons_of_neg (by simp [drop])]
          exact ih onward

theorem exists_levels {root : Block} {depth : Nat} {out : List Block}
    (sweep : Sweep offspring keeps ((level offspring keeps root depth).flatMap offspring) out) :
    ∃ count, level offspring keeps root (depth + count) = [] ∧
      level offspring keeps root depth ++ out =
        (List.range' depth count).flatMap (level offspring keeps root) := by
  -- a level with blocks in it leaves fewer blocks to put out
  induction length : (level offspring keeps root depth ++ out).length using Nat.strongRecOn
    generalizing depth out with
  | ind _ ih =>
      rw [← List.append_nil (List.flatMap _ _)] at sweep
      rcases sweep.round with ⟨rest, isOut, next⟩
      have following : ((level offspring keeps root depth).flatMap offspring).filter keeps =
          level offspring keeps root (depth + 1) := by
        rw [List.filter_flatMap]
        rfl
      rw [following] at isOut next
      cases here : level offspring keeps root depth with
      | nil =>
          have empty := level_eq_nil_of_le here (Nat.le_succ depth)
          rw [empty] at isOut next
          cases next with
          | done => exact ⟨0, here, isOut⟩
      | cons block others =>
          have shorter : (level offspring keeps root (depth + 1) ++ rest).length <
              (level offspring keeps root depth ++ out).length := by
            rw [← isOut, here, List.length_append, List.length_cons]
            omega
          rcases ih _ (length ▸ shorter) next rfl with ⟨count, last, isRest⟩
          refine ⟨count + 1, ?_, ?_⟩
          · rwa [Nat.add_assoc, Nat.add_comm 1] at last
          · rw [isOut, isRest, List.range'_succ, List.flatMap_cons, here]

/-- Work that begins with the offspring of a block puts out the tree below it in level order. -/
theorem exists_levelOrder {root : Block} {out : List Block}
    (sweep : Sweep offspring keeps (offspring root) out) :
    ∃ height, (∀ depth, height ≤ depth → level offspring keeps root depth = []) ∧
      root :: out = (List.range height).flatMap (level offspring keeps root) := by
  have below : Sweep offspring keeps ((level offspring keeps root 0).flatMap offspring) out := by
    rw [level, List.flatMap_singleton]
    exact sweep
  rcases below.exists_levels with ⟨height, empty, isOut⟩
  rw [Nat.zero_add] at empty
  rw [← List.range_eq_range'] at isOut
  exact ⟨height, fun depth => level_eq_nil_of_le empty, isOut⟩

end Sweep

end HeaviestChain
