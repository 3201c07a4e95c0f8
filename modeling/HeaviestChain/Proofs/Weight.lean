import HeaviestChain.Block
import Mathlib.Algebra.Ring.Nat

/-!
# Exact weights

The sums of difficulties stop at the largest 256-bit number.  This file relates them to sums of
natural numbers: `Difficulty.ofNat` takes a number to the nearest difficulty, and it takes sums to
sums, so that stopping early or late makes no difference.  Everything the block tree adds up is
therefore `Difficulty.ofNat` of an exact sum.
-/

namespace HeaviestChain

theorem Word256.size_eq : Word256.size = 2 ^ 256 := by decide

namespace Difficulty

/-- The difficulty nearest to a number. -/
def ofNat (value : Nat) : Difficulty := ⟨.clamp value⟩

/-- The number of a difficulty. -/
def toNat (value : Difficulty) : Nat := value.work.toNat

@[ext] theorem ext {left right : Difficulty} (same : left.toNat = right.toNat) : left = right := by
  cases left
  cases right
  exact congrArg Difficulty.mk (Word256.ext same)

theorem lt_iff {left right : Difficulty} : left < right ↔ left.toNat < right.toNat := Iff.rfl

theorem le_iff {left right : Difficulty} : left ≤ right ↔ left.toNat ≤ right.toNat := Iff.rfl

theorem toNat_lt (value : Difficulty) : value.toNat < 2 ^ 256 := by
  rw [← Word256.size_eq]
  exact value.work.toNat_lt

theorem toNat_ofNat (value : Nat) : (ofNat value).toNat = min (2 ^ 256 - 1) value := by
  rw [← Word256.size_eq, Nat.min_comm]
  rfl

theorem toNat_add (left right : Difficulty) :
    (left + right).toNat = min (2 ^ 256 - 1) (left.toNat + right.toNat) := by
  rw [← Word256.size_eq, Nat.min_comm]
  rfl

@[simp]
theorem ofNat_toNat (value : Difficulty) : ofNat value.toNat = value := by
  ext
  have := value.toNat_lt
  rw [toNat_ofNat]
  omega

theorem zero_eq_ofNat : zero = ofNat 0 := rfl

/-- Stopping before a sum and stopping after it give the same difficulty. -/
theorem ofNat_add (left right : Nat) : ofNat (left + right) = ofNat left + ofNat right := by
  ext
  rw [toNat_add, toNat_ofNat, toNat_ofNat, toNat_ofNat]
  omega

theorem foldl_add_eq_ofNat (values : List Difficulty) (start : Nat) :
    values.foldl (· + ·) (ofNat start) = ofNat (start + (values.map toNat).sum) := by
  induction values generalizing start with
  | nil => rfl
  | cons value rest ih =>
      have next : ofNat start + value = ofNat (start + value.toNat) := by
        rw [ofNat_add, ofNat_toNat]
      rw [List.foldl_cons, next, ih, List.map_cons, List.sum_cons, Nat.add_assoc]

theorem sum_eq_ofNat (values : List Difficulty) : sum values = ofNat (values.map toNat).sum := by
  have total := foldl_add_eq_ofNat values 0
  rw [Nat.zero_add] at total
  exact total

end Difficulty

namespace Block

/-- What the block adds to the weight of its chain, as a number that may be of any size: its own
difficulty and that of its uncles. -/
def exactWeight (block : Block) : Nat :=
  block.header.difficulty.toNat + (block.uncles.map (·.difficulty.toNat)).sum

theorem localWeight_eq_ofNat (block : Block) :
    block.localWeight = .ofNat block.exactWeight := by
  unfold localWeight exactWeight
  rw [Difficulty.sum_eq_ofNat, List.map_map, Difficulty.ofNat_add, Difficulty.ofNat_toNat]
  rfl

end Block

end HeaviestChain
