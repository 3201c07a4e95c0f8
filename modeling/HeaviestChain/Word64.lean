/-!
# Counting in 64 bits

Block numbers, nonces and seconds are 64-bit words.  Where a sum or a difference could leave the
range, the rule is explicit: it stops at the end of the range, or there is no answer.
-/

namespace HeaviestChain.Word64

/-- The largest 64-bit word. -/
def top : UInt64 := 18446744073709551615

/-- The sum, or the largest word when the sum does not fit. -/
def addToTop (left right : UInt64) : UInt64 :=
  if left.toNat + right.toNat < UInt64.size then left + right else top

/-- The difference, or zero when it would be negative. -/
def subToZero (left right : UInt64) : UInt64 :=
  if left < right then 0 else left - right

/-- The next word; the largest one has none. -/
def next? (value : UInt64) : Option UInt64 :=
  if value = top then none else some (value + 1)

/-- The previous word; zero has none. -/
def previous? (value : UInt64) : Option UInt64 :=
  if value = 0 then none else some (value - 1)

theorem toNat_top : top.toNat = UInt64.size - 1 := rfl

theorem le_top (value : UInt64) : value ≤ top := by
  rw [UInt64.le_iff_toNat_le, toNat_top]
  exact Nat.le_sub_one_of_lt value.toNat_lt

theorem toNat_ofNat_of_le {number : Nat} {bound : UInt64} (within : number ≤ bound.toNat) :
    (UInt64.ofNat number).toNat = number :=
  UInt64.toNat_ofNat_of_lt' (Nat.lt_of_le_of_lt within bound.toNat_lt)

theorem ofNat_le {number : Nat} {bound : UInt64} (within : number ≤ bound.toNat) :
    UInt64.ofNat number ≤ bound := by
  rw [UInt64.le_iff_toNat_le, toNat_ofNat_of_le within]
  exact within

theorem toNat_addToTop (left right : UInt64) :
    (addToTop left right).toNat = min (left.toNat + right.toNat) (UInt64.size - 1) := by
  unfold addToTop
  split
  case isTrue fits =>
      rw [UInt64.toNat_add]
      simp only [UInt64.size] at fits ⊢
      omega
  case isFalse overflow =>
      rw [toNat_top]
      omega

theorem toNat_subToZero (left right : UInt64) :
    (subToZero left right).toNat = left.toNat - right.toNat := by
  unfold subToZero
  split
  case isTrue below =>
      have : left.toNat < right.toNat := UInt64.lt_iff_toNat_lt.mp below
      rw [UInt64.toNat_zero]
      omega
  case isFalse above =>
      have ordered : right ≤ left := UInt64.le_iff_toNat_le.mpr (by
        have := mt UInt64.lt_iff_toNat_lt.mpr above
        omega)
      exact UInt64.toNat_sub_of_le left right ordered

theorem toNat_next {value following : UInt64} (found : next? value = some following) :
    following.toNat = value.toNat + 1 := by
  unfold next? at found
  split at found
  case isTrue => cases found
  case isFalse inside =>
      cases found
      have bound := value.toNat_lt
      have : value.toNat ≠ top.toNat := fun atTop => inside (UInt64.toNat_inj.mp atTop)
      simp only [toNat_top, UInt64.size] at this
      rw [UInt64.toNat_add, UInt64.toNat_one]
      omega

theorem next?_eq_none_iff {value : UInt64} : next? value = none ↔ value = top := by
  simp [next?]

theorem toNat_of_next?_eq_none {value : UInt64} (last : next? value = none) :
    value.toNat + 1 = UInt64.size := by
  rw [next?_eq_none_iff.mp last]
  rfl

theorem lt_iff_next_le {value following : UInt64} (found : next? value = some following)
    (other : UInt64) : value < other ↔ following ≤ other := by
  rw [UInt64.lt_iff_toNat_lt, UInt64.le_iff_toNat_le, toNat_next found, Nat.lt_iff_add_one_le]

theorem lt_of_next {value following : UInt64} (found : next? value = some following) :
    value < following :=
  (lt_iff_next_le found following).mpr (UInt64.le_refl following)

end HeaviestChain.Word64
