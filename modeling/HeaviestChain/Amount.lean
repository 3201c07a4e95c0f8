/-!
# Amounts

Coins and difficulties are 256-bit numbers.  Their sum stops at the largest number instead of
wrapping, so a chain can never lose weight by gaining a block; where a caller has to know that a
sum or difference left the range, the checked forms give no answer.
-/

namespace HeaviestChain

/-- How many numbers fit in 256 bits. -/
def Word256.size : Nat := UInt64.size * UInt64.size * UInt64.size * UInt64.size

/-- A natural number that fits in 256 bits. -/
structure Word256 where
  /-- The number. -/
  toNat : Nat
  /-- It fits. -/
  toNat_lt : toNat < Word256.size
  deriving DecidableEq

namespace Word256

@[ext] theorem ext {left right : Word256} (same : left.toNat = right.toNat) : left = right := by
  cases left
  cases right
  cases same
  rfl

/-- The number nearest to `value` that fits. -/
def clamp (value : Nat) : Word256 :=
  ⟨min value (size - 1), Nat.lt_of_le_of_lt (Nat.min_le_right ..) (by decide)⟩

/-- The number `value`, if it fits. -/
def ofNat? (value : Nat) : Option Word256 :=
  if fits : value < size then some ⟨value, fits⟩ else none

/-- A 64-bit word as a wide one. -/
def ofWord (value : UInt64) : Word256 :=
  ⟨value.toNat, Nat.lt_of_lt_of_le value.toNat_lt_size (by decide)⟩

instance : Inhabited Word256 := ⟨clamp 0⟩

instance : LT Word256 := ⟨fun left right => left.toNat < right.toNat⟩

instance : LE Word256 := ⟨fun left right => left.toNat ≤ right.toNat⟩

instance (left right : Word256) : Decidable (left < right) :=
  inferInstanceAs (Decidable (left.toNat < right.toNat))

instance (left right : Word256) : Decidable (left ≤ right) :=
  inferInstanceAs (Decidable (left.toNat ≤ right.toNat))

instance : Ord Word256 := ⟨fun left right => compare left.toNat right.toNat⟩

/-- The sum, or the largest number when the sum does not fit. -/
def addToTop (left right : Word256) : Word256 :=
  clamp (left.toNat + right.toNat)

/-- The sum, if it fits. -/
def add? (left right : Word256) : Option Word256 :=
  ofNat? (left.toNat + right.toNat)

/-- The difference, if it is not negative. -/
def sub? (left right : Word256) : Option Word256 :=
  if right.toNat ≤ left.toNat then ofNat? (left.toNat - right.toNat) else none

/-- The 64 low bits. -/
def lowWord (value : Word256) : UInt64 :=
  UInt64.ofNat value.toNat

@[simp] theorem toNat_clamp (value : Nat) : (clamp value).toNat = min value (size - 1) := rfl

theorem toNat_clamp_of_lt {value : Nat} (fits : value < size) : (clamp value).toNat = value := by
  rw [toNat_clamp]
  omega

@[simp] theorem clamp_toNat (value : Word256) : clamp value.toNat = value :=
  ext (toNat_clamp_of_lt value.toNat_lt)

@[simp] theorem toNat_addToTop (left right : Word256) :
    (addToTop left right).toNat = min (left.toNat + right.toNat) (size - 1) := rfl

end Word256

/-- An amount of currency. -/
structure Coin where
  /-- The number of smallest units. -/
  units : Word256
  deriving DecidableEq

namespace Coin

/-- No money. -/
def zero : Coin := ⟨.clamp 0⟩

/-- An amount given as a 64-bit word. -/
def ofWord (value : UInt64) : Coin := ⟨.ofWord value⟩

/-- The sum; it stops at the largest amount. -/
def add (left right : Coin) : Coin := ⟨left.units.addToTop right.units⟩

instance : Add Coin := ⟨add⟩

instance : Ord Coin := ⟨fun left right => compare left.units right.units⟩

/-- The sum, if it fits. -/
def add? (left right : Coin) : Option Coin := (left.units.add? right.units).map Coin.mk

/-- The difference, if it is not negative. -/
def sub? (left right : Coin) : Option Coin := (left.units.sub? right.units).map Coin.mk

/-- The amount in decimal. -/
def text (amount : Coin) : String := toString amount.units.toNat

/-- The amount with the name of its kind. -/
def brief (amount : Coin) : String := s!"Coin({amount.text})"

end Coin

/-- How much work a block claims; a sum of difficulties is the weight of a chain. -/
structure Difficulty where
  /-- The amount of work. -/
  work : Word256
  deriving DecidableEq

namespace Difficulty

/-- No work. -/
def zero : Difficulty := ⟨.clamp 0⟩

/-- The smallest positive difficulty. -/
def one : Difficulty := ⟨.clamp 1⟩

/-- A difficulty given as a 64-bit word. -/
def ofWord (value : UInt64) : Difficulty := ⟨.ofWord value⟩

/-- The sum; it stops at the largest difficulty. -/
def add (left right : Difficulty) : Difficulty := ⟨left.work.addToTop right.work⟩

instance : Add Difficulty := ⟨add⟩

instance : LT Difficulty := ⟨fun left right => left.work < right.work⟩

instance : LE Difficulty := ⟨fun left right => left.work ≤ right.work⟩

instance (left right : Difficulty) : Decidable (left < right) :=
  inferInstanceAs (Decidable (left.work < right.work))

instance (left right : Difficulty) : Decidable (left ≤ right) :=
  inferInstanceAs (Decidable (left.work ≤ right.work))

instance : Ord Difficulty := ⟨fun left right => compare left.work right.work⟩

/-- The sum of a list, from the left, starting with no work. -/
def sum (values : List Difficulty) : Difficulty :=
  values.foldl (· + ·) zero

/-- The sums of all nonempty beginnings of a list. -/
def runningSums (values : List Difficulty) : List Difficulty :=
  go zero values
where
  /-- The sums that start from `total`. -/
  go (total : Difficulty) : List Difficulty → List Difficulty
    | [] => []
    | value :: rest => (total + value) :: go (total + value) rest

/-- The largest of a list, if it has any element. -/
def max? : List Difficulty → Option Difficulty
  | [] => none
  | value :: rest => some (rest.foldl (fun best next => if next < best then best else next) value)

/-- The difficulty in decimal. -/
def text (value : Difficulty) : String := toString value.work.toNat

/-- The difficulty with the name of its kind. -/
def brief (value : Difficulty) : String := s!"Difficulty({value.text})"

@[simp] theorem work_add (left right : Difficulty) :
    (left + right).work = left.work.addToTop right.work := rfl

end Difficulty

end HeaviestChain
