/-!
# Bytes

Byte strings, their hexadecimal text, and natural numbers written as bytes in either order.
A `FixedBytes n` is a byte string of exactly `n` bytes; hashes, addresses and peer names are
such strings.  The lemmas say that a number that fits is read back from its bytes.
-/

namespace HeaviestChain

/-- A byte string. -/
abbrev Bytes := List UInt8

namespace Bytes

/-- The `count` low bytes of `value`, least significant first. -/
def littleEndian : (count value : Nat) → Bytes
  | 0, _ => []
  | count + 1, value => UInt8.ofNat value :: littleEndian count (value / 256)

/-- The number whose bytes are given, least significant first. -/
def ofLittleEndian : Bytes → Nat
  | [] => 0
  | byte :: rest => byte.toNat + 256 * ofLittleEndian rest

/-- The `count` low bytes of `value`, most significant first. -/
def bigEndian (count value : Nat) : Bytes :=
  (littleEndian count value).reverse

@[simp] theorem length_littleEndian (count value : Nat) :
    (littleEndian count value).length = count := by
  induction count generalizing value with
  | zero => rfl
  | succ count ih => simp [littleEndian, ih]

@[simp] theorem length_bigEndian (count value : Nat) :
    (bigEndian count value).length = count := by
  simp [bigEndian]

theorem ofLittleEndian_littleEndian {count value : Nat} (fits : value < Nat.pow 256 count) :
    ofLittleEndian (littleEndian count value) = value := by
  induction count generalizing value with
  | zero =>
      have fits : value < 1 := fits
      simp only [Nat.lt_one_iff] at fits
      subst fits
      rfl
  | succ count ih =>
      have quotientFits : value / 256 < Nat.pow 256 count :=
        (Nat.div_lt_iff_lt_mul (by decide)).mpr fits
      have lowByte : (UInt8.ofNat value).toNat = value % 256 := by simp
      simp only [littleEndian, ofLittleEndian, ih quotientFits, lowByte]
      omega

theorem ofLittleEndian_lt (bytes : Bytes) :
    ofLittleEndian bytes < Nat.pow 256 bytes.length := by
  induction bytes with
  | nil => exact Nat.one_pos
  | cons byte rest ih =>
      have low := byte.toNat_lt
      simp only [ofLittleEndian, List.length_cons, Nat.pow_eq, Nat.pow_succ] at ih ⊢
      omega

theorem littleEndian_ofLittleEndian (bytes : Bytes) :
    littleEndian bytes.length (ofLittleEndian bytes) = bytes := by
  induction bytes with
  | nil => rfl
  | cons byte rest ih =>
      have low : UInt8.ofNat (byte.toNat + 256 * ofLittleEndian rest) = byte := by
        apply UInt8.toNat_inj.mp
        have small := byte.toNat_lt
        simp only [UInt8.toNat_ofNat']
        omega
      have high : (byte.toNat + 256 * ofLittleEndian rest) / 256 = ofLittleEndian rest := by
        have small := byte.toNat_lt
        omega
      simp only [List.length_cons, littleEndian, ofLittleEndian, low, high, ih]

theorem eq_of_bigEndian_eq {count left right : Nat} (leftFits : left < Nat.pow 256 count)
    (rightFits : right < Nat.pow 256 count) (same : bigEndian count left = bigEndian count right) :
    left = right := by
  have reversed : littleEndian count left = littleEndian count right :=
    List.reverse_inj.mp same
  calc
    left = ofLittleEndian (littleEndian count left) := (ofLittleEndian_littleEndian leftFits).symm
    _ = ofLittleEndian (littleEndian count right) := by rw [reversed]
    _ = right := ofLittleEndian_littleEndian rightFits

/-- The lowercase hexadecimal digit of a number below sixteen. -/
def hexDigit (value : Nat) : Char :=
  if value < 10 then Char.ofNat (48 + value) else Char.ofNat (87 + value)

/-- Two lowercase hexadecimal digits per byte. -/
def toHex (bytes : Bytes) : String :=
  String.ofList (bytes.flatMap fun byte => [hexDigit (byte.toNat / 16), hexDigit (byte.toNat % 16)])

end Bytes

/-- A byte string of exactly `n` bytes. -/
structure FixedBytes (n : Nat) where
  /-- The bytes, first one first. -/
  toList : Bytes
  /-- There are exactly `n` of them. -/
  length_toList : toList.length = n
  deriving DecidableEq

namespace FixedBytes

variable {n : Nat}

@[ext] theorem ext {left right : FixedBytes n} (same : left.toList = right.toList) :
    left = right := by
  cases left
  cases right
  cases same
  rfl

/-- The same byte `n` times. -/
def replicate (n : Nat) (byte : UInt8) : FixedBytes n :=
  ⟨List.replicate n byte, List.length_replicate⟩

/-- All bytes zero. -/
def zero (n : Nat) : FixedBytes n :=
  replicate n 0

/-- A byte string of the right length, as a fixed one. -/
def ofList? (bytes : Bytes) : Option (FixedBytes n) :=
  if exact : bytes.length = n then some ⟨bytes, exact⟩ else none

@[simp] theorem ofList?_toList (bytes : FixedBytes n) : ofList? bytes.toList = some bytes := by
  simp [ofList?, bytes.length_toList]

/-- Byte strings of one positive width can be told apart in a row. -/
theorem flatMap_toList_inj (positive : 0 < n) {left right : List (FixedBytes n)}
    (same : left.flatMap toList = right.flatMap toList) : left = right := by
  have nonempty (bytes : FixedBytes n) (rest : Bytes) : bytes.toList ++ rest ≠ [] := by
    intro empty
    have length := congrArg List.length empty
    simp only [List.length_append, bytes.length_toList, List.length_nil] at length
    omega
  induction left generalizing right with
  | nil =>
      cases right with
      | nil => rfl
      | cons first others => exact absurd same.symm (nonempty first _)
  | cons first others ih =>
      cases right with
      | nil => exact absurd same (nonempty first _)
      | cons first' others' =>
          simp only [List.flatMap_cons] at same
          have sameWidth : first.toList.length = first'.toList.length :=
            first.length_toList.trans first'.length_toList.symm
          rcases List.append_inj same sameWidth with ⟨sameFirst, sameOthers⟩
          rw [ext sameFirst, ih sameOthers]

/-- The first byte that differs decides the order. -/
def compare (left right : FixedBytes n) : Ordering :=
  Ord.compare left.toList right.toList

/-- The hexadecimal text of all bytes. -/
def toHex (bytes : FixedBytes n) : String :=
  Bytes.toHex bytes.toList

/-- The hexadecimal text of the first `count` bytes. -/
def headHex (count : Nat) (bytes : FixedBytes n) : String :=
  Bytes.toHex (bytes.toList.take count)

end FixedBytes

end HeaviestChain
