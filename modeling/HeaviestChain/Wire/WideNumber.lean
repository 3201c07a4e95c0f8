import HeaviestChain.Amount
import HeaviestChain.Wire.Reader

/-!
# Wide numbers on the wire

A 256-bit number travels as a text: `0x` and its hexadecimal digits without leading zeros.  More is
read than is written: the mark may be missing, digits may be upper case, there may be leading zeros
and blanks between digits.
-/

namespace HeaviestChain.Wire.WideNumber

/-! ## Writing -/

/-- The hexadecimal digits of a number, without leading zeros; zero has one digit. -/
def digits (value : Nat) : List Nat :=
  if value < 16 then [value] else digits (value / 16) ++ [value % 16]

/-- The character code of a hexadecimal digit, in lower case. -/
def digitByte (digit : Nat) : UInt8 :=
  UInt8.ofNat (if digit < 10 then 48 + digit else 87 + digit)

/-- The mark of a hexadecimal number. -/
def mark : Bytes := [48, 120]

/-- The characters of a number. -/
def format (value : Word256) : Bytes :=
  mark ++ (digits value.toNat).map digitByte

/-- A wide number as it travels. -/
def write (value : Word256) : Bytes := byteVector (format value)

/-! ## Reading -/

/-- What a character means in a number. -/
inductive Symbol where
  /-- A digit. -/
  | digit (value : Nat)
  /-- Nothing. -/
  | blank
  /-- It may not occur. -/
  | other
  deriving DecidableEq

/-- What the character with this code means. -/
def symbol (byte : UInt8) : Symbol :=
  if 48 ≤ byte ∧ byte ≤ 57 then .digit (byte.toNat - 48)
  else if 97 ≤ byte ∧ byte ≤ 102 then .digit (byte.toNat - 87)
  else if 65 ≤ byte ∧ byte ≤ 70 then .digit (byte.toNat - 55)
  else if byte = 32 ∨ byte = 9 ∨ byte = 13 ∨ byte = 10 then .blank
  else .other

/-- Reads characters from `position` on.  Digits are taken in pairs: `value` is what the full pairs
so far come to, and `half` a digit that still lacks its partner.  A digit that never finds one is
left out. -/
def parseDigits (position value : Nat) (half : Option Nat) : Bytes → Except WireError Nat
  | [] => .ok value
  | byte :: rest =>
      match symbol byte, half with
      | .digit low, some high => parseDigits (position + 1) (256 * value + 16 * high + low) none rest
      | .digit high, none => parseDigits (position + 1) value (some high) rest
      | .blank, half => parseDigits (position + 1) value half rest
      | .other, _ => .error (.numberDigit byte position)

/-- Reads the characters behind the mark, of which there are `offset`.  If their number is odd, the
first digit stands alone, as if a zero preceded it. -/
def parseBody (offset : Nat) (body : Bytes) : Except WireError Nat :=
  if body.length = 0 ∨ 64 < body.length then .error (.numberLength body.length)
  else parseDigits offset 0 (if body.length % 2 = 1 then some 0 else none) body

/-- Reads the characters of a number, with or without the mark. -/
def parse (characters : Bytes) : Except WireError Nat :=
  match characters with
  | 48 :: 120 :: body => parseBody 2 body
  | body => parseBody 0 body

/-- A wide number.  Sixty-four digits never come to more than 256 bits. -/
def read : Reader Word256 := do
  let characters ← Reader.text
  match parse characters with
  | .error error => throw error
  | .ok value => pure (.clamp value)

end HeaviestChain.Wire.WideNumber
