import HeaviestChain.Text.Utf8

/-!
# Reading from the wire

A reader takes what it needs from the front of a byte string and leaves the rest.  Integers have a
fixed width, least significant byte first; lists and byte vectors start with the number of their
elements, texts with the number of their bytes.
-/

namespace HeaviestChain.Wire

/-- Why bytes cannot be read. -/
inductive WireError where
  /-- They end inside an item of fixed width. -/
  | unexpectedEnd
  /-- They end inside a text. -/
  | textCut
  /-- A text is no UTF-8. -/
  | notUtf8 (fault : Utf8.Fault)
  /-- There is no kind of message with this index. -/
  | unknownVariant (index : Nat)
  /-- A wide number is written with no digits or too many. -/
  | numberLength (length : Nat)
  /-- A wide number is written with a byte that is no digit. -/
  | numberDigit (byte : UInt8) (position : Nat)
  deriving DecidableEq

namespace WireError

/-- What is reported about the error. -/
def message : WireError → String
  | unexpectedEnd => "io error: unexpected end of file"
  | textCut => "io error: "
  | notUtf8 fault => s!"string is not valid utf8: {fault.message}"
  | unknownVariant index =>
      s!"invalid value: integer `{index}`, expected variant index 0 <= i < 5"
  | numberLength length =>
      s!"invalid length {length}, expected a (both 0x-prefixed or not) hex string " ++
        "or byte array containing between (0; 32] bytes"
  | numberDigit byte position =>
      s!"invalid hex character: {Char.ofNat byte.toNat}, at {position}"

end WireError

/-- Takes a value from the front of a byte string. -/
abbrev Reader := StateT Bytes (Except WireError)

namespace Reader

/-- Reads a whole value and says what is left behind it. -/
def run {α : Type} (reader : Reader α) (bytes : Bytes) : Except WireError (α × Bytes) :=
  StateT.run reader bytes

/-- The next `count` bytes; `cut` is the error if there are fewer. -/
def take (cut : WireError) (count : Nat) : Reader Bytes := fun bytes =>
  let taken := bytes.take count
  if taken.length = count then .ok (taken, bytes.drop count) else .error cut

/-- A number of `count` bytes. -/
def number (count : Nat) : Reader Nat :=
  Bytes.ofLittleEndian <$> take .unexpectedEnd count

/-- A 32-bit word. -/
def word32 : Reader UInt32 := UInt32.ofNat <$> number 4

/-- A 64-bit word. -/
def word64 : Reader UInt64 := UInt64.ofNat <$> number 8

/-- A byte string of fixed length. -/
def fixed (count : Nat) : Reader (FixedBytes count) := fun bytes =>
  let taken := bytes.take count
  if exact : taken.length = count then .ok (⟨taken, exact⟩, bytes.drop count)
  else .error .unexpectedEnd

/-- A byte vector. -/
def byteVector : Reader Bytes := do
  let count ← number 8
  take .unexpectedEnd count

/-- The bytes of a text. -/
def text : Reader Bytes := do
  let length ← number 8
  let content ← take .textCut length
  match Utf8.fault? content with
  | some fault => throw (.notUtf8 fault)
  | none => pure content

/-- As many elements as `count` says, after those already read, which are given newest first. -/
def elements {α : Type} (element : Reader α) (count : Nat) (earlier : List α) :
    Reader (List α) := fun bytes =>
  match count with
  | 0 => .ok (earlier.reverse, bytes)
  | count + 1 =>
      match element bytes with
      | .error error => .error error
      | .ok (value, rest) => elements element count (value :: earlier) rest

/-- A list. -/
def list {α : Type} (element : Reader α) : Reader (List α) := do
  let count ← number 8
  elements element count []

end Reader

/-! ## Writing -/

/-- A 32-bit word. -/
def word32 (value : UInt32) : Bytes := Bytes.littleEndian 4 value.toNat

/-- A 64-bit word. -/
def word64 (value : UInt64) : Bytes := Bytes.littleEndian 8 value.toNat

/-- A byte vector or a text: the number of bytes, then the bytes. -/
def byteVector (bytes : Bytes) : Bytes := Bytes.littleEndian 8 bytes.length ++ bytes

/-- A list: the number of elements, then the elements. -/
def list {α : Type} (element : α → Bytes) (values : List α) : Bytes :=
  Bytes.littleEndian 8 values.length ++ values.flatMap element

end HeaviestChain.Wire
