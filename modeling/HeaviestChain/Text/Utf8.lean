import HeaviestChain.Bytes

/-!
# UTF-8

Whether bytes are the UTF-8 form of a text, and if not, where the first fault is.  A character is
one to four bytes; over-long forms, surrogates and numbers beyond the last character are faults.
A fault that is only that the bytes end too early is told apart.
-/

namespace HeaviestChain.Utf8

/-- The first place where bytes are no UTF-8. -/
inductive Fault where
  /-- The `length` bytes from `index` cannot start a character. -/
  | invalid (length index : Nat)
  /-- The bytes end inside the character that starts at `index`. -/
  | incomplete (index : Nat)
  deriving DecidableEq

namespace Fault

/-- What is reported about the fault. -/
def message : Fault → String
  | invalid length index => s!"invalid utf-8 sequence of {length} bytes from index {index}"
  | incomplete index => s!"incomplete utf-8 byte sequence from index {index}"

end Fault

/-- Whether the byte is between two others. -/
def isBetween (low high byte : UInt8) : Bool := decide (low ≤ byte ∧ byte ≤ high)

/-- Whether the byte can continue a character. -/
def isContinuation (byte : UInt8) : Bool := isBetween 0x80 0xbf byte

/-- The number of bytes in a character that starts with this byte. -/
def width? (first : UInt8) : Option Nat :=
  if first < 0x80 then some 1
  else if isBetween 0xc2 0xdf first then some 2
  else if isBetween 0xe0 0xef first then some 3
  else if isBetween 0xf0 0xf4 first then some 4
  else none

/-- Whether the byte can be the second one of a character that starts with `first`. -/
def isSecond (first second : UInt8) : Bool :=
  if first = 0xe0 then isBetween 0xa0 0xbf second
  else if first = 0xed then isBetween 0x80 0x9f second
  else if first = 0xf0 then isBetween 0x90 0xbf second
  else if first = 0xf4 then isBetween 0x80 0x8f second
  else isContinuation second

/-- The fault in bytes that follow the first `length` ones of the character at `index`, which needs
`missing` more continuation bytes. -/
def tailFault? (length index : Nat) : (missing : Nat) → Bytes → Option Fault
  | 0, _ => none
  | _ + 1, [] => some (.incomplete index)
  | missing + 1, byte :: rest =>
      if isContinuation byte then tailFault? (length + 1) index missing rest
      else some (.invalid length index)

/-- The fault in the character at `index` that has the given first byte. -/
def characterFault? (index : Nat) (first : UInt8) (rest : Bytes) : Option Fault :=
  match width? first, rest with
  | none, _ => some (.invalid 1 index)
  | some 1, _ => none
  | some _, [] => some (.incomplete index)
  | some width, second :: rest =>
      if isSecond first second then tailFault? 2 index (width - 2) rest
      else some (.invalid 1 index)

/-- The first fault in bytes of which `index` come before; `skip` more bytes belong to a character
that has been looked at. -/
def faultFrom? (index skip : Nat) : Bytes → Option Fault
  | [] => none
  | first :: rest =>
      match skip with
      | skip + 1 => faultFrom? (index + 1) skip rest
      | 0 =>
          match characterFault? index first rest with
          | some fault => some fault
          | none => faultFrom? (index + 1) ((width? first).getD 1 - 1) rest

/-- The first fault, if the bytes are no UTF-8. -/
def fault? (bytes : Bytes) : Option Fault := faultFrom? 0 0 bytes

/-- Bytes of ASCII are always a text. -/
theorem fault?_eq_none_of_ascii {bytes : Bytes} (ascii : ∀ byte ∈ bytes, byte < 0x80) :
    fault? bytes = none := by
  have from_ (index : Nat) : faultFrom? index 0 bytes = none := by
    induction bytes generalizing index with
    | nil => rfl
    | cons first rest ih =>
        have isAscii := ascii first (List.mem_cons_self ..)
        have width : width? first = some 1 := by
          simp only [width?, isAscii, if_true]
        simp only [faultFrom?, characterFault?, width, Option.getD_some]
        exact ih (fun byte mem => ascii byte (List.mem_cons_of_mem _ mem)) (index + 1)
  exact from_ 0

/-- The text whose UTF-8 form the bytes are. -/
def decode? (bytes : Bytes) : Option String :=
  String.fromUTF8? (ByteArray.mk bytes.toArray)

end HeaviestChain.Utf8
