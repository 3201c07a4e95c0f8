import HeaviestChain.Wire.Record

/-!
# Frames

A message as the bytes that go over the wire: the index of its kind, then its content.  A frame has
at most 16 MiB; bytes behind the content are allowed and mean nothing.
-/

namespace HeaviestChain

open Wire

/-- Why a message cannot be written or read. -/
inductive FrameError where
  /-- The frame has more bytes than are allowed. -/
  | tooLarge (size : Nat)
  /-- The bytes are no message. -/
  | malformed (error : WireError)
  deriving DecidableEq

/-- The most bytes in a frame. -/
def maxFrameSize : Nat := 16 * 1024 * 1024

namespace FrameError

/-- What is reported about the error. -/
def message : FrameError → String
  | tooLarge size => s!"message too large: {size} > {maxFrameSize}"
  | malformed error => s!"malformed message: {error.message}"

end FrameError

namespace Message

/-- The index of the kind of message, then its content. -/
def write : Message → Bytes
  | block content => word32 0 ++ content.write
  | transaction content => word32 1 ++ content.write
  | status content => word32 2 ++ content.write
  | blockByHash hash => word32 3 ++ hash.bytes.toList
  | blockByNumber number => word32 4 ++ word64 number

/-- Reads the content of the message kind with an index. -/
def readContent (index : UInt32) : Reader Message :=
  if index = 0 then block <$> Block.read
  else if index = 1 then transaction <$> Transaction.read
  else if index = 2 then status <$> Status.read
  else if index = 3 then blockByHash <$> BlockHash.read
  else if index = 4 then blockByNumber <$> Reader.word64
  else throw (.unknownVariant index.toNat)

/-- Reads a message. -/
def read : Reader Message := do
  let index ← Reader.word32
  readContent index

/-- The frame of a message. -/
def toFrame (message : Message) : Except FrameError Bytes :=
  let bytes := message.write
  let size := bytes.length
  if maxFrameSize < size then .error (.tooLarge size) else .ok bytes

/-- The message in a frame. -/
def ofFrame (bytes : Bytes) : Except FrameError Message :=
  let size := bytes.length
  if maxFrameSize < size then .error (.tooLarge size)
  else
    match read.run bytes with
    | .ok (message, _) => .ok message
    | .error error => .error (.malformed error)

end Message

end HeaviestChain
