import HeaviestChain.Wire.Frame

/-!
# The outbox

A queue of frames that wait for the transport, with room for a fixed number.  Posting never waits:
a message that is too large, or finds the queue full or closed, is dropped and counted.
-/

namespace HeaviestChain

/-- Why a message is not posted. -/
inductive PostError where
  /-- There is no room. -/
  | full
  /-- The transport lets no more in. -/
  | closed
  /-- It cannot be written as a frame. -/
  | frame (error : FrameError)
  deriving DecidableEq

namespace PostError

/-- What is reported about the error. -/
def message : PostError → String
  | full => "outbound queue is full"
  | closed => "outbound queue is closed"
  | frame error => s!"protocol error: {error.message}"

end PostError

/-- A frame with whom it is for. -/
structure Envelope where
  /-- Whom it is for. -/
  recipient : Recipient
  /-- The frame. -/
  frame : Bytes
  deriving DecidableEq

/-- What the transport does with an outbox. -/
inductive Transport where
  /-- It takes frames out, and more may be posted. -/
  | attached
  /-- It takes out the frames that wait; no more may be posted. -/
  | closing
  /-- It takes nothing out any more. -/
  | gone
  deriving DecidableEq

/-- The frames that wait for the transport. -/
structure Outbox where
  /-- How many frames there is room for. -/
  capacity : Nat
  /-- The waiting frames, oldest first. -/
  waiting : List Envelope := []
  /-- What the transport does. -/
  transport : Transport := .attached

/-- What became of a list of messages. -/
structure PostReport where
  /-- The number of messages that were posted. -/
  sent : Nat := 0
  /-- The positions of those that were not, in ascending order. -/
  dropped : List Nat := []
  deriving DecidableEq

namespace PostReport

/-- The number of messages that were not posted. -/
def failed (report : PostReport) : Nat := report.dropped.length

end PostReport

namespace Outbox

/-- Posts one message.  That it cannot be written is found before the state of the queue. -/
def post (outbox : Outbox) (outbound : Outbound) : Except PostError Outbox :=
  match outbound.message.toFrame with
  | .error error => .error (.frame error)
  | .ok frame =>
      if outbox.transport ≠ .attached then .error .closed
      else if outbox.capacity ≤ outbox.waiting.length then .error .full
      else .ok { outbox with waiting := outbox.waiting ++ [⟨outbound.recipient, frame⟩] }

/-- Posts messages in turn, of which `position` came before. -/
def postFrom (outbox : Outbox) (position : Nat) (report : PostReport) :
    List Outbound → Outbox × PostReport
  | [] => (outbox, report)
  | outbound :: rest =>
      match outbox.post outbound with
      | .ok outbox => outbox.postFrom (position + 1) { report with sent := report.sent + 1 } rest
      | .error _ =>
          outbox.postFrom (position + 1) { report with dropped := report.dropped ++ [position] } rest

/-- Posts messages in turn and reports which were dropped. -/
def postAll (outbox : Outbox) (batch : List Outbound) : Outbox × PostReport :=
  outbox.postFrom 0 {} batch

/-- Takes out the oldest frames, at most `count`. -/
def take (outbox : Outbox) (count : Nat) : List Envelope × Outbox :=
  (outbox.waiting.take count, { outbox with waiting := outbox.waiting.drop count })

/-- Lets no more messages in; those that wait can still be taken out. -/
def close (outbox : Outbox) : Outbox :=
  { outbox with transport := .closing }

/-- Stops taking frames out; those that wait are lost. -/
def abandon (outbox : Outbox) : Outbox :=
  { outbox with waiting := [], transport := .gone }

end Outbox

end HeaviestChain
