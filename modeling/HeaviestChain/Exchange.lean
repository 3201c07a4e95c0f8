import HeaviestChain.Participant

/-!
# An exchange

Two participants whose messages reach each other.  Whatever one sends goes to the other, whomever it
is addressed to, and arrives in the order in which it was sent.
-/

namespace HeaviestChain

/-- One of the two participants. -/
inductive Side where
  /-- The first one. -/
  | left
  /-- The second one. -/
  | right
  deriving DecidableEq

namespace Side

/-- The one at the other end. -/
def other : Side → Side
  | left => right
  | right => left

/-- The name under which a side is known to the other one. -/
def peer : Side → PeerId
  | left => ⟨.replicate 32 0⟩
  | right => ⟨.replicate 32 1⟩

end Side

/-- A message under way, with the side that sent it. -/
structure Parcel where
  /-- The side that sent it. -/
  producer : Side
  /-- The message and whom it is addressed to. -/
  outbound : Outbound
  deriving DecidableEq

/-- Two participants and the messages under way. -/
structure Exchange (σ : Type) where
  /-- The first participant. -/
  left : Participant σ
  /-- The second participant. -/
  right : Participant σ
  /-- The messages that have not arrived, oldest first. -/
  inFlight : List Parcel := []

namespace Exchange

variable {σ : Type}

/-- The participant on a side. -/
def participantOn (exchange : Exchange σ) : Side → Participant σ
  | .left => exchange.left
  | .right => exchange.right

/-- Replaces the participant on a side. -/
def put (exchange : Exchange σ) (side : Side) (participant : Participant σ) : Exchange σ :=
  match side with
  | .left => { exchange with left := participant }
  | .right => { exchange with right := participant }

/-- Puts messages on the way, behind those that are. -/
def dispatch (exchange : Exchange σ) (parcels : List Parcel) : Exchange σ :=
  { exchange with inFlight := exchange.inFlight ++ parcels }

variable [StateEngine σ]

/-- Lets a side handle a message at the epoch.  Gives what it sends, which is not under way yet. -/
def handle (exchange : Exchange σ) (side : Side) (message : Message) (sender : Option PeerId) :
    Exchange σ × List Parcel :=
  let reaction := (exchange.participantOn side).receive message sender .epoch
  (exchange.put side reaction.participant, reaction.sent.map fun outbound => ⟨side, outbound⟩)

/-- Lets the oldest message arrive.  Gives what was sent in answer, which is under way then; nothing
if no message was under way. -/
def arrive? (exchange : Exchange σ) : Option (Exchange σ × List Parcel) :=
  match exchange.inFlight with
  | [] => none
  | parcel :: later =>
      let (exchange, parcels) := { exchange with inFlight := later }.handle
        parcel.producer.other parcel.outbound.message (some parcel.producer.peer)
      some (exchange.dispatch parcels, parcels)

end Exchange

end HeaviestChain
