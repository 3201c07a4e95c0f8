/-!
# The stop switch

Tells a node when to stop, and why.  The switch is tripped once: what comes later changes nothing.
Those who watch it are released when it is tripped, and also when nobody can trip it any more.
-/

namespace HeaviestChain

/-- Why a node stops. -/
inductive StopReason where
  /-- An interrupt from the keyboard. -/
  | interrupt
  /-- The system asked the process to end. -/
  | terminate
  /-- The program itself decided so. -/
  | requested
  deriving DecidableEq

namespace StopReason

/-- The name of the reason. -/
def name : StopReason → String
  | interrupt => "SIGINT"
  | terminate => "SIGTERM"
  | requested => "requested"

end StopReason

/-- A switch that stops a node. -/
structure StopSwitch where
  /-- Why it was tripped, if it was. -/
  reason : Option StopReason := none
  /-- Whether somebody holds it and could trip it. -/
  isHeld : Bool := true
  /-- How many watch it. -/
  watchers : Nat := 0
  deriving DecidableEq

namespace StopSwitch

/-- Trips the switch, unless that has been done or nobody holds it.  Says whether this was what
tripped it; nothing if nobody holds it. -/
def trip (switch : StopSwitch) (reason : StopReason) : StopSwitch × Option Bool :=
  if !switch.isHeld then (switch, none)
  else
    match switch.reason with
    | none => ({ switch with reason := some reason }, some true)
    | some _ => (switch, some false)

/-- Lets go of the switch. -/
def release (switch : StopSwitch) : StopSwitch := { switch with isHeld := false }

/-- Why it was tripped, as far as one who holds it can see. -/
def reason? (switch : StopSwitch) : Option StopReason :=
  if switch.isHeld then switch.reason else none

/-- Lets another one watch, if somebody holds the switch. -/
def watch (switch : StopSwitch) : StopSwitch :=
  if switch.isHeld then { switch with watchers := switch.watchers + 1 } else switch

/-- Lets another one watch in the way of one who does already. -/
def watchAlong (switch : StopSwitch) : StopSwitch :=
  { switch with watchers := switch.watchers + 1 }

/-- Whether a watcher sees that the switch was tripped. -/
def isTripped (switch : StopSwitch) : Bool := switch.reason.isSome

/-- The reason for which a watcher is released; nothing while it has to wait. -/
def releasedFor? (switch : StopSwitch) : Option StopReason :=
  match switch.reason with
  | some reason => some reason
  | none => if switch.isHeld then none else some .requested

end StopSwitch

end HeaviestChain
