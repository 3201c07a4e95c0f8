import HeaviestChain.Word64

/-!
# Time

Times are whole seconds since the epoch.  Ages never become negative and deadlines never wrap.
-/

namespace HeaviestChain

/-- A moment, in seconds since the epoch. -/
structure Timestamp where
  /-- Seconds since the epoch. -/
  seconds : UInt64
  deriving DecidableEq

namespace Timestamp

/-- The epoch itself. -/
def epoch : Timestamp := ⟨0⟩

instance : Ord Timestamp := ⟨fun left right => compare left.seconds right.seconds⟩

/-- The seconds that passed from `moment` to `now`; none if `moment` is still to come. -/
def ageAt (moment now : Timestamp) : UInt64 :=
  Word64.subToZero now.seconds moment.seconds

/-- Whether something that starts at `moment` and lasts `lifetime` seconds is over at `now`. -/
def isOverAt (moment : Timestamp) (lifetime : UInt64) (now : Timestamp) : Bool :=
  decide (Word64.addToTop moment.seconds lifetime ≤ now.seconds)

/-- The seconds in decimal with their unit. -/
def text (moment : Timestamp) : String := s!"{moment.seconds.toNat}s"

/-- The seconds with the name of their kind. -/
def brief (moment : Timestamp) : String := s!"Timestamp({moment.seconds.toNat})"

end Timestamp

/-- A clock that stands still until it is moved. -/
structure Clock where
  /-- What the clock shows. -/
  now : Timestamp
  deriving DecidableEq

namespace Clock

/-- The clock, some seconds later. -/
def advance (clock : Clock) (seconds : UInt64) : Clock :=
  ⟨⟨clock.now.seconds + seconds⟩⟩

end Clock

end HeaviestChain
