import HeaviestChain.Identity

/-!
# The number index

The canonical chain as a map from block numbers to hashes, kept in ascending order of number.  It
grows and is cut at the top, where the head moves.
-/

namespace HeaviestChain

/-- Hashes under block numbers, lowest number first. -/
abbrev NumberIndex := List (UInt64 × BlockHash)

namespace NumberIndex

/-- The hash under a number. -/
def get? (index : NumberIndex) (number : UInt64) : Option BlockHash :=
  (index.find? fun entry => decide (entry.1 = number)).map Prod.snd

/-- Puts a hash under a number, in place of the one that is there. -/
def put (number : UInt64) (hash : BlockHash) : NumberIndex → NumberIndex
  | [] => [(number, hash)]
  | entry :: rest =>
      if number < entry.1 then (number, hash) :: entry :: rest
      else if number = entry.1 then (number, hash) :: rest
      else entry :: put number hash rest

/-- The entries under numbers below `number`. -/
def below (index : NumberIndex) (number : UInt64) : NumberIndex :=
  index.filter fun entry => decide (entry.1 < number)

/-- The entries under `number` and above. -/
def upFrom (index : NumberIndex) (number : UInt64) : NumberIndex :=
  index.filter fun entry => decide (number ≤ entry.1)

end NumberIndex

end HeaviestChain
