import HeaviestChain.Block

/-!
# An engine of bare roots

A state engine without accounts.  It knows a set of roots; executing transactions on a known root
gives a root that depends on the old one and on the transactions, and makes the new root known.
Any root can be made unreadable, which stands for a broken disk.
-/

namespace HeaviestChain

namespace Root

/-- The root after executing `transactions` on `parent`: the same root if there are none, else the
hash of the old root followed by the transactions' hashes. -/
def after (parent : Root) (transactions : List Transaction) : Root :=
  if transactions.isEmpty then parent
  else ofHashes (parent.bytes :: transactions.map (·.hash.bytes))

end Root

/-- The roots an engine holds, and those it cannot read. -/
structure RootEngine where
  /-- The roots on which it can execute. -/
  known : List Root
  /-- The roots on which every execution fails. -/
  unreadable : List Root := []

namespace RootEngine

variable (engine : RootEngine)

/-- An engine that knows one root. -/
def seeded (root : Root) : RootEngine := { known := [root] }

/-- Whether the root is known. -/
def knows (root : Root) : Bool := engine.known.contains root

/-- Makes a root known. -/
def learn (root : Root) : RootEngine :=
  if engine.knows root then engine else { engine with known := root :: engine.known }

/-- Makes a root unreadable. -/
def spoil (root : Root) : RootEngine :=
  if engine.unreadable.contains root then engine
  else { engine with unreadable := root :: engine.unreadable }

/-- Makes a root readable again. -/
def heal (root : Root) : RootEngine :=
  { engine with unreadable := engine.unreadable.filter (· ≠ root) }

/-- An unreadable root is reported before a missing one. -/
def execute (parentRoot : Root) (transactions : List Transaction) :
    Except StateFault Root × RootEngine :=
  if engine.unreadable.contains parentRoot then (.error (.rootUnreadable parentRoot), engine)
  else if engine.knows parentRoot then
    let root := parentRoot.after transactions
    (.ok root, engine.learn root)
  else (.error (.rootMissing parentRoot), engine)

instance : StateEngine RootEngine where
  execute engine parentRoot _ transactions := engine.execute parentRoot transactions

end RootEngine

end HeaviestChain
