import HeaviestChain.Proofs.Orphans.Inventory

/-!
# The search for a missing ancestor

Whoever wants to know which block a line of orphans waits for goes from an orphan to its parent until
a hash is not an orphan's.  The table of parents is made by the operations on the buffer, and has the
parents of exactly the buffered blocks (`wellFormed_run`).  As long as no block is its own ancestor,
no entry of the table is used twice, so the search takes no more steps than there are orphans.  Each
hash leads to one other hash at most, so that it can end at one place only.
-/

namespace HeaviestChain

namespace OrphanBuffer

/-! ## Operations -/

/-- What can be done to a buffer. -/
inductive Command where
  /-- A block is to wait for its parent. -/
  | hold (block : Block) (now : Timestamp)
  /-- All blocks that wait for a parent are taken out. -/
  | release (parent : BlockHash)
  /-- One block is taken out. -/
  | take (hash : BlockHash)
  /-- Orphans that have waited for `maxAge` seconds are dropped. -/
  | expire (maxAge : UInt64) (now : Timestamp)

/-- The buffer after a command. -/
def perform (buffer : OrphanBuffer) : Command → OrphanBuffer
  | .hold block now => (buffer.hold block now).1
  | .release parent => (buffer.release parent).2
  | .take hash => (buffer.take hash).2
  | .expire maxAge now => (buffer.expire maxAge now).1

/-- The buffer after commands in a row. -/
def run (buffer : OrphanBuffer) (commands : List Command) : OrphanBuffer :=
  commands.foldl perform buffer

theorem WellFormed.perform {buffer : OrphanBuffer} (wellFormed : buffer.WellFormed)
    (command : Command) : (buffer.perform command).WellFormed := by
  cases command with
  | hold block now => exact wellFormed.hold block now
  | release parent => exact wellFormed.release parent
  | take hash => exact wellFormed.take hash
  | expire maxAge now => exact wellFormed.expire

theorem WellFormed.run {buffer : OrphanBuffer} (wellFormed : buffer.WellFormed)
    (commands : List Command) : (buffer.run commands).WellFormed := by
  induction commands generalizing buffer with
  | nil => exact wellFormed
  | cons command rest ih => exact ih (wellFormed.perform command)

/-! ## Steps of the search -/

/-- The search in steps: it goes on from the parent of an orphan, and ends at a hash that is not an
orphan's. -/
inductive Climb (parents : Table BlockHash BlockHash) : BlockHash → Nat → BlockHash → Prop
  | stay {hash : BlockHash} (missing : parents.get? hash = none) : Climb parents hash 0 hash
  | step {hash parent last : BlockHash} {steps : Nat} (found : parents.get? hash = some parent)
      (climb : Climb parents parent steps last) : Climb parents hash (steps + 1) last

namespace Climb

variable {parents : Table BlockHash BlockHash} {hash last other : BlockHash} {steps : Nat}

theorem line (climb : Climb parents hash steps last) :
    Relation.ReflTransGen (Leads parents) hash last := by
  induction climb with
  | stay _ => exact .refl
  | step found _ ih => exact .head found ih

/-- A line that cannot be continued ends where the search ends. -/
theorem eq_of_line (climb : Climb parents hash steps last)
    (line : Relation.ReflTransGen (Leads parents) hash other)
    (missing : parents.get? other = none) : other = last := by
  induction climb with
  | stay absent =>
      rcases line.cases_head with same | ⟨parent, leads, _⟩
      · exact same.symm
      · cases absent.symm.trans leads
  | step found _ ih =>
      rcases line.cases_head with same | ⟨parent, leads, rest⟩
      · cases found.symm.trans (same ▸ missing)
      · cases found.symm.trans leads
        exact ih rest

/-- What has been erased is not on the way if the search in the larger table ends at the same
place. -/
theorem of_erase {gone : BlockHash} (climb : Climb (parents.erase gone) hash steps last)
    (missing : parents.get? last = none) : Climb parents hash steps last := by
  induction climb with
  | stay _ => exact .stay missing
  | step found _ ih =>
      rw [Table.get?_erase] at found
      split at found
      case isTrue => cases found
      case isFalse => exact .step found (ih missing)

end Climb

/-- Each step uses up an entry of the table. -/
theorem exists_climb {parents : Table BlockHash BlockHash} {hash : BlockHash}
    (missing : parents.get? (lineStart parents hash) = none) :
    ∃ steps ≤ parents.size, Climb parents hash steps (lineStart parents hash) := by
  fun_induction lineStart parents hash with
  | case1 parents hash absent => exact ⟨0, Nat.zero_le _, .stay absent⟩
  | case2 parents hash parent found ih =>
      have erased : (parents.erase hash).get? (lineStart (parents.erase hash) parent) = none := by
        rw [Table.get?_erase, missing, ite_self]
      rcases ih erased with ⟨steps, few, climb⟩
      have smaller : (parents.erase hash).size < parents.size :=
        Table.size_erase_lt (by rw [Table.contains, found]; rfl)
      exact ⟨steps + 1, by omega, .step found (climb.of_erase missing)⟩

/-! ## Lines of buffered blocks -/

/-- A block with the first hash is buffered, and the second is the hash of its parent. -/
def Descends (buffer : OrphanBuffer) (child parent : BlockHash) : Prop :=
  ∃ orphan ∈ buffer.inventory, orphan.block.hash = child ∧ orphan.block.parentHash = parent

theorem WellFormed.leads_eq_descends {buffer : OrphanBuffer} (wellFormed : buffer.WellFormed) :
    Leads buffer.parents = buffer.Descends := by
  funext child parent
  exact propext wellFormed.parentOf?_eq_some_iff

/-- No block is its own ancestor if every buffered one ranks above its parent. -/
theorem acyclic_of_rank {buffer : OrphanBuffer} (rank : BlockHash → Nat)
    (above : ∀ orphan ∈ buffer.inventory, rank orphan.block.parentHash < rank orphan.block.hash)
    (hash : BlockHash) : ¬Relation.TransGen buffer.Descends hash hash := by
  have lower {child parent : BlockHash} (descends : buffer.Descends child parent) :
      rank parent < rank child := by
    rcases descends with ⟨orphan, mem, rfl, rfl⟩
    exact above orphan mem
  have descent {child ancestor : BlockHash} (line : Relation.TransGen buffer.Descends child ancestor) :
      rank ancestor < rank child := by
    induction line with
    | single descends => exact lower descends
    | tail _ descends ih => exact (lower descends).trans ih
  exact fun back => Nat.lt_irrefl _ (descent back)

/-- After any operations on an empty buffer, if no buffered block is its own ancestor through buffered
blocks: the search ends after no more steps than there are orphans.  Only from the hash of no block it
gives nothing; else it gives the one hash that is reached from the start through buffered blocks and
is not itself that of a buffered block. -/
theorem missingAncestor?_run {capacity : Nat} {commands : List Command}
    (acyclic : ∀ hash, ¬Relation.TransGen ((run { capacity } commands).Descends) hash hash)
    (hash : BlockHash) :
    let buffer := run { capacity } commands
    (∃ steps ancestor, steps ≤ buffer.size ∧ Climb buffer.parents hash steps ancestor ∧
      buffer.missingAncestor? hash = if hash = .zero then none else some ancestor) ∧
    (buffer.missingAncestor? hash = none ↔ hash = .zero) ∧
    ∀ ancestor, hash ≠ .zero →
      (buffer.missingAncestor? hash = some ancestor ↔
        buffer.contains ancestor = false ∧
          Relation.ReflTransGen buffer.Descends hash ancestor) := by
  intro buffer
  have wellFormed : buffer.WellFormed := (wellFormed_empty capacity).run commands
  have known (ancestor : BlockHash) :
      buffer.contains ancestor = false ↔ buffer.parents.get? ancestor = none := by
    rw [contains, Table.contains, Option.isSome_eq_false_iff, Option.isNone_iff_eq_none]
  have missing : buffer.parents.get? (lineStart buffer.parents hash) = none := by
    rcases line_lineStart buffer.parents hash with ⟨_, missing | back⟩
    · exact missing
    · rw [wellFormed.leads_eq_descends] at back
      exact absurd back (acyclic _)
  rcases exists_climb missing with ⟨steps, few, climb⟩
  refine ⟨⟨steps, _, few, climb, rfl⟩, ?_, ?_⟩
  · simp [missingAncestor?]
  · intro ancestor notZero
    rw [missingAncestor?, if_neg notZero, Option.some.injEq, known, ← wellFormed.leads_eq_descends]
    constructor
    · rintro rfl
      exact ⟨missing, climb.line⟩
    · rintro ⟨absent, line⟩
      exact (climb.eq_of_line line absent).symm

/-- Three blocks in a row, and one that stands apart. -/
def searchLow : Block := .build 1 .zero [] [] .zero .epoch .zero .one

def searchMiddle : Block := .build 7 searchLow.hash [] [] .zero .epoch .zero .one

def searchTop : Block := .build 3 searchMiddle.hash [] [] .zero .epoch .zero .one

def searchApart : Block := .build 9 searchTop.hash [] [] .zero .epoch .zero (.ofWord 5)

/-- The lowest block is released, the one apart grows too old, and the upper two remain. -/
def searchCommands : List Command :=
  [.hold searchTop ⟨10⟩, .hold searchApart .epoch, .hold searchLow ⟨10⟩, .hold searchMiddle ⟨10⟩,
    .hold searchTop ⟨10⟩, .release .zero, .expire 5 ⟨6⟩, .take searchLow.hash]

theorem searchTop_missing :
    let buffer := run { capacity := 4 } searchCommands
    (∀ hash, ¬Relation.TransGen buffer.Descends hash hash) ∧
      (buffer.size = 2 ∧ buffer.missingAncestor? searchTop.hash = some searchLow.hash) ∧
      (∃ steps ancestor, steps ≤ buffer.size ∧
        Climb buffer.parents searchTop.hash steps ancestor ∧
        buffer.missingAncestor? searchTop.hash =
          if searchTop.hash = .zero then none else some ancestor) ∧
      buffer.contains searchLow.hash = false ∧
        Relation.ReflTransGen buffer.Descends searchTop.hash searchLow.hash := by
  intro buffer
  let rank (hash : BlockHash) : Nat :=
    if hash = searchTop.hash then 2 else if hash = searchMiddle.hash then 1 else 0
  have evaluated : (buffer.size = 2 ∧
        buffer.missingAncestor? searchTop.hash = some searchLow.hash) ∧
      searchTop.hash ≠ .zero ∧
      ∀ orphan ∈ buffer.inventory, rank orphan.block.parentHash < rank orphan.block.hash := by
    decide +kernel
  rcases evaluated with ⟨reached, notZero, above⟩
  have acyclic := acyclic_of_rank rank above
  have found := missingAncestor?_run acyclic searchTop.hash
  exact ⟨acyclic, reached, found.1, (found.2.2 searchLow.hash notZero).mp reached.2⟩

end OrphanBuffer

end HeaviestChain
