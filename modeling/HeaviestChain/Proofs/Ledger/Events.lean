import HeaviestChain.Proofs.Ledger.Interruption

/-!
# What is told of a run

A delivery tells of each look at a block by itself, and at the end of a new head.  What a look tells
depends on what becomes of the block (`Report`); blocks that are parked after a fault are not looked
at, so nothing is told of them.

The head moves only to strictly heavier blocks, so it never returns to an earlier one, and the
heads that are announced in a run become heavier and heavier.
-/

namespace HeaviestChain

/-- The block that is announced as the new head, if that is what happened. -/
def ChainEvent.best? : ChainEvent → Option Block
  | newBestBlock block => some block
  | _ => none

namespace Ledger

variable {σ : Type} [StateEngine σ] {ledger : Ledger σ} {block : Block} {now : Timestamp}

/-! ## One look -/

/-- A check that the block does not pass, with what is said about it. -/
inductive Flawed (ledger : Ledger σ) (block : Block) : String → Prop
  | body {error : LedgerError} (flawed : block.checkBody = .error error) :
      Flawed ledger block error.message
  | genesis (genesis : block.isGenesis = true) (nonempty : ledger.tree.isEmpty = false) :
      Flawed ledger block "chain already has a genesis"
  | onParent {parent : Block} {hash : BlockHash} {flaw : BlockFlaw}
      (linked : ledger.tree.block? block.parentHash = some parent)
      (refused : (block.checkOn parent ledger.engine).1 = .error (.invalidBlock hash flaw)) :
      Flawed ledger block (LedgerError.invalidBlock hash flaw).message

/-- What a look at a block tells, by what has become of the block when `next` is the ledger
afterwards.  Joining and leaving blocks are those of the canonical chain, as long as the blocks can be
counted in a word. -/
inductive Report (ledger : Ledger σ) (block : Block) (now : Timestamp) (next : Ledger σ) :
    List ChainEvent → Prop
  | known (stored : ledger.tree.contains block.hash = true) (same : next = ledger) :
      Report ledger block now next []
  | rejected {reason : String} (unknown : ledger.tree.contains block.hash = false)
      (flawed : Flawed ledger block reason) (tree : next.tree = ledger.tree)
      (orphans : next.orphans = ledger.orphans) :
      Report ledger block now next [.blockRejected block.hash reason]
  | queued (unknown : ledger.tree.contains block.hash = false)
      (sound : block.checkBody = .ok ()) (notGenesis : block.isGenesis = false)
      (missing : ledger.tree.contains block.parentHash = false)
      (new : ledger.orphans.contains block.hash = false)
      (room : ledger.orphans.size < ledger.orphans.capacity) (tree : next.tree = ledger.tree)
      (orphans : next.orphans = (ledger.orphans.hold block now).1) :
      Report ledger block now next [.orphanQueued block.hash block.parentHash]
  | unheld (unknown : ledger.tree.contains block.hash = false)
      (sound : block.checkBody = .ok ()) (notGenesis : block.isGenesis = false)
      (missing : ledger.tree.contains block.parentHash = false)
      (refused : ledger.orphans.contains block.hash = true ∨
        ledger.orphans.capacity ≤ ledger.orphans.size) (same : next = ledger) :
      Report ledger block now next []
  | faulted {parent : Block} {fault : StateFault} (unknown : ledger.tree.contains block.hash = false)
      (notGenesis : block.isGenesis = false)
      (linked : ledger.tree.block? block.parentHash = some parent)
      (failed : (block.checkOn parent ledger.engine).1 = .error (.state fault))
      (tree : next.tree = ledger.tree) (orphans : next.orphans = ledger.orphans) :
      Report ledger block now next []
  | connected {joined left : List Block} (unknown : ledger.tree.contains block.hash = false)
      (stored : next.tree.stored.map (·.block) = block :: ledger.tree.stored.map (·.block))
      (moved : next.tree.count ≤ UInt64.size → ∃ common,
        ledger.tree.canonicalChain = common ++ left ∧ next.tree.canonicalChain = common ++ joined ∧
          joined.Disjoint left) :
      Report ledger block now next
        ((if left.isEmpty then []
          else [.reorganized block.hash joined.length left.length]) ++
          [.blockConnected block.hash block.number])

omit [StateEngine σ] in
/-- A change of the canonical chain, read from the bottom. -/
theorem exists_common_of_turns {before after : BlockTree} (canonical : before.Canonical)
    (canonical' : after.Canonical) {change : HeadChange}
    (turns : BlockTree.Turns change before.bestLine after.bestLine) :
    ∃ common, before.canonicalChain = common ++ change.left ∧
      after.canonicalChain = common ++ change.joined ∧ change.joined.Disjoint change.left := by
  rcases turns with ⟨common, old, new, joins⟩
  refine ⟨common.reverse, ?_, ?_, ?_⟩
  · rw [canonical.canonicalChain_eq, old, List.reverse_append, List.reverse_reverse]
  · rw [canonical'.canonicalChain_eq, new, List.reverse_append, List.reverse_reverse]
  · intro other joined left
    apply joins other joined
    rw [old]
    exact List.mem_append_left _ (List.mem_reverse.mpr left)

theorem report_of_joins (sound : ledger.tree.Sound) (joins : Joins ledger.tree block)
    (now : Timestamp) (engine : σ) :
    let admission := settle { ledger with engine, tree := (ledger.tree.attach block).1 } block
      (ledger.tree.attach block).2.change?
    Report ledger block now admission.ledger admission.events := by
  intro admission
  have stored : admission.ledger.tree.stored.map (·.block) =
      block :: ledger.tree.stored.map (·.block) := by
    rcases joins.exists_stored_attach with ⟨weight, added⟩
    simp only [admission, settle, added, List.map_cons]
  have chains (fits : (ledger.tree.attach block).1.count ≤ UInt64.size) :=
    And.intro (sound.canonical_before joins fits)
      ((sound.canonical_before joins fits).attach (sound.follows joins fits))
  cases isChange : (ledger.tree.attach block).2.change? with
  | none =>
      have events : admission.events = [.blockConnected block.hash block.number] := by
        simp only [admission, isChange]
        rfl
      have moved (fits : admission.ledger.tree.count ≤ UInt64.size) : ∃ common,
          ledger.tree.canonicalChain = common ++ [] ∧
            admission.ledger.tree.canonicalChain = common ++ [] ∧
            List.Disjoint ([] : List Block) [] := by
        rcases chains fits with ⟨before, after, sameLine⟩
        rw [isChange] at sameLine
        refine ⟨ledger.tree.canonicalChain, (List.append_nil _).symm, ?_, List.disjoint_nil_left _⟩
        rw [List.append_nil, before.canonicalChain_eq]
        simp only [admission, settle, after.canonicalChain_eq, sameLine]
      rw [events]
      exact .connected joins.unknown stored moved
  | some change =>
      have events : admission.events =
          (if change.left.isEmpty then []
            else [.reorganized block.hash change.joined.length change.left.length]) ++
          [.blockConnected block.hash block.number] := by
        simp only [admission, isChange]
        rfl
      rw [events]
      apply Report.connected joins.unknown stored
      intro fits
      rcases chains fits with ⟨before, after, turns⟩
      rw [isChange] at turns
      exact exists_common_of_turns before after turns

theorem report (sound : ledger.tree.Sound) (block : Block) (now : Timestamp) :
    Report ledger block now (ledger.examine block now).ledger (ledger.examine block now).events := by
  have examination := ledger.examination block now
  generalize ledger.examine block now = admission at examination ⊢
  cases examination with
  | known contained => exact .known contained rfl
  | unsound unknown flawed => exact .rejected unknown (.body flawed) rfl rfl
  | secondGenesis unknown _ genesis nonempty =>
      exact .rejected unknown (.genesis genesis nonempty) rfl rfl
  | invalid unknown _ _ linked refused =>
      exact .rejected unknown (.onParent linked (congrArg Prod.fst refused)) rfl rfl
  | faulted unknown _ notGenesis linked failed =>
      exact .faulted unknown notGenesis linked (congrArg Prod.fst failed) rfl rfl
  | parentless unknown checked notGenesis missing =>
      have missing : ledger.tree.contains block.parentHash = false := by
        simpa [BlockTree.block?, BlockTree.contains] using missing
      by_cases refused : ledger.orphans.contains block.hash = true ∨
          ledger.orphans.capacity ≤ ledger.orphans.size
      · simp only [park, OrphanBuffer.hold_eq_self refused, Bool.false_eq_true, if_false]
        exact .unheld unknown checked notGenesis missing refused rfl
      · rw [not_or, Bool.not_eq_true, Nat.not_le] at refused
        simp only [park, OrphanBuffer.hold_eq_true_of_room refused.1 refused.2, if_true]
        exact .queued unknown checked notGenesis missing refused.1 refused.2 rfl rfl
  | first unknown checked genesis empty =>
      have joins := Joins.of_empty unknown checked genesis empty
      rw [ledger.connect_eq joins]
      exact report_of_joins sound joins now ledger.engine
  | @valid parent engine unknown _ notGenesis linked accepted =>
      have joins := Joins.of_accepted unknown notGenesis linked accepted
      rw [connect_eq { ledger with engine } joins]
      exact report_of_joins sound joins now engine

/-! ## A delivery -/

/-- Turns in a row, with what was looked at: the ledger at that moment and the block. -/
inductive Trail (now : Timestamp) :
    Ledger σ × List Block → List (Ledger σ × Block) → Ledger σ × List Block → Prop
  | refl (work : Ledger σ × List Block) : Trail now work [] work
  | look {ledger : Ledger σ} {block : Block} {queue : List Block} {looks : List (Ledger σ × Block)}
      {next last : Ledger σ × List Block} (turn : Turn now (ledger, block :: queue) next)
      (onward : Trail now next looks last) :
      Trail now (ledger, block :: queue) ((ledger, block) :: looks) last

/-- What is told of looks, in order. -/
def told (now : Timestamp) (looks : List (Ledger σ × Block)) : List ChainEvent :=
  looks.flatMap fun look => (look.1.examine look.2 now).events

/-- A work-list tells of its looks and of nothing else. -/
theorem exists_trail_cascade (ledger : Ledger σ) (now : Timestamp) (queue connected : List Block) :
    ∃ looks, Trail now (ledger, queue) looks ((ledger.cascade now queue connected).ledger, []) ∧
      (ledger.cascade now queue connected).events = told now looks := by
  fun_induction cascade ledger now queue connected with
  | case1 => exact ⟨[], .refl _, rfl⟩
  | case2 ledger connected block queue admission verdict rest ih =>
      rcases ih with ⟨looks, trail, events⟩
      refine ⟨(ledger, block) :: looks, .look (.settled verdict) trail, ?_⟩
      rw [told, List.flatMap_cons, ← told, ← events]
  | case3 ledger connected block queue admission verdict release rest ih =>
      rcases ih with ⟨looks, trail, events⟩
      refine ⟨(ledger, block) :: looks, .look (.connected verdict) trail, ?_⟩
      rw [told, List.flatMap_cons, ← told, ← events]
  | case4 ledger connected block queue admission fault verdict =>
      refine ⟨[(ledger, block)], .look (.faulted verdict) (.refl _), ?_⟩
      rw [told, List.flatMap_cons, List.flatMap_nil, List.append_nil]

theorem exists_trail_deliver (ledger : Ledger σ) (block : Block) (now : Timestamp) :
    ∃ looks, Trail now (ledger, [block]) looks ((ledger.deliver block now).ledger, []) ∧
      (ledger.deliver block now).events =
        told now looks ++
          announcement ledger.tree.bestHash? (ledger.deliver block now).ledger.tree := by
  simp only [deliver]
  split
  case isTrue known =>
      have examined := examine_of_known known now
      have verdict : (ledger.examine block now).verdict = .settled := by rw [examined]
      have turn : Turn now (ledger, [block]) _ := .settled verdict
      have trail := Trail.look turn (.refl _)
      rw [examined] at trail
      refine ⟨_, trail, ?_⟩
      simp only [told, List.flatMap_cons, List.flatMap_nil, examined, announcement, if_true,
        List.append_nil]
  case isFalse =>
      rcases ledger.exists_trail_cascade now [block] [] with ⟨looks, trail, events⟩
      refine ⟨looks, trail, ?_⟩
      rw [← events]

/-- A look leaves the tree as the turn does. -/
theorem Turn.tree_eq {queue : List Block} {next : Ledger σ × List Block}
    (turn : Turn now (ledger, block :: queue) next) :
    next.1.tree = (ledger.examine block now).ledger.tree := by
  cases turn with
  | settled _ => rfl
  | connected _ => rfl
  | faulted _ => rfl

theorem hashes_examine (ledger : Ledger σ) (block : Block) (now : Timestamp) :
    (ledger.examine block now).ledger.tree.stored.map (·.block.hash) =
      ((ledger.examine block now).events.filterMap ChainEvent.connected?).reverse ++
        ledger.tree.stored.map (·.block.hash) := by
  cases verdict : (ledger.examine block now).verdict with
  | settled =>
      rw [tree_examine_of_settled verdict, connected?_examine_of_settled verdict]
      rfl
  | connected =>
      rcases examine_of_connected verdict with ⟨joins, _, examined⟩
      rcases joins.exists_stored_attach with ⟨weight, added⟩
      rw [examined, connected?_settle]
      simp only [settle, added, List.map_cons]
      rfl
  | faulted fault =>
      rcases examine_of_faulted verdict with ⟨_, _, examined⟩
      rw [examined]
      rfl

theorem best?_examine (ledger : Ledger σ) (block : Block) (now : Timestamp) :
    (ledger.examine block now).events.filterMap ChainEvent.best? = [] := by
  rw [List.filterMap_eq_nil_iff]
  intro event mem
  cases event with
  | newBestBlock best => exact absurd mem (newBestBlock_not_mem_examine best)
  | _ => rfl

/-- A new head is announced at the end of a delivery only. -/
theorem best?_told (looks : List (Ledger σ × Block)) :
    (told now looks).filterMap ChainEvent.best? = [] := by
  induction looks with
  | nil => rfl
  | cons look looks ih =>
      rw [told, List.flatMap_cons, List.filterMap_append, best?_examine, ← told, ih]
      rfl

namespace Trail

variable {work last : Ledger σ × List Block} {looks : List (Ledger σ × Block)}
  (trail : Trail now work looks last)

include trail

theorem turns : Turns now work last := by
  induction trail with
  | refl _ => exact .refl
  | look turn _ ih => exact .head turn ih

theorem reports (sound : work.1.tree.Sound) :
    ∀ look ∈ looks, Report look.1 look.2 now (look.1.examine look.2 now).ledger
      (look.1.examine look.2 now).events := by
  induction trail with
  | refl _ => exact List.forall_mem_nil _
  | @look ledger block _ _ _ _ turn _ ih =>
      rw [List.forall_mem_cons]
      refine ⟨report sound block now, ih ?_⟩
      apply turn.keeps (P := fun ledger => ledger.tree.Sound) _ _ sound
      · exact fun _ block now sound => sound_examine block now sound
      · exact fun _ _ sound => sound

/-- Connected blocks are told of in the order in which they are stored. -/
theorem hashes_eq :
    last.1.tree.stored.map (·.block.hash) =
      ((told now looks).filterMap ChainEvent.connected?).reverse ++
        work.1.tree.stored.map (·.block.hash) := by
  induction trail with
  | refl _ => rfl
  | @look ledger block _ looks _ _ turn _ ih =>
      rw [ih, turn.tree_eq, hashes_examine, ← List.append_assoc, ← List.reverse_append,
        ← List.filterMap_append]
      rfl

end Trail

/-! ## Runs -/

/-- What is told of commands in a row. -/
def runEvents (ledger : Ledger σ) : List (Command σ) → List ChainEvent
  | [] => []
  | .deliver block now :: rest =>
      (ledger.deliver block now).events ++ runEvents (ledger.deliver block now).ledger rest
  | command :: rest => runEvents (ledger.perform command) rest

theorem connected?_runEvents (ledger : Ledger σ) (commands : List (Command σ)) :
    (ledger.run commands).tree.stored.map (·.block.hash) =
      ((ledger.runEvents commands).filterMap ChainEvent.connected?).reverse ++
        ledger.tree.stored.map (·.block.hash) := by
  induction commands generalizing ledger with
  | nil => rfl
  | cons command rest ih =>
      cases command with
      | deliver block now =>
          rcases ledger.exists_trail_deliver block now with ⟨looks, trail, events⟩
          have after := ih (ledger.deliver block now).ledger
          rw [trail.hashes_eq] at after
          rw [runEvents, events, List.filterMap_append, List.filterMap_append,
            filterMap_announcement fun _ => rfl, List.append_nil, List.reverse_append,
            List.append_assoc]
          exact after
      | expire _ _ => exact ih _
      | submit _ => exact ih _
      | alter _ => exact ih _

/-- A delivery announces no head, or one block that is heavier than the head before. -/
theorem best?_deliver (sound : ledger.tree.Sound) (headed : ledger.tree.Headed) (block : Block)
    (now : Timestamp) :
    (ledger.deliver block now).events.filterMap ChainEvent.best? = [] ∨
      ∃ entry ∈ (ledger.deliver block now).ledger.tree.stored, ∃ head,
        (ledger.deliver block now).ledger.tree.head = some head ∧
        entry.totalWeight = head.weight ∧
        (∀ old, ledger.tree.head = some old → old.weight < head.weight) ∧
        (ledger.deliver block now).events.filterMap ChainEvent.best? = [entry.block] := by
  have onward := ledger.onward_perform (.deliver block now)
  have rises := rises_onward onward
  have headed' := headed_onward onward headed
  rcases ledger.exists_trail_deliver block now with ⟨looks, _, events⟩
  rw [events, List.filterMap_append, best?_told, List.nil_append]
  rcases announcement_cases headed' rises with ⟨_, silent⟩ | ⟨changed, best, isBest, announced⟩
  · left
    rw [← perform, silent]
    rfl
  · right
    rcases rises with same | ⟨head, isHead, heavier⟩
    · exact absurd (congrArg (Option.map ChainHead.hash) same) changed
    · rcases headed'.exists_entry (sound_onward onward sound).grown isHead with
        ⟨entry, mem, weight, isEntry⟩
      cases isBest.symm.trans isEntry
      refine ⟨entry, mem, head, isHead, weight, heavier, ?_⟩
      rw [← perform, announced]
      rfl

theorem weight?_run (sound : ledger.tree.Sound) {entry : StoredBlock}
    (mem : entry ∈ ledger.tree.stored) (commands : List (Command σ)) :
    (ledger.run commands).tree.weight? entry.block.hash = some entry.totalWeight := by
  have onward := ledger.onward_run commands
  have found := (sound_onward onward sound).grown.lookup_of_mem (stored_onward onward mem)
  rw [BlockTree.weight?, BlockTree.find?_eq_lookup, found]
  rfl

/-- The announced heads become heavier and heavier. -/
theorem exists_weights (sound : ledger.tree.Sound) (headed : ledger.tree.Headed)
    (commands : List (Command σ)) :
    ∃ weights : List Difficulty,
      ((ledger.runEvents commands).filterMap ChainEvent.best?).map
          (fun best => (ledger.run commands).tree.weight? best.hash) = weights.map some ∧
        weights.Pairwise (· < ·) ∧
        ∀ weight ∈ weights, ∀ head, ledger.tree.head = some head → head.weight < weight := by
  induction commands generalizing ledger with
  | nil => exact ⟨[], rfl, .nil, List.forall_mem_nil _⟩
  | cons command rest ih =>
      cases command with
      | deliver block now =>
          have onward := ledger.onward_perform (.deliver block now)
          have sound' := sound_onward onward sound
          rcases ih sound' (headed_onward onward headed) with ⟨weights, found, increasing, above⟩
          have later := fun weight mem => (rises_onward onward).lt_of_lt (above weight mem)
          rw [runEvents, List.filterMap_append]
          rcases best?_deliver sound headed block now with
            silent | ⟨entry, mem, head, isHead, isWeight, heavier, announced⟩
          · rw [silent]
            exact ⟨weights, found, increasing, later⟩
          · rw [announced]
            refine ⟨entry.totalWeight :: weights, ?_, ?_, ?_⟩
            · exact congrArg₂ List.cons (weight?_run sound' mem rest) found
            · rw [isWeight]
              exact .cons (fun _ mem => above _ mem head isHead) increasing
            · rw [isWeight]
              exact List.forall_mem_cons.mpr ⟨heavier, later⟩
      | expire _ _ => exact ih sound headed
      | submit _ => exact ih sound headed
      | alter _ => exact ih sound headed

/-- What a delivery tells, in order. -/
structure Narration (ledger : Ledger σ) (block : Block) (now : Timestamp) (delivery : Delivery σ) :
    Prop where
  /-- First come the reports of the looks.  Then a new head is announced, exactly if the head's hash
  is another one than before. -/
  events : ∃ looks announced, Trail now (ledger, [block]) looks (delivery.ledger, []) ∧
    delivery.events =
      (looks.flatMap fun look => (look.1.examine look.2 now).events) ++ announced ∧
    (∀ look ∈ looks, Report look.1 look.2 now (look.1.examine look.2 now).ledger
      (look.1.examine look.2 now).events) ∧
    (delivery.ledger.tree.bestHash? = ledger.tree.bestHash? ∧ announced = [] ∨
      delivery.ledger.tree.bestHash? ≠ ledger.tree.bestHash? ∧
        ∃ best, delivery.ledger.tree.best? = some best ∧ announced = [.newBestBlock best])
  /-- Nothing is told of a block that is stored already. -/
  known : ledger.tree.contains block.hash = true → delivery.events = []

theorem narration (sound : ledger.tree.Sound) (headed : ledger.tree.Headed) (block : Block)
    (now : Timestamp) : Narration ledger block now (ledger.deliver block now) := by
  have onward := ledger.onward_perform (.deliver block now)
  rcases ledger.exists_trail_deliver block now with ⟨looks, trail, events⟩
  refine ⟨⟨looks, _, trail, events, trail.reports sound, ?_⟩,
    fun known => congrArg Delivery.events (deliver_of_known known now)⟩
  exact announcement_cases (headed_onward onward headed) (rises_onward onward)

/-- After any run, also one with faults, a delivery tells what becomes of the blocks that it looks at,
and of the new head if there is one.  Over the whole run exactly the stored blocks have been told of
as connected, each once, and the announced heads have increasing weights. -/
theorem narration_of_run (engine : σ) (capacity : Nat) (commands : List (Command σ)) :
    let start := empty engine capacity
    let ledger := start.run commands
    (∀ block now, Narration ledger block now (ledger.deliver block now)) ∧
      ((start.runEvents commands).filterMap ChainEvent.connected?).reverse =
        ledger.tree.stored.map (·.block.hash) ∧
      ((start.runEvents commands).filterMap ChainEvent.connected?).Nodup ∧
      ∃ weights : List Difficulty,
        ((start.runEvents commands).filterMap ChainEvent.best?).map
            (fun best => ledger.tree.weight? best.hash) = weights.map some ∧
          weights.Pairwise (· < ·) := by
  intro start ledger
  have onward : Onward (start, []) (ledger, []) := onward_run _ commands
  have sound : ledger.tree.Sound := sound_onward onward BlockTree.sound_empty
  have headed : ledger.tree.Headed := headed_onward onward BlockTree.headed_empty
  have connected := connected?_runEvents start commands
  rw [show start.tree.stored = [] from rfl, List.map_nil, List.append_nil] at connected
  have sound' : start.tree.Sound := BlockTree.sound_empty
  have headed' : start.tree.Headed := BlockTree.headed_empty
  refine ⟨narration sound headed, connected.symm, ?_, ?_⟩
  · rw [← List.nodup_reverse, ← connected]
    exact sound.grown.nodup_hashes
  · rcases exists_weights sound' headed' commands with ⟨weights, found, increasing, _⟩
    exact ⟨weights, found, increasing⟩

end Ledger

end HeaviestChain
