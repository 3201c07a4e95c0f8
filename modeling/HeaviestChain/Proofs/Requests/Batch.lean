import HeaviestChain.Proofs.Gossip.Network

/-!
# Batches of requests

What a message means for the numbers that are asked for from one peer (`Hears`): nothing, unless it
is a status of that peer, on the network of the participant.  Then a batch of numbers in a row is
asked for.  It begins above the best number of the ledger and above the mark, which is the last
number that was asked for from the peer; it ends at the number that the peer has announced, or
earlier if that would be too many.  The mark moves to the end of the batch.

Words may be missing, and may be the largest ones, so all of this is counted in natural numbers:
`Word64.above` is the first number above a word or no word.
-/

namespace HeaviestChain

/-! ## Words in natural numbers -/

namespace Word64

/-- The first number above a word; zero if there is none. -/
def above : Option UInt64 → Nat
  | none => 0
  | some value => value.toNat + 1

@[simp] theorem above_none : above none = 0 := rfl

@[simp] theorem above_some (value : UInt64) : above (some value) = value.toNat + 1 := rfl

theorem lt_above_iff {number : Nat} {mark : Option UInt64} :
    number < above mark ↔ ∃ value, mark = some value ∧ number ≤ value.toNat := by
  cases mark with
  | none => simp
  | some value =>
      rw [above_some, Nat.lt_succ_iff]
      simp

theorem above_previous? (value : UInt64) : above (previous? value) = value.toNat := by
  simp only [previous?]
  split
  case isTrue zero =>
      rw [zero]
      rfl
  case isFalse positive =>
      have atLeast : (1 : UInt64).toNat ≤ value.toNat := by
        rw [UInt64.toNat_one, Nat.one_le_iff_ne_zero, ← UInt64.toNat_zero, ne_eq, UInt64.toNat_inj]
        exact positive
      rw [above_some, UInt64.toNat_sub_of_le _ _ (UInt64.le_iff_toNat_le.mpr atLeast),
        UInt64.toNat_one]
      exact Nat.sub_add_cancel atLeast

end Word64

open Word64 (above)

/-! ## Records of peers -/

namespace Peers

variable (peers : Peers) (peer other : PeerId)

/-- A mark below moves to the number. -/
theorem record?_markRequested {record : PeerRecord} (known : peers.record? peer = some record)
    {number : UInt64} (above : Word64.above record.requestedThrough ≤ number.toNat) :
    (peers.markRequested peer number).record? other =
      if other = peer then some { record with requestedThrough := some number }
      else peers.record? other := by
  simp only [markRequested, record?_modifyRequested, known, Option.map_some]
  cases isMark : record.requestedThrough with
  | none => rfl
  | some mark =>
      have raised : max mark number = number := by
        rw [isMark, Word64.above_some] at above
        rw [← UInt64.toNat_inj, UInt64.toNat_max]
        omega
      simp only [raised]

/-- Reopening requests only takes marks back, below the number from which they are reopened. -/
theorem above_reopenRequests (firstUnsent : UInt64) :
    above ((peers.reopenRequests peer firstUnsent).requestedThrough? other) ≤
        above (peers.requestedThrough? other) ∧
      above ((peers.reopenRequests peer firstUnsent).requestedThrough? peer) ≤
        firstUnsent.toNat := by
  have taken (mark : Option UInt64) :
      above (match mark with
        | none => none
        | some mark => if firstUnsent ≤ mark then Word64.previous? firstUnsent else some mark) ≤
          min (above mark) firstUnsent.toNat := by
    cases mark with
    | none => simp
    | some mark =>
        dsimp only
        split
        case isTrue reached =>
            rw [UInt64.le_iff_toNat_le] at reached
            rw [Word64.above_previous?, Word64.above_some]
            omega
        case isFalse below =>
            rw [UInt64.le_iff_toNat_le] at below
            rw [Word64.above_some]
            omega
  constructor
  · simp only [requestedThrough?, reopenRequests, record?_modifyRequested]
    split
    case isTrue same =>
        rw [same]
        cases peers.record? peer with
        | none => simp
        | some record => exact (taken record.requestedThrough).trans (Nat.min_le_left ..)
    case isFalse => exact Nat.le_refl _
  · simp only [requestedThrough?, reopenRequests, record?_modifyRequested, if_true]
    cases peers.record? peer with
    | none => simp
    | some record => exact (taken record.requestedThrough).trans (Nat.min_le_right ..)

end Peers

/-! ## The numbers asked for -/

theorem Outbound.numberRequest?_eq_some_iff {outbound : Outbound} {peer : PeerId}
    {number : UInt64} :
    outbound.numberRequest? = some (peer, number) ↔
      outbound = ⟨.peer peer, .blockByNumber number⟩ := by
  rcases outbound with ⟨recipient, message⟩
  cases recipient with
  | everyone => simp [numberRequest?]
  | peer addressee =>
      cases message with
      | blockByNumber asked => simp [numberRequest?]
      | _ => simp [numberRequest?]

/-- The numbers that messages ask a peer for, in order. -/
def numbersAsked (peer : PeerId) (sent : List Outbound) : List Nat :=
  sent.filterMap fun outbound =>
    match outbound.numberRequest? with
    | some (addressee, number) => if addressee = peer then some number.toNat else none
    | none => none

theorem numbersAsked_append (peer : PeerId) (sent later : List Outbound) :
    numbersAsked peer (sent ++ later) = numbersAsked peer sent ++ numbersAsked peer later :=
  List.filterMap_append ..

theorem mem_numbersAsked {peer : PeerId} {sent : List Outbound} {number : UInt64} :
    number.toNat ∈ numbersAsked peer sent ↔
      ∃ outbound ∈ sent, outbound.numberRequest? = some (peer, number) := by
  simp only [numbersAsked, List.mem_filterMap]
  apply exists_congr
  intro outbound
  apply and_congr_right
  intro _
  cases outbound.numberRequest? with
  | none => simp
  | some request =>
      rcases request with ⟨addressee, asked⟩
      simp [UInt64.toNat_inj]

theorem numbersAsked_eq_nil {peer : PeerId} {sent : List Outbound}
    (others : ∀ message ∈ sent.map (·.message), ∀ number, message ≠ .blockByNumber number) :
    numbersAsked peer sent = [] := by
  simp only [numbersAsked, List.filterMap_eq_nil_iff]
  intro outbound mem
  have other := others outbound.message (List.mem_map_of_mem mem)
  cases asks : outbound.numberRequest? with
  | none => rfl
  | some request =>
      rw [Outbound.numberRequest?_eq_some_iff.mp asks] at other
      exact absurd rfl (other request.2)

/-- The requests of a batch go to one peer. -/
theorem numbersAsked_range' {first count : Nat} (fits : first + count ≤ UInt64.size)
    (peer addressee : PeerId) :
    numbersAsked peer ((List.range' first count).map fun number =>
      ⟨.peer addressee, .blockByNumber (.ofNat number)⟩) =
        if addressee = peer then List.range' first count else [] := by
  simp only [numbersAsked, List.filterMap_map, Function.comp_def, Outbound.numberRequest?]
  split
  case isTrue same =>
      have asked : ∀ number ∈ List.range' first count,
          some (UInt64.ofNat number).toNat = some number := by
        intro number mem
        rw [List.mem_range'_1] at mem
        rw [UInt64.toNat_ofNat_of_lt' (by omega)]
      rw [List.filterMap_congr asked]
      exact List.filterMap_some
  case isFalse other => simp

namespace Participant

variable {σ : Type} (participant : Participant σ) (peer : PeerId)

/-! ## A batch -/

/-- The first number that may be asked for from a peer. -/
def nextWanted : Nat :=
  max (above participant.ledger.tree.bestNumber?) (above (participant.peers.requestedThrough? peer))

/-- How many numbers are asked for from a peer that has blocks up to `announced`. -/
def batchLength (announced : UInt64) : Nat :=
  min (announced.toNat + 1 - participant.nextWanted peer) participant.syncLimit.count.toNat

theorem nextWanted_le_size : participant.nextWanted peer ≤ UInt64.size := by
  have fits (mark : Option UInt64) : above mark ≤ UInt64.size := by
    cases mark with
    | none => exact Nat.zero_le _
    | some value => exact value.toNat_lt
  exact Nat.max_le.mpr ⟨fits _, fits _⟩

theorem batch_le_size (announced : UInt64) :
    participant.nextWanted peer + participant.batchLength peer announced ≤ UInt64.size := by
  have first := participant.nextWanted_le_size peer
  have last := announced.toNat_lt
  simp only [batchLength, UInt64.size] at first ⊢
  omega

/-- The first number in words; there is none if the largest word is not above it. -/
theorem nextWanted_eq :
    participant.nextWanted peer =
      ((participant.firstWanted? peer).map UInt64.toNat).getD UInt64.size := by
  have next (value : UInt64) :
      value.toNat + 1 = ((Word64.next? value).map UInt64.toNat).getD UInt64.size := by
    cases isNext : Word64.next? value with
    | none => exact Word64.toNat_of_next?_eq_none isNext
    | some following => exact (Word64.toNat_next isNext).symm
  simp only [nextWanted, firstWanted?]
  cases participant.ledger.tree.bestNumber? with
  | none =>
      cases participant.peers.requestedThrough? peer with
      | none => rfl
      | some mark => simpa using next mark
  | some best =>
      cases participant.peers.requestedThrough? peer with
      | none => simpa using next best
      | some mark =>
          rw [← next, UInt64.toNat_max]
          simp only [Word64.above_some]
          omega

theorem toNat_lastWanted (limit : SyncLimit) (first announced : UInt64) :
    (lastWanted limit first announced).toNat + 1 - first.toNat =
      min (announced.toNat + 1 - first.toNat) limit.count.toNat := by
  have positive := UInt64.lt_iff_toNat_lt.mp limit.count_pos
  have bound := announced.toNat_lt
  rw [UInt64.toNat_zero] at positive
  rw [lastWanted, UInt64.toNat_min, Word64.toNat_addToTop, UInt64.toNat_sub_of_le _ _ positive,
    UInt64.toNat_one]
  simp only [UInt64.size]
  omega

/-- Asks a peer that has blocks up to `announced` for the numbers that are wanted. -/
def request (announced : UInt64) : Participant σ × List Outbound :=
  match participant.firstWanted? peer with
  | none => (participant, [])
  | some first =>
      if announced < first then (participant, [])
      else
        let last := lastWanted participant.syncLimit first announced
        ({ participant with peers := participant.peers.markRequested peer last },
          (numbers first last).map fun number => ⟨.peer peer, .blockByNumber number⟩)

/-- A request asks for a batch, and the mark moves to its end. -/
theorem request_eq {record : PeerRecord} (known : participant.peers.record? peer = some record)
    (announced : UInt64) :
    let first := participant.nextWanted peer
    let count := participant.batchLength peer announced
    (participant.request peer announced).2 =
        (List.range' first count).map (fun number => ⟨.peer peer, .blockByNumber (.ofNat number)⟩) ∧
      ∀ other, (participant.request peer announced).1.peers.record? other =
        if other = peer then
          some { record with
            requestedThrough :=
              if count = 0 then record.requestedThrough else some (.ofNat (first + count - 1)) }
        else participant.peers.record? other := by
  intro first count
  have bound := announced.toNat_lt
  have positive := UInt64.lt_iff_toNat_lt.mp participant.syncLimit.count_pos
  have wanted := participant.nextWanted_eq peer
  rw [UInt64.toNat_zero] at positive
  -- nothing is asked for if the first number is too large
  have idle (nothing : count = 0) (other : PeerId) : participant.peers.record? other =
      if other = peer then
        some { record with
          requestedThrough :=
            if count = 0 then record.requestedThrough else some (.ofNat (first + count - 1)) }
      else participant.peers.record? other := by
    by_cases same : other = peer
    · simp [same, known, nothing]
    · simp [same]
  simp only [request]
  cases isFirst : participant.firstWanted? peer with
  | none =>
      rw [isFirst, Option.map_none, Option.getD_none] at wanted
      have nothing : count = 0 := by
        simp only [count, batchLength, wanted, UInt64.size]
        omega
      exact ⟨by simp [nothing], idle nothing⟩
  | some next =>
      rw [isFirst, Option.map_some, Option.getD_some] at wanted
      have length := toNat_lastWanted participant.syncLimit next announced
      rw [← wanted] at length
      change _ = count at length
      dsimp only
      split
      case isTrue below =>
          have nothing : count = 0 := by
            rw [UInt64.lt_iff_toNat_lt] at below
            simp only [count, batchLength]
            omega
          exact ⟨by simp [nothing], idle nothing⟩
      case isFalse reached =>
          rw [UInt64.lt_iff_toNat_lt] at reached
          have nonempty : 0 < count := by
            simp only [count, batchLength]
            omega
          generalize lastWanted participant.syncLimit next announced = last at length ⊢
          have lastNumber : last.toNat = first + count - 1 := by omega
          have markBelow : above record.requestedThrough ≤ last.toNat := by
            have wantedAbove : above (participant.peers.requestedThrough? peer) ≤ first :=
              Nat.le_max_right ..
            rw [Peers.requestedThrough?, known, Option.bind_some] at wantedAbove
            omega
          constructor
          · rw [numbers_eq, ← wanted, length, List.map_map]
            rfl
          · intro other
            rw [participant.peers.record?_markRequested peer other known markBelow,
              if_neg (Nat.ne_of_gt nonempty), ← lastNumber, UInt64.ofNat_toNat]

/-- What a status of a peer on the network of the participant leads to. -/
theorem receiveStatus_eq (status : Status) (now : Timestamp)
    (sameNetwork : status.network = participant.network) :
    let record := Peers.announced (participant.peers.record? peer) status.network status.best now
    let first := participant.nextWanted peer
    let count := participant.batchLength peer record.best
    (participant.receiveStatus status (some peer) now).2 =
        (List.range' first count).map (fun number => ⟨.peer peer, .blockByNumber (.ofNat number)⟩) ∧
      ∀ other, (participant.receiveStatus status (some peer) now).1.peers.record? other =
        if other = peer then
          some { record with
            requestedThrough :=
              if count = 0 then record.requestedThrough else some (.ofNat (first + count - 1)) }
        else participant.peers.record? other := by
  intro record first count
  let heard : Participant σ :=
    { participant with
      peers := (participant.peers.announce peer status.network status.best now).1 }
  have known (other : PeerId) : heard.peers.record? other =
      if other = peer then some record else participant.peers.record? other :=
    participant.peers.record?_announce peer other status.network status.best now
  have oldMark : record.requestedThrough = participant.peers.requestedThrough? peer :=
    Peers.requestedThrough?_announced ..
  have wanted : heard.nextWanted peer = first := by
    simp only [nextWanted, Peers.requestedThrough?, known, if_true, Option.bind_some, oldMark, first]
    rfl
  have asks : participant.receiveStatus status (some peer) now = heard.request peer record.best := by
    simp only [receiveStatus, if_neg (not_not.mpr sameNetwork)]
    rfl
  have isBatch := heard.request_eq peer ((known peer).trans (if_pos rfl)) record.best
  simp only [batchLength, wanted] at isBatch
  rw [asks]
  refine ⟨isBatch.1, ?_⟩
  intro other
  rw [isBatch.2, known]
  by_cases same : other = peer
  · rw [if_pos same, if_pos same]
    rfl
  · rw [if_neg same, if_neg same, if_neg same]

/-! ## What a message means for a peer -/

/-- The number that a peer announces on a network, if the message is a status that does so. -/
def announcement? (network : NetworkId) (peer : PeerId) :
    Message → Option PeerId → Option UInt64
  | .status status, some speaker =>
      if speaker = peer ∧ status.network = network then some status.best else none
  | _, _ => none

theorem announcement?_eq_some_iff {network : NetworkId} {peer : PeerId} {message : Message}
    {sender : Option PeerId} {best : UInt64} :
    announcement? network peer message sender = some best ↔
      ∃ status, message = .status status ∧ sender = some peer ∧ status.network = network ∧
        status.best = best := by
  cases message with
  | status status =>
      cases sender with
      | none => simp [announcement?]
      | some speaker => simp [announcement?, and_assoc]
  | _ => simp [announcement?]

/-- What an announcement of a peer means for the requests to it.  Without one its record stays, and
nothing is asked for. -/
inductive Hears : Option UInt64 → Option PeerRecord → List Nat → Prop
  | quiet : Hears none (participant.peers.record? peer) []
  | batch {announced : UInt64} {record : PeerRecord}
      (best : record.best = (participant.peers.bestOf? peer).elim announced (max · announced))
      (mark : above record.requestedThrough =
        if participant.batchLength peer record.best = 0 then
          above (participant.peers.requestedThrough? peer)
        else participant.nextWanted peer + participant.batchLength peer record.best) :
      Hears (some announced) (some record)
        (List.range' (participant.nextWanted peer) (participant.batchLength peer record.best))

namespace Hears

variable {participant : Participant σ} {peer : PeerId} {heard : Option UInt64}
  {record : Option PeerRecord} {asked : List Nat}
  (hears : Hears participant peer heard record asked)

include hears

/-- What is asked for is above the best number and the mark, and the mark moves past it. -/
theorem between {number : Nat} (mem : number ∈ asked) :
    participant.nextWanted peer ≤ number ∧ number < above (record.bind (·.requestedThrough)) := by
  cases hears with
  | quiet => cases mem
  | batch best mark =>
      rw [List.mem_range'_1] at mem
      rw [Option.bind_some, mark, if_neg (by omega)]
      exact mem

theorem mark_le :
    above (participant.peers.requestedThrough? peer) ≤ above (record.bind (·.requestedThrough)) := by
  cases hears with
  | quiet => exact Nat.le_refl _
  | batch best mark =>
      have wanted : above (participant.peers.requestedThrough? peer) ≤ participant.nextWanted peer :=
        Nat.le_max_right ..
      rw [Option.bind_some, mark]
      split
      case isTrue => exact Nat.le_refl _
      case isFalse => omega

/-- The mark passes only numbers that are asked for and numbers up to the best one. -/
theorem asked_or_stored {number : Nat}
    (passed : number < above (record.bind (·.requestedThrough))) :
    number < above (participant.peers.requestedThrough? peer) ∨ number ∈ asked ∨
      heard.isSome = true ∧ number < above participant.ledger.tree.bestNumber? := by
  cases hears with
  | quiet => exact .inl passed
  | batch best mark =>
      rw [Option.bind_some, mark] at passed
      split at passed
      case isTrue => exact .inl passed
      case isFalse =>
          by_cases wanted : participant.nextWanted peer ≤ number
          · right
            left
            rw [List.mem_range'_1]
            exact ⟨wanted, passed⟩
          · have below : number < max (above participant.ledger.tree.bestNumber?)
                (above (participant.peers.requestedThrough? peer)) := Nat.lt_of_not_le wanted
            rcases lt_max_iff.mp below with stored | marked
            · exact .inr (.inr ⟨rfl, stored⟩)
            · exact .inl marked

theorem best_or_heard {best : UInt64} (known : record.map (·.best) = some best) :
    participant.peers.bestOf? peer = some best ∨ heard = some best := by
  cases hears with
  | quiet => exact .inl known
  | @batch announced record isBest _ =>
      rw [Option.map_some, isBest] at known
      cases before : participant.peers.bestOf? peer with
      | none => exact .inr (by simpa [before] using known)
      | some old =>
          simp only [before, Option.elim_some, Option.some.injEq] at known
          rw [← UInt64.toNat_inj, UInt64.toNat_max] at known
          simp only [Option.some.injEq, ← UInt64.toNat_inj]
          omega

theorem exists_best_le {number : Nat} (mem : number ∈ asked) :
    ∃ best, record.map (·.best) = some best ∧ number ≤ best.toNat := by
  cases hears with
  | quiet => cases mem
  | @batch _ record _ _ =>
      refine ⟨record.best, rfl, ?_⟩
      rw [List.mem_range'_1] at mem
      simp only [batchLength] at mem
      omega

/-- Numbers are asked for in a row, and not too many. -/
theorem asked_eq_range' :
    ∃ first count, asked = List.range' first count ∧
      count ≤ participant.syncLimit.count.toNat := by
  cases hears with
  | quiet => exact ⟨0, 0, rfl, Nat.zero_le _⟩
  | batch _ _ => exact ⟨_, _, rfl, Nat.min_le_right ..⟩

omit hears in
/-- A peer that announces no less than before has that number asked for, as far as is allowed. -/
theorem of_highest {announced : UInt64} (hears : Hears participant peer (some announced) record asked)
    (highest : ∀ registered, participant.peers.bestOf? peer = some registered →
      registered ≤ announced) :
    record.map (·.best) = some announced ∧
      asked = List.range' (participant.nextWanted peer) (participant.batchLength peer announced) ∧
      max (above participant.ledger.tree.bestNumber?) (above (record.bind (·.requestedThrough))) =
        participant.nextWanted peer + participant.batchLength peer announced := by
  cases hears with
  | @batch _ record best mark =>
      have same : record.best = announced := by
        rw [best]
        cases before : participant.peers.bestOf? peer with
        | none => rfl
        | some registered =>
            have ordered := UInt64.le_iff_toNat_le.mp (highest registered before)
            rw [Option.elim_some, ← UInt64.toNat_inj, UInt64.toNat_max]
            omega
      rw [same] at mark ⊢
      refine ⟨congrArg some same, rfl, ?_⟩
      rw [Option.bind_some, mark]
      simp only [nextWanted]
      split
      case isTrue => omega
      case isFalse => omega

end Hears

variable [StateEngine σ]

/-- A message that is not a status leads to no requests for numbers. -/
theorem receive_of_ne_status {message : Message} (other : ∀ status, message ≠ .status status)
    (sender : Option PeerId) (now : Timestamp) :
    (participant.receive message sender now).participant.peers = participant.peers ∧
      numbersAsked peer (participant.receive message sender now).sent = [] := by
  have replied (found : Option Block) : numbersAsked peer (reply found sender) = [] := by
    apply numbersAsked_eq_nil
    simp only [reply]
    split
    case h_1 => simp
    case h_2 => simp
  cases message with
  | block block =>
      refine ⟨rfl, ?_⟩
      apply numbersAsked_eq_nil
      simp only [receive, receiveBlock]
      split
      case h_1 => simp
      case h_2 => simp
      case h_3 =>
          simp only [askForAncestor_eq]
          split
          case isTrue => simp
          case isFalse => simp
      case h_4 => simp [messages_fanOut]
  | transaction tx =>
      refine ⟨rfl, ?_⟩
      apply numbersAsked_eq_nil
      simp only [receive]
      split
      case isTrue => simp [messages_fanOut]
      case isFalse => simp
  | status status => exact absurd rfl (other status)
  | blockByHash hash => exact ⟨rfl, replied _⟩
  | blockByNumber number => exact ⟨rfl, replied _⟩

theorem hears_receive (message : Message) (sender : Option PeerId) (now : Timestamp) :
    Hears participant peer (announcement? participant.network peer message sender)
      ((participant.receive message sender now).participant.peers.record? peer)
      (numbersAsked peer (participant.receive message sender now).sent) := by
  by_cases isStatus : ∃ status, message = .status status
  case neg =>
      have other : ∀ status, message ≠ .status status := fun status same => isStatus ⟨status, same⟩
      have silent : announcement? participant.network peer message sender = none := by
        cases message with
        | status status => exact absurd rfl (other status)
        | _ => simp [announcement?]
      rcases participant.receive_of_ne_status peer other sender now with ⟨samePeers, nothing⟩
      rw [silent, samePeers, nothing]
      exact .quiet
  case pos =>
      rcases isStatus with ⟨status, rfl⟩
      simp only [receive]
      cases sender with
      | none => exact .quiet
      | some speaker =>
          simp only [announcement?]
          by_cases sameNetwork : status.network = participant.network
          case neg =>
              rw [if_neg (sameNetwork ·.2)]
              simp only [receiveStatus, ne_eq, sameNetwork, not_false_eq_true, if_true]
              exact .quiet
          case pos =>
              have answer := participant.receiveStatus_eq speaker status now sameNetwork
              rw [answer.1, answer.2, numbersAsked_range' (participant.batch_le_size ..)]
              by_cases same : speaker = peer
              case neg =>
                  rw [if_neg (same ·.1), if_neg same, if_neg (Ne.symm same)]
                  exact .quiet
              case pos =>
                  subst same
                  rw [if_pos ⟨rfl, sameNetwork⟩, if_pos rfl, if_pos rfl]
                  refine .batch ?best ?mark
                  case best =>
                      simp only [Peers.bestOf?]
                      cases participant.peers.record? speaker with
                      | none => rfl
                      | some record => rfl
                  case mark =>
                      dsimp only
                      split
                      case isTrue =>
                          rw [Peers.requestedThrough?_announced]
                          rfl
                      case isFalse nonempty =>
                          have fits := participant.batch_le_size speaker
                            (Peers.announced (participant.peers.record? speaker) status.network
                              status.best now).best
                          rw [Word64.above_some, UInt64.toNat_ofNat_of_lt' (by omega)]
                          omega

end Participant

end HeaviestChain
