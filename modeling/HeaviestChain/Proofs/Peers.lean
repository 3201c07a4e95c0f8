import HeaviestChain.Proofs.Requests.Batch

/-!
# The best number of a network

What the peers have announced, as a history of announcements and departures, and which numbers are
remembered of it.  A peer stands for every number that it has announced since it was last forgotten,
on whatever network.  When it announces something on a network, the highest of these numbers is
remembered there (`Credited`), so that numbers of another network can get in; what is remembered is
the largest of them.  It is the largest number announced on the network itself exactly if no number
that got in is larger.
-/

namespace HeaviestChain

/-- The optional number is the largest one with the property; there is none if no number has it. -/
def IsLargest (property : UInt64 → Prop) : Option UInt64 → Prop
  | none => ∀ number, ¬property number
  | some largest => property largest ∧ ∀ number, property number → number ≤ largest

namespace IsLargest

variable {property other : UInt64 → Prop} {largest : Option UInt64}

theorem congr (isLargest : IsLargest property largest)
    (same : ∀ number, property number ↔ other number) : IsLargest other largest := by
  have equal : property = other := funext fun number => propext (same number)
  rwa [← equal]

theorem single (number : UInt64) : IsLargest (· = number) (some number) := by
  refine ⟨rfl, ?_⟩
  rintro _ rfl
  exact UInt64.le_refl _

/-- The larger one of two largest numbers is the largest with either property. -/
theorem union {top : UInt64} (isLargest : IsLargest property largest)
    (isTop : IsLargest other (some top)) :
    IsLargest (fun number => property number ∨ other number)
      (some (largest.elim top (max · top))) := by
  cases largest with
  | none =>
      refine ⟨.inr isTop.1, ?_⟩
      rintro number (has | has)
      · exact absurd has (isLargest number)
      · exact isTop.2 number has
  | some known =>
      have isMax : max known top = if known ≤ top then top else known := rfl
      rw [Option.elim_some, isMax]
      split
      case isTrue below =>
          refine ⟨.inr isTop.1, ?_⟩
          rintro number (has | has)
          · exact UInt64.le_trans (isLargest.2 number has) below
          · exact isTop.2 number has
      case isFalse notBelow =>
          have below : top ≤ known := (UInt64.le_total known top).resolve_left notBelow
          refine ⟨.inl isLargest.1, ?_⟩
          rintro number (has | has)
          · exact isLargest.2 number has
          · exact UInt64.le_trans (isTop.2 number has) below

/-- Among properties of which one includes the other, the largest number is that of the smaller one
exactly if nothing with the larger property is above all numbers with the smaller one. -/
theorem restrict_iff (isLargest : IsLargest property largest)
    (within : ∀ number, other number → property number) :
    IsLargest other largest ↔
      ∀ number, property number → ∃ bound, other bound ∧ number ≤ bound := by
  cases largest with
  | none =>
      constructor
      · exact fun _ number has => absurd has (isLargest number)
      · exact fun _ number has => isLargest number (within number has)
  | some top =>
      constructor
      · exact fun restricted number has => ⟨top, restricted.1, isLargest.2 number has⟩
      · intro bounded
        rcases bounded top isLargest.1 with ⟨bound, has, above⟩
        have below := isLargest.2 bound (within bound has)
        have equal : bound = top := UInt64.le_antisymm below above
        exact ⟨equal ▸ has, fun number has => isLargest.2 number (within number has)⟩

end IsLargest

namespace Peers

/-! ## Histories -/

/-- What can be done to the peers. -/
inductive Command where
  /-- A peer announces its best number. -/
  | announce (peer : PeerId) (network : NetworkId) (best : UInt64) (now : Timestamp)
  /-- A peer is forgotten. -/
  | forget (peer : PeerId)
  /-- A peer has been asked for more numbers, or requests to it are reopened. -/
  | modifyRequested (peer : PeerId) (change : Option UInt64 → Option UInt64)

/-- The peers after a command. -/
def perform (peers : Peers) : Command → Peers
  | .announce peer network best now => (peers.announce peer network best now).1
  | .forget peer => (peers.forget peer).1
  | .modifyRequested peer change => peers.modifyRequested peer change

/-- The peers after commands in a row. -/
def run (peers : Peers) (commands : List Command) : Peers :=
  commands.foldl perform peers

/-- Some peer has announced the number on the network. -/
def Announced (network : NetworkId) (commands : List Command) (number : UInt64) : Prop :=
  ∃ peer now, .announce peer network number now ∈ commands

/-- The peer has announced the number, on some network, and was not forgotten afterwards. -/
def Stands (peer : PeerId) (commands : List Command) (number : UInt64) : Prop :=
  ∃ earlier network now later,
    commands = earlier ++ .announce peer network number now :: later ∧ .forget peer ∉ later

/-- Some peer has announced something on the network and stood for the number then. -/
def Credited (network : NetworkId) (commands : List Command) (number : UInt64) : Prop :=
  ∃ earlier peer best now later,
    commands = earlier ++ .announce peer network best now :: later ∧
      Stands peer (earlier ++ [.announce peer network best now]) number

theorem append_singleton_eq_iff {commands earlier later : List Command} {last command : Command} :
    commands ++ [last] = earlier ++ command :: later ↔
      (earlier = commands ∧ command = last ∧ later = []) ∨
        ∃ rest, later = rest ++ [last] ∧ commands = earlier ++ command :: rest := by
  constructor
  · intro split
    rcases List.eq_nil_or_concat later with rfl | ⟨rest, final, rfl⟩
    · have parts := List.append_inj' split rfl
      exact .inl ⟨parts.1.symm, (List.cons.inj parts.2).1.symm, rfl⟩
    · rw [List.concat_eq_append, ← List.cons_append, ← List.append_assoc] at split
      have parts := List.append_inj' split rfl
      rw [List.concat_eq_append, (List.cons.inj parts.2).1]
      exact .inr ⟨rest, rfl, parts.1⟩
  · rintro (⟨rfl, rfl, rfl⟩ | ⟨rest, rfl, rfl⟩)
    · rfl
    · simp

section Last

variable {commands : List Command} {last : Command} {number : UInt64}

theorem stands_append_iff {peer : PeerId} :
    Stands peer (commands ++ [last]) number ↔
      (Stands peer commands number ∧ last ≠ .forget peer) ∨
        ∃ network now, last = .announce peer network number now := by
  simp only [Stands, append_singleton_eq_iff]
  constructor
  · rintro ⟨earlier, network, now, later, ⟨_, rfl, _⟩ | ⟨rest, rfl, split⟩, kept⟩
    · exact .inr ⟨network, now, rfl⟩
    · rw [List.mem_append, List.mem_singleton, not_or] at kept
      exact .inl ⟨⟨earlier, network, now, rest, split, kept.1⟩, Ne.symm kept.2⟩
  · rintro (⟨⟨earlier, network, now, rest, split, kept⟩, other⟩ | ⟨network, now, rfl⟩)
    · refine ⟨earlier, network, now, rest ++ [last], .inr ⟨rest, rfl, split⟩, ?_⟩
      rw [List.mem_append, List.mem_singleton, not_or]
      exact ⟨kept, Ne.symm other⟩
    · exact ⟨commands, network, now, [], .inl ⟨rfl, rfl, rfl⟩, List.not_mem_nil⟩

theorem credited_append_iff {network : NetworkId} :
    Credited network (commands ++ [last]) number ↔
      Credited network commands number ∨
        ∃ peer best now, last = .announce peer network best now ∧
          Stands peer (commands ++ [last]) number := by
  simp only [Credited, append_singleton_eq_iff]
  constructor
  · rintro ⟨earlier, peer, best, now, later, ⟨rfl, rfl, _⟩ | ⟨rest, _, split⟩, stands⟩
    · exact .inr ⟨peer, best, now, rfl, stands⟩
    · exact .inl ⟨earlier, peer, best, now, rest, split, stands⟩
  · rintro (⟨earlier, peer, best, now, rest, split, stands⟩ | ⟨peer, best, now, rfl, stands⟩)
    · exact ⟨earlier, peer, best, now, rest ++ [last], .inr ⟨rest, rfl, split⟩, stands⟩
    · exact ⟨commands, peer, best, now, [], .inl ⟨rfl, rfl, rfl⟩, stands⟩

end Last

theorem credited_of_announced {network : NetworkId} {commands : List Command} {number : UInt64}
    (announced : Announced network commands number) : Credited network commands number := by
  rcases announced with ⟨peer, now, mem⟩
  rcases List.append_of_mem mem with ⟨earlier, later, split⟩
  exact ⟨earlier, peer, number, now, later, split,
    stands_append_iff.mpr (.inr ⟨network, now, rfl⟩)⟩

/-! ## One command -/

section Views

variable (peers : Peers) (peer other : PeerId) (network : NetworkId)

theorem best_announced (old : Option PeerRecord) (best : UInt64) (now : Timestamp) :
    (announced old network best now).best = (old.map (·.best)).elim best (max · best) := by
  cases old with
  | none => rfl
  | some _ => rfl

theorem bestOf?_announce (best : UInt64) (now : Timestamp) :
    (peers.announce peer network best now).1.bestOf? other =
      if other = peer then some ((peers.bestOf? peer).elim best (max · best))
      else peers.bestOf? other := by
  simp only [bestOf?, record?_announce]
  split
  case isTrue => rw [Option.map_some, best_announced]
  case isFalse => rfl

theorem bestOf?_forget :
    (peers.forget peer).1.bestOf? other = if other = peer then none else peers.bestOf? other := by
  simp only [bestOf?, record?_forget]
  split
  case isTrue => rfl
  case isFalse => rfl

theorem bestOf?_modifyRequested (change : Option UInt64 → Option UInt64) :
    (peers.modifyRequested peer change).bestOf? other = peers.bestOf? other := by
  simp only [bestOf?, record?_modifyRequested]
  split
  case isTrue here =>
      rw [here, Option.map_map]
      rfl
  case isFalse => rfl

/-- The network remembers what the peer stands for afterwards. -/
theorem bestOn?_announce (best : UInt64) (now : Timestamp) (place : NetworkId) :
    (peers.announce peer network best now).1.bestOn? place =
      if place = network then
        some ((peers.bestOn? network).elim ((peers.bestOf? peer).elim best (max · best))
          (max · ((peers.bestOf? peer).elim best (max · best))))
      else peers.bestOn? place := by
  rw [bestOf?, ← best_announced network]
  refine (Table.get?_set ..).trans ?_
  congr 2
  cases peers.bestOn? network with
  | none => rfl
  | some _ => rfl

theorem bestOn?_modifyRequested (change : Option UInt64 → Option UInt64) :
    (peers.modifyRequested peer change).bestOn? network = peers.bestOn? network := by
  simp only [modifyRequested]
  split
  case h_1 => rfl
  case h_2 => rfl

end Views

theorem run_append (peers : Peers) (commands : List Command) (last : Command) :
    peers.run (commands ++ [last]) = (peers.run commands).perform last :=
  List.foldl_append

/-! ## Runs -/

/-- A peer is known for the largest number that it stands for. -/
theorem isLargest_bestOf? (commands : List Command) (peer : PeerId) :
    IsLargest (Stands peer commands) ((empty.run commands).bestOf? peer) := by
  induction commands using List.reverseRecOn with
  | nil =>
      rintro number ⟨earlier, _, _, _, split, _⟩
      simp at split
  | append_singleton commands last ih =>
      rw [run_append]
      cases last with
      | announce other network best now =>
          rw [perform, bestOf?_announce]
          split
          case isTrue here =>
              subst here
              apply (ih.union (.single best)).congr
              intro number
              simp [stands_append_iff, eq_comm]
          case isFalse elsewhere =>
              apply ih.congr
              intro number
              simp [stands_append_iff, Ne.symm elsewhere]
      | forget other =>
          rw [perform, bestOf?_forget]
          split
          case isTrue here =>
              subst here
              intro number
              simp [stands_append_iff]
          case isFalse elsewhere =>
              apply ih.congr
              intro number
              simp [stands_append_iff, Ne.symm elsewhere]
      | modifyRequested other change =>
          rw [perform, bestOf?_modifyRequested]
          apply ih.congr
          intro number
          simp [stands_append_iff]

/-- A network is known for the largest number that was credited to it. -/
theorem isLargest_bestOn? (commands : List Command) (network : NetworkId) :
    IsLargest (Credited network commands) ((empty.run commands).bestOn? network) := by
  induction commands using List.reverseRecOn with
  | nil =>
      rintro number ⟨earlier, _, _, _, _, split, _⟩
      simp at split
  | append_singleton commands last ih =>
      have standing (peer : PeerId) := isLargest_bestOf? (commands ++ [last]) peer
      rw [run_append] at standing ⊢
      cases last with
      | announce peer place best now =>
          rw [perform, bestOn?_announce]
          split
          case isTrue here =>
              subst here
              have top := standing peer
              rw [perform, bestOf?_announce, if_pos rfl] at top
              apply (ih.union top).congr
              intro number
              simp [credited_append_iff]
          case isFalse elsewhere =>
              apply ih.congr
              intro number
              simp [credited_append_iff, Ne.symm elsewhere]
      | forget peer =>
          apply ih.congr
          intro number
          simp [credited_append_iff]
      | modifyRequested peer change =>
          rw [perform, bestOn?_modifyRequested]
          apply ih.congr
          intro number
          simp [credited_append_iff]

/-- After any history, a network is known for the largest number that some peer stood for when it
announced something on the network, whether it had announced that number there or elsewhere; it is
known for none exactly if nothing was announced on it.  This is the largest number announced on the
network itself exactly if none of the others is larger than all of these.  That a peer is forgotten
changes nothing about it. -/
theorem bestOn?_run (commands : List Command) (network : NetworkId) :
    let peers := empty.run commands
    IsLargest (Credited network commands) (peers.bestOn? network) ∧
      (peers.bestOn? network = none ↔ ∀ number, ¬Announced network commands number) ∧
      (IsLargest (Announced network commands) (peers.bestOn? network) ↔
        ∀ number, Credited network commands number →
          ∃ bound, Announced network commands bound ∧ number ≤ bound) ∧
      ∀ peer, (peers.forget peer).1.bestOn? network = peers.bestOn? network := by
  intro peers
  have isLargest := isLargest_bestOn? commands network
  refine ⟨isLargest, ?_, isLargest.restrict_iff fun _ => credited_of_announced, fun _ => rfl⟩
  constructor
  · intro isNone number announced
    rw [isNone] at isLargest
    exact isLargest number (credited_of_announced announced)
  · intro silent
    rw [Option.eq_none_iff_forall_ne_some]
    intro best known
    rw [known] at isLargest
    rcases isLargest.1 with ⟨earlier, peer, announced, now, later, rfl, _⟩
    exact silent announced ⟨peer, now, by simp⟩

def wanderer : PeerId := ⟨.zero 32⟩

/-- Announces a large number on another network, then a small one on the main network. -/
def wandererHistory : List Command :=
  [.announce wanderer ⟨7⟩ 50 .epoch, .announce wanderer .mainnet 10 .epoch]

/-- The main network is known for a number that nobody has announced on it. -/
theorem wanderer_overstated :
    (empty.run wandererHistory).bestOn? .mainnet = some 50 ∧
      IsLargest (Announced .mainnet wandererHistory) (some 10) := by
  refine ⟨by decide +kernel, ⟨wanderer, .epoch, by simp [wandererHistory]⟩, ?_⟩
  rintro number ⟨peer, now, mem⟩
  simp only [wandererHistory, List.mem_cons, Command.announce.injEq, List.not_mem_nil] at mem
  rcases mem with ⟨_, other, _⟩ | ⟨_, _, rfl, _⟩ | absent
  · cases other
  · exact UInt64.le_refl _
  · cases absent

end Peers

end HeaviestChain
