import HeaviestChain.Proofs.Mempool.Listing

/-!
# The first free nonce

Whoever asks for a nonce of a sender gets the first one, from a given nonce up, that none of the
sender's pending transactions has; if all of them are used up to the largest, the answer is the
largest (`FirstFree`).  It is found by going from each used nonce to the next (`Scan`).  A search that
forgets the nonces it has passed takes the same steps, so that each step uses one up, and there are
no more steps than transactions.  After any changes the nonces that are looked at are those of the
sender's transactions in the list of all that is pending.
-/

namespace HeaviestChain

/-- The first word that is not used, from `start` up; the largest word if all of them are used. -/
structure FirstFree (used : UInt64 → Prop) (start found : UInt64) : Prop where
  start_le : start ≤ found
  used_below : ∀ value, start ≤ value → value < found → used value
  used_iff : used found ↔ found = Word64.top ∧ ∀ value, start ≤ value → used value

namespace FirstFree

variable {used other : UInt64 → Prop} {start following found last : UInt64}

theorem congr (first : FirstFree used start found) (same : ∀ value, used value ↔ other value) :
    FirstFree other start found := by
  have equal : used = other := funext fun value => propext (same value)
  rwa [← equal]

theorem of_free (free : ¬used start) : FirstFree used start start where
  start_le := UInt64.le_refl start
  used_below := fun _ above below => absurd above (UInt64.not_le.mpr below)
  used_iff := iff_of_false free fun all => free (all.2 start (UInt64.le_refl start))

theorem of_top (atTop : used Word64.top) : FirstFree used Word64.top Word64.top where
  start_le := UInt64.le_refl _
  used_below := fun _ above below => absurd above (UInt64.not_le.mpr below)
  used_iff := by
    refine iff_of_true atTop ⟨rfl, ?_⟩
    intro value above
    rwa [UInt64.le_antisymm (Word64.le_top value) above]

/-- The search from a used word goes on from the next one. -/
theorem of_next (atStart : used start) (next : Word64.next? start = some following)
    (first : FirstFree used following found) : FirstFree used start found := by
  have below : start ≤ following := UInt64.le_of_lt (Word64.lt_of_next next)
  have from_start {value : UInt64} (above : start ≤ value) : value = start ∨ following ≤ value := by
    rw [← Word64.lt_iff_next_le next]
    exact (UInt64.lt_or_eq_of_le above).symm.imp_left Eq.symm
  constructor
  case start_le => exact UInt64.le_trans below first.start_le
  case used_below =>
      intro value above short
      rcases from_start above with rfl | later
      · exact atStart
      · exact first.used_below value later short
  case used_iff =>
      rw [first.used_iff]
      apply and_congr_right
      intro _
      constructor
      · intro all value above
        rcases from_start above with rfl | later
        · exact atStart
        · exact all value later
      · exact fun all value later => all value (UInt64.le_trans below later)

theorem le (first : FirstFree used start found) (also : FirstFree used start last) :
    found ≤ last := by
  rw [← UInt64.not_lt]
  intro before
  -- A word below another answer is used, and the only used answer is the largest word.
  have atTop := (also.used_iff.mp (first.used_below last also.start_le before)).1
  exact UInt64.not_le.mpr before (atTop ▸ Word64.le_top found)

theorem unique (first : FirstFree used start found) (also : FirstFree used start last) :
    found = last :=
  UInt64.le_antisymm (first.le also) (also.le first)

end FirstFree

namespace Mempool

/-! ## Steps of the search -/

/-- The search in steps: it looks for a nonce among all `nonces`, goes on from one that occurs to
the next, and ends at one that does not occur, or with the largest. -/
inductive Scan (nonces : List UInt64) : UInt64 → Nat → UInt64 → Prop
  | free {nonce : UInt64} (absent : nonce ∉ nonces) : Scan nonces nonce 0 nonce
  | last {nonce : UInt64} (occurs : nonce ∈ nonces) (last : Word64.next? nonce = none) :
      Scan nonces nonce 1 nonce
  | step {nonce following found : UInt64} {steps : Nat} (occurs : nonce ∈ nonces)
      (next : Word64.next? nonce = some following) (scan : Scan nonces following steps found) :
      Scan nonces nonce (steps + 1) found

namespace Scan

variable {nonces : List UInt64} {nonce found : UInt64} {steps : Nat}

theorem firstFree (scan : Scan nonces nonce steps found) :
    FirstFree (· ∈ nonces) nonce found := by
  induction scan with
  | free absent => exact .of_free absent
  | last occurs last =>
      rw [Word64.next?_eq_none_iff] at last
      subst last
      exact .of_top occurs
  | step occurs next _ ih => exact .of_next occurs next ih

/-- A nonce that the search has passed may be among the others. -/
theorem of_without {passed : UInt64} (scan : Scan (without nonces passed) nonce steps found)
    (below : passed < nonce) : Scan nonces nonce steps found := by
  have occurs_iff {value : UInt64} (above : passed < value) :
      value ∈ without nonces passed ↔ value ∈ nonces := by
    simp [without, (UInt64.ne_of_lt above).symm]
  induction scan with
  | free absent => exact .free (mt (occurs_iff below).mpr absent)
  | last occurs last => exact .last ((occurs_iff below).mp occurs) last
  | step occurs next _ ih =>
      have later := UInt64.lt_trans below (Word64.lt_of_next next)
      exact .step ((occurs_iff below).mp occurs) next (ih later)

end Scan

/-- Each step uses up a nonce. -/
theorem exists_scan (nonces : List UInt64) (start : UInt64) :
    ∃ steps ≤ nonces.length, Scan nonces start steps (firstGap nonces start) := by
  fun_induction firstGap nonces start with
  | case1 nonces nonce occurs last =>
      exact ⟨1, List.length_pos_of_mem occurs, .last occurs last⟩
  | case2 nonces nonce occurs following next ih =>
      rcases ih with ⟨steps, few, scan⟩
      have fewer := length_without_lt occurs
      exact ⟨steps + 1, by omega, .step occurs next (scan.of_without (Word64.lt_of_next next))⟩
  | case3 nonces nonce absent => exact ⟨0, Nat.zero_le _, .free absent⟩

/-- The largest nonce has none after it, so it is found although it occurs. -/
example : firstGap [3, Word64.top, 4] 3 = 5 ∧
    firstGap [3, Word64.top, 4] Word64.top = Word64.top := by cbv

/-! ## Nonces of a sender -/

/-- A pending transaction of the sender has the nonce. -/
def Uses (pool : Mempool) (sender : Address) (nonce : UInt64) : Prop :=
  ∃ tx ∈ pool.transactions, tx.sender = sender ∧ tx.nonce = nonce

/-- After any changes the answer is the first nonce from `start` up that no pending transaction of
the sender has, or the largest nonce if all of them are used; and it is found in no more steps than
the sender has pending transactions. -/
theorem nextNonce_applyAll (changes : List Change) (sender : Address) (start : UInt64) :
    let pool := empty.applyAll changes
    let sent := pool.transactions.filter fun tx => decide (tx.sender = sender)
    (∀ found, pool.nextNonce sender start = found ↔ FirstFree (pool.Uses sender) start found) ∧
      ∃ steps ≤ sent.length,
        Scan (sent.map (·.nonce)) start steps (pool.nextNonce sender start) := by
  intro pool sent
  have lists : pool.Lists pool.transactions := lists_applyAll changes
  have searched : pool.nextNonce sender start = firstGap (sent.map (·.nonce)) start := by
    rw [nextNonce, lists.sentBy_eq]
  have uses_iff (nonce : UInt64) : nonce ∈ sent.map (·.nonce) ↔ pool.Uses sender nonce := by
    simp [sent, Uses, and_assoc]
  rcases exists_scan (sent.map (·.nonce)) start with ⟨steps, few, scan⟩
  rw [List.length_map] at few
  rw [← searched] at scan
  have first := scan.firstFree.congr uses_iff
  refine ⟨?_, steps, few, scan⟩
  intro found
  constructor
  · rintro rfl
    exact first
  · exact first.unique

end Mempool

end HeaviestChain
