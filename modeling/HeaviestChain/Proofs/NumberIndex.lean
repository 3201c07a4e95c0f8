import HeaviestChain.NumberIndex

/-!
# Ascending number indexes

An index in which numbers ascend strictly is read through membership, grows at its end when higher
numbers are put into it, and falls into two parts when it is cut at a number.
-/

namespace HeaviestChain

namespace NumberIndex

/-- Numbers ascend strictly. -/
def Ascending (index : NumberIndex) : Prop :=
  index.Pairwise fun lower higher => lower.1 < higher.1

theorem get?_eq_some_iff {index : NumberIndex} (ascending : Ascending index) {number : UInt64}
    {hash : BlockHash} : get? index number = some hash ↔ (number, hash) ∈ index := by
  induction index with
  | nil => simp [get?]
  | cons entry rest ih =>
      rw [Ascending, List.pairwise_cons] at ascending
      rcases ascending with ⟨above, ascending⟩
      have step := ih ascending
      simp only [get?] at step
      simp only [get?, List.find?_cons, List.mem_cons]
      by_cases here : entry.1 = number
      · subst here
        have absent : (entry.1, hash) ∉ rest :=
          fun mem => absurd (above _ mem) (UInt64.lt_irrefl _)
        simp only [decide_true, Option.map_some, Option.some.injEq, absent, or_false]
        constructor
        · rintro rfl
          rfl
        · intro same
          rw [← same]
      · have other : (number, hash) ≠ entry := fun same => here (by rw [← same])
        simp only [here, decide_false, other, false_or]
        exact step

theorem put_of_above {index : NumberIndex} {number : UInt64} (hash : BlockHash)
    (above : ∀ entry ∈ index, entry.1 < number) :
    put number hash index = index ++ [(number, hash)] := by
  induction index with
  | nil => rfl
  | cons entry rest ih =>
      have higher := above entry (List.mem_cons_self ..)
      have notLower : ¬number < entry.1 := UInt64.lt_asymm higher
      have different : number ≠ entry.1 := fun same => UInt64.lt_irrefl _ (same ▸ higher)
      simp only [put, notLower, different, if_false, List.cons_append]
      rw [ih fun other mem => above other (List.mem_cons_of_mem _ mem)]

/-- Putting higher and higher numbers appends them. -/
theorem foldl_put {index added : NumberIndex} (ascending : Ascending (index ++ added)) :
    added.foldl (fun index entry => put entry.1 entry.2 index) index = index ++ added := by
  induction added generalizing index with
  | nil => rw [List.append_nil, List.foldl_nil]
  | cons entry rest ih =>
      have above : ∀ lower ∈ index, lower.1 < entry.1 := by
        intro lower mem
        exact (List.pairwise_append.mp ascending).2.2 lower mem entry (List.mem_cons_self ..)
      rw [List.foldl_cons, put_of_above entry.2 above, ih]
      · rw [List.append_assoc, List.singleton_append]
      · rw [List.append_assoc, List.singleton_append]
        exact ascending

section Cut

variable {lower upper : NumberIndex} {number : UInt64}
  (lowerBelow : ∀ entry ∈ lower, entry.1 < number)
  (upperFrom : ∀ entry ∈ upper, number ≤ entry.1)

include lowerBelow upperFrom

theorem below_append : below (lower ++ upper) number = lower := by
  have kept : lower.filter (fun entry => decide (entry.1 < number)) = lower := by
    rw [List.filter_eq_self]
    intro entry mem
    exact decide_eq_true (lowerBelow entry mem)
  have dropped : upper.filter (fun entry => decide (entry.1 < number)) = [] := by
    rw [List.filter_eq_nil_iff]
    intro entry mem
    simpa using upperFrom entry mem
  rw [below, List.filter_append, kept, dropped, List.append_nil]

theorem upFrom_append : upFrom (lower ++ upper) number = upper := by
  have dropped : lower.filter (fun entry => decide (number ≤ entry.1)) = [] := by
    rw [List.filter_eq_nil_iff]
    intro entry mem
    simpa using lowerBelow entry mem
  have kept : upper.filter (fun entry => decide (number ≤ entry.1)) = upper := by
    rw [List.filter_eq_self]
    intro entry mem
    exact decide_eq_true (upperFrom entry mem)
  rw [upFrom, List.filter_append, dropped, kept, List.nil_append]

end Cut

end NumberIndex

end HeaviestChain
