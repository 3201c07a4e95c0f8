/-!
# Tables

A finite map that remembers the order in which its keys arrived.  No key occurs twice, by
construction.  The main statements say what each change does to `get?`, the one view through which
a table is read.
-/

namespace HeaviestChain

/-- Values under distinct keys, oldest key first. -/
structure Table (κ α : Type) where
  /-- The keys with their values. -/
  entries : List (κ × α)
  /-- No key occurs twice. -/
  nodup_keys : (entries.map Prod.fst).Nodup

namespace Table

variable {κ α : Type}

@[ext] theorem ext {left right : Table κ α} (same : left.entries = right.entries) :
    left = right := by
  cases left
  cases right
  cases same
  rfl

/-- No entries. -/
def empty : Table κ α := ⟨[], List.nodup_nil⟩

instance : Inhabited (Table κ α) := ⟨empty⟩

/-- The keys, oldest first. -/
def keys (table : Table κ α) : List κ := table.entries.map Prod.fst

/-- The number of entries. -/
def size (table : Table κ α) : Nat := table.entries.length

/-- Keeps the entries whose value `change` keeps, each with its new value. -/
def filterMapValues (table : Table κ α) (change : α → Option α) : Table κ α where
  entries := table.entries.filterMap fun entry => (change entry.2).map (entry.1, ·)
  nodup_keys := by
    have sublist : ((table.entries.filterMap fun entry =>
        (change entry.2).map (entry.1, ·)).map Prod.fst).Sublist
          (table.entries.map Prod.fst) := by
      induction table.entries with
      | nil => exact .slnil
      | cons entry rest ih =>
          rw [List.filterMap_cons]
          cases change entry.2 with
          | none => exact ih.cons _
          | some value => exact ih.cons_cons _
    exact sublist.nodup table.nodup_keys

variable [DecidableEq κ]

/-- The value under a key. -/
def get? (table : Table κ α) (key : κ) : Option α :=
  (table.entries.find? fun entry => decide (entry.1 = key)).map Prod.snd

/-- Whether the key has a value. -/
def contains (table : Table κ α) (key : κ) : Bool :=
  (table.get? key).isSome

/-- Removes the entry of a key. -/
def erase (table : Table κ α) (key : κ) : Table κ α where
  entries := table.entries.filter fun entry => decide (entry.1 ≠ key)
  nodup_keys := (List.filter_sublist.map _).nodup table.nodup_keys

/-- Gives a key a value: in its old place if it has one, else at the end. -/
def set (table : Table κ α) (key : κ) (value : α) : Table κ α :=
  if present : key ∈ table.entries.map Prod.fst then
    { entries := table.entries.map fun entry => if entry.1 = key then (key, value) else entry
      nodup_keys := by
        have sameKeys : (table.entries.map fun entry =>
            if entry.1 = key then (key, value) else entry).map Prod.fst =
              table.entries.map Prod.fst := by
          rw [List.map_map]
          apply List.map_congr_left
          intro entry _
          by_cases here : entry.1 = key
          · simp [here]
          · simp [here]
        rw [sameKeys]
        exact table.nodup_keys }
  else
    { entries := table.entries ++ [(key, value)]
      nodup_keys := by
        rw [List.map_append, List.nodup_append]
        refine ⟨table.nodup_keys, by simp, ?_⟩
        intro old oldMem new newMem same
        simp only [List.map_cons, List.map_nil, List.mem_singleton] at newMem
        subst newMem
        subst same
        exact present oldMem }

theorem get?_eq_some_iff {table : Table κ α} {key : κ} {value : α} :
    table.get? key = some value ↔ (key, value) ∈ table.entries := by
  rcases table with ⟨entries, nodup⟩
  simp only [get?]
  induction entries with
  | nil => simp
  | cons entry rest ih =>
      rw [List.map_cons, List.nodup_cons] at nodup
      rw [List.find?_cons]
      by_cases here : entry.1 = key
      · subst here
        have absent : (entry.1, value) ∉ rest := fun mem =>
          nodup.1 (List.mem_map.mpr ⟨_, mem, rfl⟩)
        simp only [decide_true, Option.map_some, Option.some.injEq, List.mem_cons, absent,
          or_false]
        constructor
        · intro same
          subst same
          rfl
        · intro same
          rw [← same]
      · have other : (key, value) ≠ entry := fun same => here (by rw [← same])
        simp only [here, decide_false, List.mem_cons, other, false_or]
        exact ih nodup.2

theorem get?_eq_none_iff {table : Table κ α} {key : κ} :
    table.get? key = none ↔ key ∉ table.keys := by
  simp only [get?, Option.map_eq_none_iff, List.find?_eq_none, keys, List.mem_map, not_exists,
    decide_eq_true_eq, not_and]

theorem contains_iff {table : Table κ α} {key : κ} :
    table.contains key = true ↔ key ∈ table.keys := by
  rw [contains, Option.isSome_iff_ne_none, ne_eq, get?_eq_none_iff, Classical.not_not]

@[simp] theorem get?_empty (key : κ) : (empty : Table κ α).get? key = none := rfl

theorem get?_erase (table : Table κ α) (key other : κ) :
    (table.erase key).get? other = if other = key then none else table.get? other := by
  apply Option.ext
  intro value
  rw [get?_eq_some_iff]
  simp only [erase, List.mem_filter, decide_eq_true_eq]
  by_cases same : other = key
  · simp [same]
  · simp [same, get?_eq_some_iff]

theorem get?_set (table : Table κ α) (key other : κ) (value : α) :
    (table.set key value).get? other = if other = key then some value else table.get? other := by
  apply Option.ext
  intro found
  rw [get?_eq_some_iff]
  unfold set
  split
  case isTrue present =>
      simp only [List.mem_map]
      by_cases same : other = key
      · subst same
        simp only [if_true, Option.some.injEq]
        constructor
        · rintro ⟨entry, _, changed⟩
          by_cases here : entry.1 = other
          · rw [if_pos here] at changed
            exact congrArg Prod.snd changed
          · rw [if_neg here] at changed
            exact absurd (congrArg Prod.fst changed) here
        · intro same
          subst same
          rcases List.mem_map.mp present with ⟨entry, mem, isKey⟩
          exact ⟨entry, mem, by rw [if_pos isKey]⟩
      · rw [if_neg same, get?_eq_some_iff]
        constructor
        · rintro ⟨entry, mem, changed⟩
          by_cases here : entry.1 = key
          · rw [if_pos here] at changed
            exact absurd (congrArg Prod.fst changed).symm same
          · rw [if_neg here] at changed
            exact changed ▸ mem
        · intro mem
          exact ⟨_, mem, by rw [if_neg same]⟩
  case isFalse absent =>
      rw [List.mem_append, List.mem_singleton, Prod.mk.injEq]
      by_cases same : other = key
      · subst same
        have missing : (other, found) ∉ table.entries := fun mem =>
          absent (List.mem_map.mpr ⟨_, mem, rfl⟩)
        simp only [missing, true_and, false_or, if_true, Option.some.injEq]
        exact eq_comm
      · simp [same, get?_eq_some_iff]

theorem get?_filterMapValues (table : Table κ α) (change : α → Option α) (key : κ) :
    (table.filterMapValues change).get? key = (table.get? key).bind change := by
  apply Option.ext
  intro value
  simp only [get?_eq_some_iff, Option.bind_eq_some_iff, filterMapValues, List.mem_filterMap,
    Option.map_eq_some_iff, Prod.mk.injEq]
  constructor
  · rintro ⟨⟨_, old⟩, mem, _, changed, rfl, rfl⟩
    exact ⟨old, mem, changed⟩
  · rintro ⟨old, mem, changed⟩
    exact ⟨(key, old), mem, value, changed, rfl, rfl⟩

/-! ## Totals -/

omit [DecidableEq κ] in
/-- The sum of a measure over all values. -/
def total (measure : α → Nat) (table : Table κ α) : Nat :=
  table.entries.foldr (fun entry sum => measure entry.2 + sum) 0

theorem total_erase {table : Table κ α} {key : κ} {value : α} (measure : α → Nat)
    (found : table.get? key = some value) :
    (table.erase key).total measure + measure value = table.total measure := by
  rw [get?_eq_some_iff] at found
  rcases table with ⟨entries, nodup⟩
  simp only [total, erase]
  induction entries with
  | nil => cases found
  | cons entry rest ih =>
      rw [List.map_cons, List.nodup_cons] at nodup
      rw [List.mem_cons] at found
      rw [List.filter_cons, List.foldr_cons]
      rcases found with here | later
      · subst here
        have untouched : rest.filter (fun entry => decide (entry.1 ≠ key)) = rest := by
          rw [List.filter_eq_self]
          intro other mem
          have : other.1 ≠ key := fun same => nodup.1 (List.mem_map.mpr ⟨other, mem, same⟩)
          simp [this]
        simp only [ne_eq, not_true_eq_false, decide_false, Bool.false_eq_true, if_false]
        simp only [ne_eq] at untouched
        rw [untouched, Nat.add_comm]
      · have other : entry.1 ≠ key := fun same =>
          nodup.1 (List.mem_map.mpr ⟨_, later, same.symm⟩)
        simp only [ne_eq, other, not_false_eq_true, decide_true, if_true, List.foldr_cons]
        have := ih nodup.2 later
        simp only [ne_eq] at this
        omega

theorem total_set_of_some {table : Table κ α} {key : κ} {old : α} (measure : α → Nat) (value : α)
    (found : table.get? key = some old) :
    (table.set key value).total measure + measure old = table.total measure + measure value := by
  have present : key ∈ table.entries.map Prod.fst :=
    List.mem_map.mpr ⟨_, get?_eq_some_iff.mp found, rfl⟩
  rw [get?_eq_some_iff] at found
  unfold set
  rw [dif_pos present]
  rcases table with ⟨entries, nodup⟩
  simp only [total]
  clear present
  induction entries with
  | nil => cases found
  | cons entry rest ih =>
      rw [List.map_cons, List.nodup_cons] at nodup
      rw [List.mem_cons] at found
      simp only [List.map_cons, List.foldr_cons]
      rcases found with here | later
      · subst here
        have untouched : (rest.map fun entry =>
            if entry.1 = key then (key, value) else entry) = rest := by
          refine (List.map_congr_left fun other mem => ?_).trans (List.map_id _)
          have : other.1 ≠ key := fun same => nodup.1 (List.mem_map.mpr ⟨other, mem, same⟩)
          rw [if_neg this, id_eq]
        rw [untouched]
        simp only [if_true]
        omega
      · have other : entry.1 ≠ key := fun same =>
          nodup.1 (List.mem_map.mpr ⟨_, later, same.symm⟩)
        rw [if_neg other]
        have := ih nodup.2 later
        omega

theorem total_set_of_none {table : Table κ α} {key : κ} (measure : α → Nat) (value : α)
    (missing : table.get? key = none) :
    (table.set key value).total measure = table.total measure + measure value := by
  have absent : key ∉ table.entries.map Prod.fst := get?_eq_none_iff.mp missing
  unfold set
  rw [dif_neg absent]
  simp only [total, List.foldr_append, List.foldr_cons, List.foldr_nil, Nat.add_zero]
  induction table.entries with
  | nil => simp
  | cons entry rest ih =>
      rw [List.foldr_cons, List.foldr_cons, ih, Nat.add_assoc]

/-! ## Sizes -/

theorem size_erase_le (table : Table κ α) (key : κ) : (table.erase key).size ≤ table.size :=
  List.length_filter_le ..

theorem size_erase_lt {table : Table κ α} {key : κ} (present : table.contains key = true) :
    (table.erase key).size < table.size := by
  rw [contains_iff] at present
  rcases List.mem_map.mp present with ⟨entry, mem, isKey⟩
  exact List.length_filter_lt_length_iff_exists.mpr ⟨entry, mem, by simp [isKey]⟩

theorem size_set_le (table : Table κ α) (key : κ) (value : α) :
    (table.set key value).size ≤ table.size + 1 := by
  simp only [set, size]
  split
  case isTrue => simp
  case isFalse => simp

theorem size_set_of_contains {table : Table κ α} {key : κ}
    (present : table.contains key = true) (value : α) :
    (table.set key value).size = table.size := by
  rw [contains_iff, keys] at present
  simp only [set, size, dif_pos present, List.length_map]

end Table

end HeaviestChain
