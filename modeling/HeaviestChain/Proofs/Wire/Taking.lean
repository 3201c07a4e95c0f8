import HeaviestChain.Proofs.Wire.Reader
import HeaviestChain.Wire.WideNumber

/-!
# What readers have taken

A reader that succeeds has taken bytes from the front, and these bytes are the written form of the
value it gives, with one exception: a wide number may be spelled in other ways than it is written.
`Respelled` compares written bytes with read ones byte by byte and number by number, and `Taken`
says this of the part of a byte string that a reader has taken.  Readers that run one after the
other have taken both parts.
-/

namespace HeaviestChain

namespace Wire

/-! ## Spellings -/

/-- A wide number with characters that spell it. -/
structure Spelling where
  /-- The number. -/
  value : Word256
  /-- The characters. -/
  characters : Bytes
  /-- There are not too many to be counted. -/
  short : characters.length < UInt64.size
  /-- They are read as the number. -/
  parses : WideNumber.parse characters = .ok value.toNat

/-- Whether the characters begin with the mark. -/
def Spelling.isMarked (spelling : Spelling) : Bool := WideNumber.mark.isPrefixOf spelling.characters

/-- The bytes are the written ones, except that some numbers, in this order, are spelled in their own
way. -/
inductive Respelled : List Spelling → Bytes → Bytes → Prop
  | nil : Respelled [] [] []
  | byte (byte : UInt8) {spellings : List Spelling} {written bytes : Bytes}
      (onward : Respelled spellings written bytes) :
      Respelled spellings (byte :: written) (byte :: bytes)
  | number (spelling : Spelling) {spellings : List Spelling} {written bytes : Bytes}
      (onward : Respelled spellings written bytes) :
      Respelled (spelling :: spellings) (WideNumber.write spelling.value ++ written)
        (byteVector spelling.characters ++ bytes)

namespace Respelled

theorem refl (bytes : Bytes) : Respelled [] bytes bytes := by
  induction bytes with
  | nil => exact .nil
  | cons first rest ih => exact .byte first ih

theorem append {spellings spellings' : List Spelling} {written written' bytes bytes' : Bytes}
    (first : Respelled spellings written bytes) (second : Respelled spellings' written' bytes') :
    Respelled (spellings ++ spellings') (written ++ written') (bytes ++ bytes') := by
  induction first with
  | nil => exact second
  | byte value _ ih => exact .byte value ih
  | number spelling _ ih =>
      rw [List.cons_append, List.append_assoc, List.append_assoc]
      exact .number spelling ih

end Respelled

/-- From `bytes` on, the written form has been taken, with these numbers in it, and `rest` is left. -/
def Taken (written : Bytes) (numbers : List Word256) (bytes rest : Bytes) : Prop :=
  ∃ spellings taken, bytes = taken ++ rest ∧ Respelled spellings written taken ∧
    spellings.map (·.value) = numbers

namespace Taken

variable {written written' bytes middle rest : Bytes} {numbers numbers' : List Word256}

theorem nil (bytes : Bytes) : Taken [] [] bytes bytes :=
  ⟨[], [], rfl, .nil, rfl⟩

theorem exactly (written rest : Bytes) : Taken written [] (written ++ rest) rest :=
  ⟨[], written, rfl, .refl written, rfl⟩

theorem append (first : Taken written numbers bytes middle)
    (second : Taken written' numbers' middle rest) :
    Taken (written ++ written') (numbers ++ numbers') bytes rest := by
  rcases first with ⟨spellings, taken, rfl, respelled, rfl⟩
  rcases second with ⟨spellings', taken', rfl, respelled', rfl⟩
  exact ⟨spellings ++ spellings', taken ++ taken', (List.append_assoc ..).symm,
    respelled.append respelled', List.map_append⟩

end Taken

/-! ## Readers in a row -/

section Sequence

variable {α β : Type} {reader : Reader α} {bytes rest : Bytes}

theorem run_bind_eq_ok {next : α → Reader β} {value : β} :
    (reader >>= next).run bytes = .ok (value, rest) ↔
      ∃ first middle, reader.run bytes = .ok (first, middle) ∧
        (next first).run middle = .ok (value, rest) := by
  simp only [Reader.run, StateT.run, Bind.bind, StateT.bind, Except.bind]
  constructor
  · intro both
    split at both
    case h_1 => cases both
    case h_2 result first => exact ⟨result.1, result.2, first, both⟩
  · rintro ⟨first, middle, ran, onward⟩
    rw [ran]
    exact onward

theorem run_map_eq_ok {change : α → β} {value : β} :
    (change <$> reader).run bytes = .ok (value, rest) ↔
      ∃ first, reader.run bytes = .ok (first, rest) ∧ change first = value := by
  simp only [Reader.run, StateT.run, Functor.map, StateT.map, Bind.bind, Except.bind]
  constructor
  · intro both
    split at both
    case h_1 => cases both
    case h_2 result first =>
        cases both
        exact ⟨result.1, first, rfl⟩
  · rintro ⟨first, ran, rfl⟩
    rw [ran]
    rfl

theorem run_pure_eq_ok {value value' : α} :
    (Pure.pure value : Reader α).run bytes = .ok (value', rest) ↔ value = value' ∧ bytes = rest := by
  have ran : (Pure.pure value : Reader α).run bytes = .ok (value, bytes) := rfl
  rw [ran, Except.ok.injEq, Prod.mk.injEq]

end Sequence

/-! ## Items of fixed width -/

section Fixed

variable {bytes rest : Bytes}

theorem eq_of_take {cut : WireError} {count : Nat} {taken : Bytes}
    (ran : (Reader.take cut count).run bytes = .ok (taken, rest)) :
    bytes = taken ++ rest ∧ taken.length = count := by
  simp only [Reader.run, StateT.run, Reader.take] at ran
  split at ran
  case isTrue exact =>
      cases ran
      exact ⟨(List.take_append_drop count bytes).symm, exact⟩
  case isFalse => cases ran

theorem eq_of_number {count number : Nat}
    (ran : (Reader.number count).run bytes = .ok (number, rest)) :
    bytes = Bytes.littleEndian count number ++ rest ∧ number < Nat.pow 256 count := by
  rcases run_map_eq_ok.mp ran with ⟨taken, took, rfl⟩
  rcases eq_of_take took with ⟨rfl, rfl⟩
  rw [Bytes.littleEndian_ofLittleEndian]
  exact ⟨rfl, Bytes.ofLittleEndian_lt taken⟩

theorem taken_word32 {value : UInt32} (ran : Reader.word32.run bytes = .ok (value, rest)) :
    Taken (word32 value) [] bytes rest := by
  rcases run_map_eq_ok.mp ran with ⟨number, read, rfl⟩
  rcases eq_of_number read with ⟨rfl, fits⟩
  rw [word32, UInt32.toNat_ofNat_of_lt' fits]
  exact .exactly _ rest

theorem taken_word64 {value : UInt64} (ran : Reader.word64.run bytes = .ok (value, rest)) :
    Taken (word64 value) [] bytes rest := by
  rcases run_map_eq_ok.mp ran with ⟨number, read, rfl⟩
  rcases eq_of_number read with ⟨rfl, fits⟩
  rw [word64, UInt64.toNat_ofNat_of_lt' fits]
  exact .exactly _ rest

theorem taken_fixed {count : Nat} {value : FixedBytes count}
    (ran : (Reader.fixed count).run bytes = .ok (value, rest)) :
    Taken value.toList [] bytes rest := by
  simp only [Reader.run, StateT.run, Reader.fixed] at ran
  split at ran
  case isTrue exact =>
      cases ran
      have split := Taken.exactly (bytes.take count) (bytes.drop count)
      rw [List.take_append_drop] at split
      exact split
  case isFalse => cases ran

end Fixed

/-! ## Items that start with a count -/

section Counted

variable {bytes rest : Bytes}

theorem taken_byteVector {content : Bytes}
    (ran : Reader.byteVector.run bytes = .ok (content, rest)) :
    Taken (byteVector content) [] bytes rest := by
  rcases run_bind_eq_ok.mp ran with ⟨count, middle, counted, took⟩
  rcases eq_of_number counted with ⟨rfl, _⟩
  rcases eq_of_take took with ⟨rfl, rfl⟩
  rw [← List.append_assoc]
  exact .exactly _ rest

theorem eq_of_text {content : Bytes} (ran : Reader.text.run bytes = .ok (content, rest)) :
    bytes = byteVector content ++ rest ∧ content.length < UInt64.size := by
  rcases run_bind_eq_ok.mp ran with ⟨count, middle, counted, ran⟩
  rcases run_bind_eq_ok.mp ran with ⟨taken, left, took, ends⟩
  split at ends
  case h_1 => cases ends
  case h_2 =>
      rcases run_pure_eq_ok.mp ends with ⟨rfl, rfl⟩
      rcases eq_of_number counted with ⟨rfl, fits⟩
      rcases eq_of_take took with ⟨rfl, rfl⟩
      exact ⟨(List.append_assoc ..).symm, fits⟩

variable {α : Type} {element : Reader α} {write : α → Bytes} {numbers : α → List Word256}
  (taken : ∀ {bytes rest : Bytes} {value : α}, element.run bytes = .ok (value, rest) →
    Taken (write value) (numbers value) bytes rest)

include taken

theorem taken_elements {count : Nat} {earlier values : List α}
    (ran : (Reader.elements element count earlier).run bytes = .ok (values, rest)) :
    ∃ later, values = earlier.reverse ++ later ∧ later.length = count ∧
      Taken (later.flatMap write) (later.flatMap numbers) bytes rest := by
  induction count generalizing bytes earlier with
  | zero =>
      cases ran
      exact ⟨[], (List.append_nil _).symm, rfl, .nil _⟩
  | succ count ih =>
      simp only [Reader.run, StateT.run, Reader.elements] at ran
      split at ran
      case h_1 => cases ran
      case h_2 value middle read =>
          rcases ih ran with ⟨later, rfl, rfl, onward⟩
          refine ⟨value :: later, by simp, rfl, ?_⟩
          exact (taken read).append onward

theorem taken_list {values : List α} (ran : (Reader.list element).run bytes = .ok (values, rest)) :
    Taken (list write values) (values.flatMap numbers) bytes rest := by
  rcases run_bind_eq_ok.mp ran with ⟨count, middle, counted, ran⟩
  rcases taken_elements taken ran with ⟨later, rfl, rfl, onward⟩
  rw [(eq_of_number counted).1]
  exact (Taken.exactly _ middle).append onward

end Counted

end Wire

end HeaviestChain
