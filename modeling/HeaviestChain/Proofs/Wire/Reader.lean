import HeaviestChain.Wire.Reader

/-!
# What readers take

`Reads reader bytes value` says that a reader takes exactly these bytes for this value, whatever
stands behind them.  Readers that run one after the other take the bytes of both, so the facts about
the primitive readers below add up to facts about records, field by field.

Lists and byte vectors start with a count of 64 bits.  The count fits as soon as the written bytes
can be counted in 64 bits, because every element takes at least one byte.
-/

namespace HeaviestChain.Wire

/-- The reader takes exactly these bytes for this value, whatever stands behind them. -/
def Reads {α : Type} (reader : Reader α) (bytes : Bytes) (value : α) : Prop :=
  ∀ behind, reader.run (bytes ++ behind) = .ok (value, behind)

namespace Reads

variable {α β : Type}

theorem pure (value : α) : Reads (Pure.pure value) [] value := by
  intro behind
  rfl

theorem bind {reader : Reader α} {bytes : Bytes} {value : α} (reads : Reads reader bytes value)
    {next : α → Reader β} {bytes' : Bytes} {value' : β} (reads' : Reads (next value) bytes' value') :
    Reads (reader >>= next) (bytes ++ bytes') value' := by
  intro behind
  have first := reads (bytes' ++ behind)
  have second := reads' behind
  simp only [Reader.run, StateT.run] at first second ⊢
  rw [List.append_assoc]
  simp only [Bind.bind, StateT.bind, first]
  exact second

/-- The last step may look at what was read and give a value for it, but takes no bytes. -/
theorem finish {reader : Reader α} {bytes : Bytes} {value : α} (reads : Reads reader bytes value)
    {next : α → Reader β} {value' : β} (ends : next value = Pure.pure value') :
    Reads (reader >>= next) bytes value' := by
  have last : Reads (next value) [] value' := by
    rw [ends]
    exact .pure value'
  have both := reads.bind last
  rw [List.append_nil] at both
  exact both

theorem map {reader : Reader α} {bytes : Bytes} {value : α} (reads : Reads reader bytes value)
    (change : α → β) : Reads (change <$> reader) bytes (change value) := by
  intro behind
  have first := reads behind
  simp only [Reader.run, StateT.run] at first ⊢
  simp only [Functor.map, StateT.map, Bind.bind, first]
  rfl

end Reads

/-! ## Items of fixed width -/

theorem reads_take (cut : WireError) (bytes : Bytes) :
    Reads (Reader.take cut bytes.length) bytes bytes := by
  intro behind
  simp [Reader.run, StateT.run, Reader.take]

theorem reads_number {count value : Nat} (fits : value < Nat.pow 256 count) :
    Reads (Reader.number count) (Bytes.littleEndian count value) value := by
  have taken := reads_take .unexpectedEnd (Bytes.littleEndian count value)
  rw [Bytes.length_littleEndian] at taken
  have number := taken.map Bytes.ofLittleEndian
  rw [Bytes.ofLittleEndian_littleEndian fits] at number
  exact number

theorem reads_count {count : Nat} (fits : count < UInt64.size) :
    Reads (Reader.number 8) (Bytes.littleEndian 8 count) count :=
  reads_number fits

theorem reads_word32 (value : UInt32) : Reads Reader.word32 (word32 value) value := by
  have fits : value.toNat < Nat.pow 256 4 := value.toNat_lt
  have number := (reads_number fits).map UInt32.ofNat
  rw [UInt32.ofNat_toNat] at number
  exact number

theorem reads_word64 (value : UInt64) : Reads Reader.word64 (word64 value) value := by
  have number := (reads_count value.toNat_lt).map UInt64.ofNat
  rw [UInt64.ofNat_toNat] at number
  exact number

theorem reads_fixed {count : Nat} (bytes : FixedBytes count) :
    Reads (Reader.fixed count) bytes.toList bytes := by
  intro behind
  have taken : (bytes.toList ++ behind).take count = bytes.toList := by
    rw [List.take_left' bytes.length_toList]
  have left : (bytes.toList ++ behind).drop count = behind := by
    rw [List.drop_left' bytes.length_toList]
  simp [Reader.run, StateT.run, Reader.fixed, taken, left, bytes.length_toList]

/-! ## Items that start with a count -/

theorem reads_byteVector {bytes : Bytes} (fits : bytes.length < UInt64.size) :
    Reads Reader.byteVector (byteVector bytes) bytes :=
  (reads_count fits).bind (reads_take .unexpectedEnd bytes)

theorem reads_text {content : Bytes} (fits : content.length < UInt64.size)
    (sound : Utf8.fault? content = none) : Reads Reader.text (byteVector content) content := by
  apply (reads_count fits).bind
  apply (reads_take .textCut content).finish
  simp only [sound]

section Lists

variable {α : Type} {element : Reader α} {write : α → Bytes} {values : List α}

theorem reads_elements (reads : ∀ value ∈ values, Reads element (write value) value)
    (earlier : List α) :
    Reads (Reader.elements element values.length earlier) (values.flatMap write)
      (earlier.reverse ++ values) := by
  induction values generalizing earlier with
  | nil =>
      intro behind
      simp [Reader.run, StateT.run, Reader.elements]
  | cons value rest ih =>
      intro behind
      have first := reads value (List.mem_cons_self ..) (rest.flatMap write ++ behind)
      have later := ih (fun other mem => reads other (List.mem_cons_of_mem _ mem))
        (value :: earlier) behind
      simp only [Reader.run, StateT.run] at first later ⊢
      simp only [List.flatMap_cons, List.append_assoc, List.length_cons, Reader.elements, first]
      simpa using later

/-- What is written takes at least one byte for each element. -/
theorem length_le_flatMap (nonempty : ∀ value, 0 < (write value).length) (values : List α) :
    values.length ≤ (values.flatMap write).length := by
  induction values with
  | nil => exact Nat.le_refl 0
  | cons value rest ih =>
      have one := nonempty value
      simp only [List.flatMap_cons, List.length_append, List.length_cons]
      omega

theorem length_le_of_mem {value : α} (mem : value ∈ values) :
    (write value).length ≤ (list write values).length := by
  rcases List.append_of_mem mem with ⟨before, behind, rfl⟩
  simp only [list, List.flatMap_append, List.flatMap_cons, List.length_append]
  omega

theorem reads_list (nonempty : ∀ value, 0 < (write value).length)
    (fits : (list write values).length < UInt64.size)
    (reads : ∀ value ∈ values, Reads element (write value) value) :
    Reads (Reader.list element) (list write values) values := by
  have short : values.length < UInt64.size := by
    have atLeast := length_le_flatMap nonempty values
    simp only [list, List.length_append] at fits
    omega
  apply (reads_count short).bind
  exact reads_elements reads []

end Lists

end HeaviestChain.Wire
