import HeaviestChain.Proofs.Wire.Reader
import HeaviestChain.Wire.Frame
import Mathlib.Algebra.Order.Group.Nat

/-!
# Messages are read back as they were written

Each record is read back from its written form, field by field, with any bytes behind it.  The only
thing that can go wrong on the way is a count that does not fit in 64 bits, and a frame is far too
short for that.  So a message whose frame is not too large arrives with every field unchanged, down
to the uncles and the transactions of a block.

Wide numbers travel as text and take most of the work: the digits are produced one by one from the
low end and consumed in pairs from the high end.
-/

namespace HeaviestChain

open Wire

/-! ## Wide numbers -/

namespace Wire.WideNumber

theorem digit_lt_of_mem {value digit : Nat} (mem : digit ∈ digits value) : digit < 16 := by
  fun_induction digits value with
  | case1 value small =>
      simp only [List.mem_singleton] at mem
      omega
  | case2 value large ih =>
      simp only [List.mem_append, List.mem_singleton] at mem
      rcases mem with higher | lowest
      · exact ih higher
      · omega

theorem digits_ne_nil (value : Nat) : digits value ≠ [] := by
  fun_induction digits value with
  | case1 => simp
  | case2 => simp

/-- A number below a power of sixteen has no more digits than that. -/
theorem length_digits_le {value count : Nat} (fits : value < 16 ^ (count + 1)) :
    (digits value).length ≤ count + 1 := by
  induction count generalizing value with
  | zero =>
      unfold digits
      simp only [Nat.zero_add, Nat.pow_one] at fits
      simp [fits]
  | succ count ih =>
      unfold digits
      split
      case isTrue => simp
      case isFalse =>
          have higher : value / 16 < 16 ^ (count + 1) := by
            simp only [Nat.pow_succ] at fits ⊢
            omega
          have shorter := ih higher
          simp only [List.length_append, List.length_singleton]
          omega

/-- The number that digits come to behind those that come to `high`. -/
def valueOf (high : Nat) (digits : List Nat) : Nat :=
  digits.foldl (fun high digit => 16 * high + digit) high

theorem valueOf_digits (value : Nat) : valueOf 0 (digits value) = value := by
  fun_induction digits value with
  | case1 => simp [valueOf]
  | case2 value large ih =>
      simp only [valueOf, List.foldl_append, List.foldl_cons, List.foldl_nil] at ih ⊢
      omega

theorem symbol_digitByte {digit : Nat} (small : digit < 16) :
    symbol (digitByte digit) = .digit digit := by
  have checked : ∀ digit < 16, symbol (digitByte digit) = .digit digit := by decide
  exact checked digit small

/-- Digits are read in pairs, which comes to the same as one by one.  A digit that waits for its
partner counts among the high ones. -/
theorem parseDigits_digitBytes {digits : List Nat} (small : ∀ digit ∈ digits, digit < 16)
    (position value : Nat) :
    (digits.length % 2 = 0 →
        parseDigits position value none (digits.map digitByte) = .ok (valueOf value digits)) ∧
      (digits.length % 2 = 1 → ∀ half,
        parseDigits position value (some half) (digits.map digitByte) =
          .ok (valueOf (16 * value + half) digits)) := by
  induction digits generalizing position value with
  | nil => simp [parseDigits, valueOf]
  | cons digit rest ih =>
      have isDigit := symbol_digitByte (small digit (List.mem_cons_self ..))
      have restSmall : ∀ digit ∈ rest, digit < 16 :=
        fun other mem => small other (List.mem_cons_of_mem _ mem)
      simp only [List.length_cons, List.map_cons, parseDigits, isDigit, valueOf, List.foldl_cons]
      constructor
      · intro even
        exact (ih restSmall (position + 1) value).2 (by omega) digit
      · intro odd half
        have pair := (ih restSmall (position + 1) (256 * value + 16 * half + digit)).1 (by omega)
        have joined : 256 * value + 16 * half + digit = 16 * (16 * value + half) + digit := by
          omega
        rw [joined] at pair ⊢
        exact pair

theorem length_digits_le_64 (value : Word256) : (digits value.toNat).length ≤ 64 := by
  apply length_digits_le
  exact value.toNat_lt

theorem parse_format (value : Word256) : parse (format value) = .ok value.toNat := by
  have short := length_digits_le_64 value
  have nonempty := List.length_pos_iff.mpr (digits_ne_nil value.toNat)
  have small : ∀ digit ∈ digits value.toNat, digit < 16 := fun _ => digit_lt_of_mem
  have parsed := parseDigits_digitBytes small 2 0
  have wholeBody : ¬((digits value.toNat).length = 0 ∨ 64 < (digits value.toNat).length) := by
    omega
  simp only [format, mark, List.cons_append, List.nil_append, parse, parseBody, List.length_map,
    wholeBody, if_false]
  simp only [Nat.mul_zero, Nat.zero_add] at parsed
  split
  case isTrue odd =>
      rw [parsed.2 odd 0, valueOf_digits]
  case isFalse notOdd =>
      rw [parsed.1 (by omega), valueOf_digits]

theorem ascii_format (value : Word256) : ∀ byte ∈ format value, byte < 0x80 := by
  have asciiDigit : ∀ digit < 16, digitByte digit < 0x80 := by decide
  intro byte mem
  simp only [format, mark, List.mem_append, List.mem_map] at mem
  rcases mem with marked | ⟨digit, isDigit, rfl⟩
  · have asciiMark : ∀ byte ∈ ([48, 120] : Bytes), byte < 0x80 :=
      List.forall_mem_cons.mpr ⟨by decide, List.forall_mem_singleton.mpr (by decide)⟩
    exact asciiMark byte marked
  · exact asciiDigit digit (digit_lt_of_mem isDigit)

theorem reads (value : Word256) : Reads read (write value) value := by
  have short := length_digits_le_64 value
  have fits : (format value).length < UInt64.size := by
    simp [format, mark, UInt64.size]
    omega
  apply (reads_text fits (Utf8.fault?_eq_none_of_ascii (ascii_format value))).finish
  simp only [parse_format, Word256.clamp_toNat]

end Wire.WideNumber

/-! ## Records -/

theorem Coin.reads (amount : Coin) : Reads Coin.read amount.write amount :=
  (WideNumber.reads amount.units).map Coin.mk

theorem Difficulty.reads (difficulty : Difficulty) :
    Reads Difficulty.read difficulty.write difficulty :=
  (WideNumber.reads difficulty.work).map Difficulty.mk

theorem Timestamp.reads (moment : Timestamp) : Reads Timestamp.read moment.write moment :=
  (reads_word64 moment.seconds).map Timestamp.mk

theorem NetworkId.reads (network : NetworkId) : Reads NetworkId.read network.write network :=
  (reads_word32 network.number).map NetworkId.mk

theorem Root.reads (root : Root) : Reads Root.read root.bytes.toList root :=
  (reads_fixed root.bytes).map Root.mk

theorem BlockHash.reads (hash : BlockHash) : Reads BlockHash.read hash.bytes.toList hash :=
  (reads_fixed hash.bytes).map BlockHash.mk

theorem Address.reads (address : Address) : Reads Address.read address.bytes.toList address :=
  (reads_fixed address.bytes).map Address.mk

theorem PeerId.reads (peer : PeerId) : Reads PeerId.read peer.bytes.toList peer :=
  (reads_fixed peer.bytes).map PeerId.mk

theorem Status.reads (status : Status) : Reads Status.read status.write status := by
  simp only [Status.write, List.append_assoc]
  apply (PeerId.reads status.peer).bind
  apply (NetworkId.reads status.network).bind
  apply (reads_word64 status.best).finish
  rfl

theorem Transaction.reads {tx : Transaction} (fits : tx.write.length < UInt64.size) :
    Reads Transaction.read tx.write tx := by
  have dataFits : tx.data.length < UInt64.size := by
    simp only [Transaction.write, byteVector, List.length_append] at fits
    omega
  simp only [Transaction.write, List.append_assoc]
  apply (Address.reads tx.sender).bind
  apply (Address.reads tx.receiver).bind
  apply (Coin.reads tx.value).bind
  apply (reads_word64 tx.nonce).bind
  apply (reads_byteVector dataFits).bind
  apply (reads_word64 tx.gas).bind
  apply (Coin.reads tx.gasPrice).finish
  exact congrArg Pure.pure (Transaction.ofContent_toTransactionContent tx)

theorem Header.reads (header : Header) : Reads Header.read header.write header := by
  simp only [Header.write, List.append_assoc]
  apply (reads_word64 header.number).bind
  apply (BlockHash.reads header.parentHash).bind
  apply (Root.reads header.transactionsRoot).bind
  apply (Root.reads header.unclesRoot).bind
  apply (Root.reads header.stateRoot).bind
  apply (Timestamp.reads header.timestamp).bind
  apply (Address.reads header.coinbase).bind
  apply (Difficulty.reads header.difficulty).finish
  exact congrArg Pure.pure (Header.ofContent_toHeaderContent header)

theorem Header.length_write_pos (header : Header) : 0 < header.write.length := by
  simp only [Header.write, word64, List.length_append, Bytes.length_littleEndian]
  omega

theorem Transaction.length_write_pos (tx : Transaction) : 0 < tx.write.length := by
  simp only [Transaction.write, word64, List.length_append, Bytes.length_littleEndian]
  omega

theorem Block.reads {block : Block} (fits : block.write.length < UInt64.size) :
    Reads Block.read block.write block := by
  have listsFit : (list Header.write block.uncles).length < UInt64.size ∧
      (list Transaction.write block.transactions).length < UInt64.size := by
    simp only [Block.write, List.length_append] at fits
    omega
  have transactions : ∀ tx ∈ block.transactions, Reads Transaction.read tx.write tx := by
    intro tx mem
    have shorter : tx.write.length ≤ _ := length_le_of_mem mem
    apply Transaction.reads
    omega
  apply (Header.reads block.header).bind
  apply (reads_list Header.length_write_pos listsFit.1 fun header _ => header.reads).bind
  apply (reads_list Transaction.length_write_pos listsFit.2 transactions).finish
  rfl

/-! ## Frames -/

namespace Message

theorem reads {message : Message} (fits : message.write.length < UInt64.size) :
    Reads Message.read message.write message := by
  cases message with
  | block content =>
      have contentFits : content.write.length < UInt64.size := by
        simp only [write, List.length_append] at fits
        omega
      apply (reads_word32 0).bind
      exact (Block.reads contentFits).map block
  | transaction content =>
      have contentFits : content.write.length < UInt64.size := by
        simp only [write, List.length_append] at fits
        omega
      apply (reads_word32 1).bind
      exact (Transaction.reads contentFits).map transaction
  | status content =>
      apply (reads_word32 2).bind
      exact (Status.reads content).map status
  | blockByHash hash =>
      apply (reads_word32 3).bind
      exact (BlockHash.reads hash).map blockByHash
  | blockByNumber number =>
      apply (reads_word32 4).bind
      exact (reads_word64 number).map blockByNumber

theorem toFrame_eq_error_iff {message : Message} {error : FrameError} :
    message.toFrame = .error error ↔
      maxFrameSize < message.write.length ∧ error = .tooLarge message.write.length := by
  simp only [toFrame]
  split
  case isTrue large => simp [large, eq_comm]
  case isFalse small => simp [small]

theorem toFrame_eq_ok_iff {message : Message} {frame : Bytes} :
    message.toFrame = .ok frame ↔
      message.write.length ≤ maxFrameSize ∧ frame = message.write := by
  simp only [toFrame]
  split
  case isTrue large => simp [large]
  case isFalse small => simp [Nat.not_lt.mp small, eq_comm]

theorem toFrame_of_le {message : Message} (small : message.write.length ≤ maxFrameSize) :
    message.toFrame = .ok message.write :=
  toFrame_eq_ok_iff.mpr ⟨small, rfl⟩

/-- The lengths in a frame fit in their words. -/
theorem reads_of_le {message : Message} (small : message.write.length ≤ maxFrameSize) :
    Reads read message.write message := by
  apply reads
  simp only [maxFrameSize, UInt64.size] at small ⊢
  omega

theorem ofFrame_of_reads {bytes : Bytes} {message : Message} (reads : Reads read bytes message)
    {behind : Bytes} (small : bytes.length + behind.length ≤ maxFrameSize) :
    ofFrame (bytes ++ behind) = .ok message := by
  have notTooLarge : ¬maxFrameSize < (bytes ++ behind).length := by
    rw [List.length_append]
    omega
  simp only [ofFrame, notTooLarge, if_false, reads behind]

/-- A message cannot be written only if its frame would be too large.  Otherwise the message that is
read from the frame, with any bytes behind it that leave it small enough, is the one that was
written, in every field. -/
theorem ofFrame_toFrame_append (message : Message) :
    (∀ error, message.toFrame = .error error ↔
      maxFrameSize < message.write.length ∧ error = .tooLarge message.write.length) ∧
    ∀ frame, message.toFrame = .ok frame →
      ∀ behind, frame.length + behind.length ≤ maxFrameSize →
        ofFrame (frame ++ behind) = .ok message := by
  refine ⟨fun _ => toFrame_eq_error_iff, ?_⟩
  intro frame written behind room
  rcases toFrame_eq_ok_iff.mp written with ⟨small, rfl⟩
  exact ofFrame_of_reads (reads_of_le small) room

/-- A block with an uncle of the greatest difficulty and a transaction with data. -/
def fullBlock : Message :=
  .block (.build 5 .zero
    [.ofContent ⟨4, .zero, .zero, .zero, .zero, .epoch, .zero, ⟨.clamp Word256.size⟩⟩]
    [.ofContent ⟨.zero, .zero, .ofWord 4096, 7, [0, 255, 13], 21000, .zero⟩]
    .zero .epoch .zero .one)

/-- The block is read back although three bytes stand behind its frame. -/
theorem fullBlock_read_back :
    fullBlock.toFrame = .ok fullBlock.write ∧
      fullBlock.write.length + ([1, 2, 3] : Bytes).length ≤ maxFrameSize ∧
      ofFrame (fullBlock.write ++ [1, 2, 3]) = .ok fullBlock := by
  have room : fullBlock.write.length + ([1, 2, 3] : Bytes).length ≤ maxFrameSize := by
    decide +kernel
  have written : fullBlock.toFrame = .ok fullBlock.write := toFrame_of_le (by omega)
  exact ⟨written, room, (ofFrame_toFrame_append fullBlock).2 _ written [1, 2, 3] room⟩

end Message

end HeaviestChain
