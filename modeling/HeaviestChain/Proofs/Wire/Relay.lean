import HeaviestChain.Proofs.Wire.RoundTrip
import HeaviestChain.Proofs.Wire.Taking

/-!
# Messages that are read and written again

What a frame says is written again in the one form that numbers have, so the new frame differs from
the old one only in the spelling of numbers and in what stood behind the content.  A number is never
written with more digits than it was read with; but it is always written with the mark, which may
have been missing.  So a message grows by at most two bytes for each number that came without the
mark, and that is the only way in which a frame that was small enough can become too large.
-/

namespace HeaviestChain

open Wire

/-! ## Wide numbers -/

namespace Wire.WideNumber

theorem digit_lt_of_symbol {byte : UInt8} {digit : Nat} (isDigit : symbol byte = .digit digit) :
    digit < 16 := by
  simp only [symbol, UInt8.le_iff_toNat_le, UInt8.reduceToNat] at isDigit
  split at isDigit
  case isTrue =>
      cases isDigit
      omega
  case isFalse =>
      split at isDigit
      case isTrue =>
          cases isDigit
          omega
      case isFalse =>
          split at isDigit
          case isTrue =>
              cases isDigit
              omega
          case isFalse =>
              split at isDigit
              case isTrue => cases isDigit
              case isFalse => cases isDigit

/-- What the characters read so far come to, counting a digit that waits for its partner. -/
def reached (value : Nat) : Option Nat → Nat
  | none => value
  | some half => 16 * value + half

/-- Each character multiplies what has been read by sixteen at most. -/
theorem parseDigits_lt {position value number : Nat} {half : Option Nat} {body : Bytes}
    (parsed : parseDigits position value half body = .ok number) :
    number < (reached value half + 1) * 16 ^ body.length := by
  induction body generalizing position value half with
  | nil =>
      cases parsed
      cases half with
      | none => simp [reached]
      | some half =>
          simp only [reached, List.length_nil, Nat.pow_zero]
          omega
  | cons byte rest ih =>
      have further {value' : Nat} {half' : Option Nat}
          (few : reached value' half' + 1 ≤ (reached value half + 1) * 16)
          (onward : parseDigits (position + 1) value' half' rest = .ok number) :
          number < (reached value half + 1) * 16 ^ (byte :: rest).length :=
        calc number < (reached value' half' + 1) * 16 ^ rest.length := ih onward
          _ ≤ (reached value half + 1) * 16 * 16 ^ rest.length := Nat.mul_le_mul_right _ few
          _ = (reached value half + 1) * 16 ^ (byte :: rest).length := by
              rw [List.length_cons, Nat.pow_succ', Nat.mul_assoc]
      simp only [parseDigits] at parsed
      split at parsed
      case h_1 low high isDigit =>
          have small := digit_lt_of_symbol isDigit
          apply further _ parsed
          simp only [reached]
          omega
      case h_2 high isDigit =>
          have small := digit_lt_of_symbol isDigit
          apply further _ parsed
          simp only [reached]
          omega
      case h_3 =>
          apply further _ parsed
          omega
      case h_4 => cases parsed

theorem lt_of_parseBody {offset number : Nat} {body : Bytes}
    (parsed : parseBody offset body = .ok number) :
    body.length ≠ 0 ∧ body.length ≤ 64 ∧ number < 16 ^ body.length := by
  simp only [parseBody] at parsed
  split at parsed
  case isTrue => cases parsed
  case isFalse bounds =>
      rw [not_or, Nat.not_lt] at bounds
      refine ⟨bounds.1, bounds.2, ?_⟩
      have bound := parseDigits_lt parsed
      split at bound
      case isTrue => simpa [reached] using bound
      case isFalse => simpa [reached] using bound

theorem exists_parseBody {characters : Bytes} {number : Nat}
    (parsed : parse characters = .ok number) :
    ∃ offset body, parseBody offset body = .ok number ∧ body.length ≤ characters.length := by
  simp only [parse] at parsed
  split at parsed
  case h_1 body =>
      refine ⟨2, body, parsed, ?_⟩
      simp only [List.length_cons]
      omega
  case h_2 => exact ⟨0, characters, parsed, Nat.le_refl _⟩

theorem lt_size_of_parse {characters : Bytes} {number : Nat}
    (parsed : parse characters = .ok number) : number < Word256.size := by
  rcases exists_parseBody parsed with ⟨offset, body, parsed, _⟩
  rcases lt_of_parseBody parsed with ⟨_, short, small⟩
  calc number < 16 ^ body.length := small
    _ ≤ 16 ^ 64 := Nat.pow_le_pow_right (by decide) short
    _ = Word256.size := by decide

/-- A number has no more digits than characters were read for it. -/
theorem length_digits_le_of_parseBody {offset number : Nat} {body : Bytes}
    (parsed : parseBody offset body = .ok number) : (digits number).length ≤ body.length := by
  rcases lt_of_parseBody parsed with ⟨nonempty, _, small⟩
  rcases Nat.exists_eq_succ_of_ne_zero nonempty with ⟨count, isLength⟩
  rw [isLength] at small ⊢
  exact length_digits_le small

/-- What is written for a number is no longer than what was read, the mark apart. -/
theorem length_format_le (spelling : Spelling) :
    (format spelling.value).length ≤
      spelling.characters.length + if spelling.isMarked then 0 else 2 := by
  have parses := spelling.parses
  have written : (format spelling.value).length = 2 + (digits spelling.value.toNat).length := by
    simp only [format, mark, List.length_append, List.length_map, List.length_cons, List.length_nil]
  split
  case isTrue marked =>
      rcases List.isPrefixOf_iff_prefix.mp marked with ⟨body, isBody⟩
      rw [← isBody] at parses ⊢
      have fewer : (digits spelling.value.toNat).length ≤ body.length :=
        length_digits_le_of_parseBody parses
      have whole : (mark ++ body).length = 2 + body.length := List.length_append
      omega
  case isFalse =>
      rcases exists_parseBody parses with ⟨offset, body, parsed, shorter⟩
      have fewer := length_digits_le_of_parseBody parsed
      omega

theorem taken {bytes rest : Bytes} {value : Word256}
    (ran : read.run bytes = .ok (value, rest)) : Taken (write value) [value] bytes rest := by
  rcases run_bind_eq_ok.mp ran with ⟨characters, middle, text, ends⟩
  rcases eq_of_text text with ⟨rfl, short⟩
  split at ends
  case h_1 => cases ends
  case h_2 number parsed =>
      rcases run_pure_eq_ok.mp ends with ⟨rfl, rfl⟩
      have whole := Word256.toNat_clamp_of_lt (lt_size_of_parse parsed)
      have parses : parse characters = .ok (Word256.clamp number).toNat := by
        rw [whole]
        exact parsed
      have number := Respelled.number ⟨_, characters, short, parses⟩ .nil
      rw [List.append_nil, List.append_nil] at number
      exact ⟨_, _, rfl, number, rfl⟩

end Wire.WideNumber

/-- How many numbers are spelled without the mark. -/
def Wire.unmarked (spellings : List Spelling) : Nat :=
  spellings.countP fun spelling => !spelling.isMarked

theorem Wire.Respelled.length_le {spellings : List Spelling} {written bytes : Bytes}
    (respelled : Respelled spellings written bytes) :
    written.length ≤ bytes.length + 2 * unmarked spellings := by
  induction respelled with
  | nil => exact Nat.le_refl _
  | byte _ _ ih =>
      simp only [List.length_cons]
      omega
  | number spelling _ ih =>
      have one := WideNumber.length_format_le spelling
      simp only [unmarked] at ih
      simp only [WideNumber.write, byteVector, List.length_append, Bytes.length_littleEndian,
        unmarked, List.countP_cons]
      split at one
      case isTrue marked =>
          simp only [marked, Bool.not_true, Bool.false_eq_true, if_false]
          omega
      case isFalse unmarked =>
          simp only [unmarked, Bool.not_false, if_true]
          omega

/-! ## Records -/

section Records

variable {bytes rest : Bytes}

theorem Coin.taken {amount : Coin} (ran : Coin.read.run bytes = .ok (amount, rest)) :
    Taken amount.write [amount.units] bytes rest := by
  rcases run_map_eq_ok.mp ran with ⟨units, read, rfl⟩
  exact WideNumber.taken read

theorem Difficulty.taken {difficulty : Difficulty}
    (ran : Difficulty.read.run bytes = .ok (difficulty, rest)) :
    Taken difficulty.write [difficulty.work] bytes rest := by
  rcases run_map_eq_ok.mp ran with ⟨work, read, rfl⟩
  exact WideNumber.taken read

theorem Timestamp.taken {moment : Timestamp}
    (ran : Timestamp.read.run bytes = .ok (moment, rest)) : Taken moment.write [] bytes rest := by
  rcases run_map_eq_ok.mp ran with ⟨seconds, read, rfl⟩
  exact taken_word64 read

theorem NetworkId.taken {network : NetworkId}
    (ran : NetworkId.read.run bytes = .ok (network, rest)) : Taken network.write [] bytes rest := by
  rcases run_map_eq_ok.mp ran with ⟨number, read, rfl⟩
  exact taken_word32 read

theorem Root.taken {root : Root} (ran : Root.read.run bytes = .ok (root, rest)) :
    Taken root.bytes.toList [] bytes rest := by
  rcases run_map_eq_ok.mp ran with ⟨fixed, read, rfl⟩
  exact taken_fixed read

theorem BlockHash.taken {hash : BlockHash} (ran : BlockHash.read.run bytes = .ok (hash, rest)) :
    Taken hash.bytes.toList [] bytes rest := by
  rcases run_map_eq_ok.mp ran with ⟨fixed, read, rfl⟩
  exact taken_fixed read

theorem Address.taken {address : Address} (ran : Address.read.run bytes = .ok (address, rest)) :
    Taken address.bytes.toList [] bytes rest := by
  rcases run_map_eq_ok.mp ran with ⟨fixed, read, rfl⟩
  exact taken_fixed read

theorem PeerId.taken {peer : PeerId} (ran : PeerId.read.run bytes = .ok (peer, rest)) :
    Taken peer.bytes.toList [] bytes rest := by
  rcases run_map_eq_ok.mp ran with ⟨fixed, read, rfl⟩
  exact taken_fixed read

theorem Status.taken {status : Status} (ran : Status.read.run bytes = .ok (status, rest)) :
    Taken status.write [] bytes rest := by
  rcases run_bind_eq_ok.mp ran with ⟨peer, _, first, afterPeer⟩
  rcases run_bind_eq_ok.mp afterPeer with ⟨network, _, second, afterNetwork⟩
  rcases run_bind_eq_ok.mp afterNetwork with ⟨best, _, third, ends⟩
  rcases run_pure_eq_ok.mp ends with ⟨rfl, rfl⟩
  exact ((PeerId.taken first).append (NetworkId.taken second)).append (taken_word64 third)

/-- The wide numbers of a transaction, in the order in which they travel. -/
def Transaction.wideNumbers (tx : Transaction) : List Word256 := [tx.value.units, tx.gasPrice.units]

theorem Transaction.taken {tx : Transaction} (ran : Transaction.read.run bytes = .ok (tx, rest)) :
    Taken tx.write tx.wideNumbers bytes rest := by
  rcases run_bind_eq_ok.mp ran with ⟨sender, _, first, afterSender⟩
  rcases run_bind_eq_ok.mp afterSender with ⟨receiver, _, second, afterReceiver⟩
  rcases run_bind_eq_ok.mp afterReceiver with ⟨value, _, third, afterValue⟩
  rcases run_bind_eq_ok.mp afterValue with ⟨nonce, _, fourth, afterNonce⟩
  rcases run_bind_eq_ok.mp afterNonce with ⟨data, _, fifth, afterData⟩
  rcases run_bind_eq_ok.mp afterData with ⟨gas, _, sixth, afterGas⟩
  rcases run_bind_eq_ok.mp afterGas with ⟨gasPrice, _, seventh, ends⟩
  rcases run_pure_eq_ok.mp ends with ⟨rfl, rfl⟩
  have front := (((Address.taken first).append (Address.taken second)).append
    (Coin.taken third)).append (taken_word64 fourth)
  have back := (taken_word64 sixth).append (Coin.taken seventh)
  exact front.append ((taken_byteVector fifth).append back)

/-- The wide number of a header. -/
def Header.wideNumbers (header : Header) : List Word256 := [header.difficulty.work]

theorem Header.taken {header : Header} (ran : Header.read.run bytes = .ok (header, rest)) :
    Taken header.write header.wideNumbers bytes rest := by
  rcases run_bind_eq_ok.mp ran with ⟨number, _, first, afterNumber⟩
  rcases run_bind_eq_ok.mp afterNumber with ⟨parentHash, _, second, afterParent⟩
  rcases run_bind_eq_ok.mp afterParent with ⟨transactionsRoot, _, third, afterTransactions⟩
  rcases run_bind_eq_ok.mp afterTransactions with ⟨unclesRoot, _, fourth, afterUncles⟩
  rcases run_bind_eq_ok.mp afterUncles with ⟨stateRoot, _, fifth, afterState⟩
  rcases run_bind_eq_ok.mp afterState with ⟨timestamp, _, sixth, afterTimestamp⟩
  rcases run_bind_eq_ok.mp afterTimestamp with ⟨coinbase, _, seventh, afterCoinbase⟩
  rcases run_bind_eq_ok.mp afterCoinbase with ⟨difficulty, _, eighth, ends⟩
  rcases run_pure_eq_ok.mp ends with ⟨rfl, rfl⟩
  have roots := ((((taken_word64 first).append (BlockHash.taken second)).append
    (Root.taken third)).append (Root.taken fourth)).append (Root.taken fifth)
  exact ((roots.append (Timestamp.taken sixth)).append (Address.taken seventh)).append
    (Difficulty.taken eighth)

/-- The wide numbers of a block, in the order in which they travel. -/
def Block.wideNumbers (block : Block) : List Word256 :=
  block.header.wideNumbers ++
    (block.uncles.flatMap Header.wideNumbers ++ block.transactions.flatMap Transaction.wideNumbers)

theorem Block.taken {block : Block} (ran : Block.read.run bytes = .ok (block, rest)) :
    Taken block.write block.wideNumbers bytes rest := by
  rcases run_bind_eq_ok.mp ran with ⟨header, _, first, afterHeader⟩
  rcases run_bind_eq_ok.mp afterHeader with ⟨uncles, _, second, afterUncles⟩
  rcases run_bind_eq_ok.mp afterUncles with ⟨transactions, _, third, ends⟩
  rcases run_pure_eq_ok.mp ends with ⟨rfl, rfl⟩
  exact (Header.taken first).append
    ((taken_list Header.taken second).append (taken_list Transaction.taken third))

end Records

/-! ## Messages -/

namespace Message

/-- The wide numbers of a message, in the order in which they travel. -/
def wideNumbers : Message → List Word256
  | block content => content.wideNumbers
  | transaction content => content.wideNumbers
  | status _ => []
  | blockByHash _ => []
  | blockByNumber _ => []

theorem taken {bytes rest : Bytes} {message : Message}
    (ran : read.run bytes = .ok (message, rest)) :
    Taken message.write message.wideNumbers bytes rest := by
  rcases run_bind_eq_ok.mp ran with ⟨index, middle, first, onward⟩
  have kind := taken_word32 first
  simp only [readContent] at onward
  split at onward
  case isTrue isBlock =>
      rcases run_map_eq_ok.mp onward with ⟨content, read, rfl⟩
      rw [isBlock] at kind
      exact kind.append (Block.taken read)
  case isFalse =>
      split at onward
      case isTrue isTransaction =>
          rcases run_map_eq_ok.mp onward with ⟨content, read, rfl⟩
          rw [isTransaction] at kind
          exact kind.append (Transaction.taken read)
      case isFalse =>
          split at onward
          case isTrue isStatus =>
              rcases run_map_eq_ok.mp onward with ⟨content, read, rfl⟩
              rw [isStatus] at kind
              exact kind.append (Status.taken read)
          case isFalse =>
              split at onward
              case isTrue isRequest =>
                  rcases run_map_eq_ok.mp onward with ⟨hash, read, rfl⟩
                  rw [isRequest] at kind
                  exact kind.append (BlockHash.taken read)
              case isFalse =>
                  split at onward
                  case isTrue isRequest =>
                      rcases run_map_eq_ok.mp onward with ⟨number, read, rfl⟩
                      rw [isRequest] at kind
                      exact kind.append (taken_word64 read)
                  case isFalse => cases onward

/-- What becomes of a message that came in some bytes when it is written again. -/
structure Relay (bytes : Bytes) (message : Message) (spellings : List Spelling) : Prop where
  /-- The bytes are what is written, but for the spelling of numbers, with anything behind. -/
  respelled : ∃ taken behind, bytes = taken ++ behind ∧ Respelled spellings message.write taken
  /-- The numbers are those of the message, each once, in their order. -/
  numbers : spellings.map (·.value) = message.wideNumbers
  /-- The message grows by at most two bytes for each number that came without the mark. -/
  growth : message.write.length ≤ bytes.length + 2 * unmarked spellings
  /-- It cannot be written only if its frame would be too large. -/
  refused : ∀ error, message.toFrame = .error error ↔
    maxFrameSize < message.write.length ∧ error = .tooLarge message.write.length
  /-- It can be written if the bytes leave room for the missing marks, -/
  room : bytes.length + 2 * unmarked spellings ≤ maxFrameSize → ∃ frame, message.toFrame = .ok frame
  /-- and so it can if no mark was missing. -/
  marked : (∀ spelling ∈ spellings, spelling.isMarked = true) → ∃ frame, message.toFrame = .ok frame
  /-- Every frame that is written for it is read back as the same message. -/
  back : ∀ frame, message.toFrame = .ok frame → ofFrame frame = .ok message

theorem ofFrame_of_toFrame {message : Message} {frame : Bytes}
    (written : message.toFrame = .ok frame) : ofFrame frame = .ok message := by
  rcases toFrame_eq_ok_iff.mp written with ⟨small, rfl⟩
  have back : ofFrame (message.write ++ []) = .ok message :=
    ofFrame_of_reads (reads_of_le small) small
  rw [List.append_nil] at back
  exact back

theorem exists_run_of_ofFrame {bytes : Bytes} {message : Message}
    (received : ofFrame bytes = .ok message) :
    bytes.length ≤ maxFrameSize ∧ ∃ rest, read.run bytes = .ok (message, rest) := by
  simp only [ofFrame] at received
  split at received
  case isTrue => cases received
  case isFalse small =>
      split at received
      case h_1 message' rest ran =>
          cases received
          exact ⟨Nat.not_lt.mp small, rest, ran⟩
      case h_2 => cases received

/-- Whatever is read can be written again and is then read back unchanged, as long as there is room
for the marks that its numbers came without. -/
theorem relay_of_ofFrame {bytes : Bytes} {message : Message}
    (received : ofFrame bytes = .ok message) : ∃ spellings, Relay bytes message spellings := by
  rcases exists_run_of_ofFrame received with ⟨small, rest, ran⟩
  rcases taken ran with ⟨spellings, taken, rfl, respelled, numbers⟩
  have growth : message.write.length ≤ (taken ++ rest).length + 2 * unmarked spellings := by
    have grown := respelled.length_le
    rw [List.length_append]
    omega
  have room (fits : (taken ++ rest).length + 2 * unmarked spellings ≤ maxFrameSize) :
      ∃ frame, message.toFrame = .ok frame :=
    ⟨_, toFrame_of_le (Nat.le_trans growth fits)⟩
  refine ⟨spellings, ⟨taken, rest, rfl, respelled⟩, numbers, growth,
    fun _ => toFrame_eq_error_iff, room, ?marked, fun _ => ofFrame_of_toFrame⟩
  case marked =>
      intro all
      apply room
      have none : unmarked spellings = 0 := by
        rw [unmarked, List.countP_eq_zero]
        intro spelling mem
        simp [all spelling mem]
      rw [none]
      exact small

/-! ## A payment without marks -/

/-- A payment of nothing with so many bytes of data. -/
def payment (size : Nat) : Message :=
  .transaction (.ofContent ⟨.zero, .zero, .zero, 0, List.replicate size 0, 0, .zero⟩)

/-- A frame of the payment in which both numbers come without the mark. -/
def unmarkedPayment (size : Nat) : Bytes :=
  word32 1 ++ (Address.zero.bytes.toList ++ (Address.zero.bytes.toList ++ (byteVector [48] ++
    (word64 0 ++ (byteVector (List.replicate size 0) ++ (word64 0 ++ byteVector [48]))))))

theorem reads_unmarkedZero : Reads Coin.read (byteVector [48]) .zero := by
  have text : Reads Reader.text (byteVector [48]) [48] := reads_text (by decide) (by decide)
  have number : Reads WideNumber.read (byteVector [48]) (.clamp 0) := text.finish rfl
  exact number.map Coin.mk

theorem reads_unmarkedPayment {size : Nat} (fits : size < UInt64.size) :
    Reads read (unmarkedPayment size) (payment size) := by
  have data : Reads Reader.byteVector (byteVector (List.replicate size 0)) (List.replicate size 0) :=
    reads_byteVector (by simpa using fits)
  apply (reads_word32 1).bind
  apply Reads.map _ transaction
  apply (Address.reads .zero).bind
  apply (Address.reads .zero).bind
  apply reads_unmarkedZero.bind
  apply (reads_word64 0).bind
  apply data.bind
  apply (reads_word64 0).bind
  exact reads_unmarkedZero.finish rfl

theorem length_unmarkedPayment (size : Nat) : (unmarkedPayment size).length = size + 86 := by
  simp [unmarkedPayment, word32, word64, byteVector, Address.zero, FixedBytes.length_toList]
  omega

theorem length_write_payment (size : Nat) : (payment size).write.length = size + 90 := by
  have number : (WideNumber.format (.clamp 0)).length = 3 := by
    simp [WideNumber.format, WideNumber.mark, WideNumber.digits]
  simp [payment, write, Transaction.write, Transaction.ofContent, Coin.write, Coin.zero,
    WideNumber.write, number, word32, word64, byteVector, Address.zero, FixedBytes.length_toList]
  omega

/-- A small payment is read although a byte stands behind its frame, and is written with both marks. -/
theorem unmarkedPayment_relayed :
    ofFrame (unmarkedPayment 3 ++ [7]) = .ok (payment 3) ∧
      ∃ spellings, Relay (unmarkedPayment 3 ++ [7]) (payment 3) spellings := by
  have received : ofFrame (unmarkedPayment 3 ++ [7]) = .ok (payment 3) := by
    apply ofFrame_of_reads (reads_unmarkedPayment (by decide))
    rw [length_unmarkedPayment]
    decide
  exact ⟨received, relay_of_ofFrame received⟩

/-- The largest frame of such a payment is read, but the payment cannot be written again, because the
two marks make it four bytes too large. -/
theorem unmarkedPayment_not_relayed :
    let frame := unmarkedPayment (maxFrameSize - 86)
    let message := payment (maxFrameSize - 86)
    frame.length = maxFrameSize ∧ ofFrame frame = .ok message ∧
      message.toFrame = .error (.tooLarge (maxFrameSize + 4)) := by
  intro frame message
  have whole : frame.length = maxFrameSize := length_unmarkedPayment _
  have received : ofFrame (frame ++ []) = .ok message := by
    apply ofFrame_of_reads (reads_unmarkedPayment (by decide))
    rw [length_unmarkedPayment]
    decide
  rw [List.append_nil] at received
  refine ⟨whole, received, toFrame_eq_error_iff.mpr ?_⟩
  rw [length_write_payment]
  decide

end Message

end HeaviestChain
