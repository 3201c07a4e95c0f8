import HeaviestChain.Validity
import Mathlib.Logic.Function.Basic

/-!
# What a hash commits to

A block is known by the hash of its header, and of its uncles and transactions the header has only
the roots.  Still the hash stands for the whole block: two blocks with sound bodies and one hash are
the same block, or two different byte strings that are hashed for them have the same hash
(`Blake2b.Collision`).  Nothing is assumed of the hash function.

What is hashed can be read in one way only.  The fields of a header have fixed widths.  The data of a
transaction has not, but all other fields of it have, so the length of the whole tells the length of
the data.  Below a root stand hashes of 32 bytes.  So if no collision is found in a layer, its byte
strings are equal and the argument goes on one layer below: from the header to the roots, from the
roots to the hashes of the parts, and from these to their content.
-/

namespace HeaviestChain

/-! ## One way to read -/

namespace Bytes

theorem eq_of_bigEndian_word {left right : UInt64}
    (same : bigEndian 8 left.toNat = bigEndian 8 right.toNat) : left = right := by
  have fits (word : UInt64) : word.toNat < Nat.pow 256 8 := word.toNat_lt
  exact UInt64.toNat_inj.mp (eq_of_bigEndian_eq (fits left) (fits right) same)

theorem eq_of_bigEndian_wide {left right : Word256}
    (same : bigEndian 32 left.toNat = bigEndian 32 right.toNat) : left = right := by
  have fits (word : Word256) : word.toNat < Nat.pow 256 32 := word.toNat_lt
  exact Word256.ext (eq_of_bigEndian_eq (fits left) (fits right) same)

end Bytes

/-- The fields of a header follow each other at fixed places. -/
theorem HeaderContent.preimage_injective : Function.Injective preimage := by
  intro left right same
  simp only [preimage, List.append_assoc] at same
  rcases List.append_inj same (by simp) with ⟨number, same⟩
  rcases List.append_inj same (by simp only [FixedBytes.length_toList]) with ⟨parentHash, same⟩
  rcases List.append_inj same (by simp only [FixedBytes.length_toList]) with ⟨transactionsRoot, same⟩
  rcases List.append_inj same (by simp only [FixedBytes.length_toList]) with ⟨unclesRoot, same⟩
  rcases List.append_inj same (by simp only [FixedBytes.length_toList]) with ⟨stateRoot, same⟩
  rcases List.append_inj same (by simp) with ⟨timestamp, same⟩
  rcases List.append_inj same (by simp only [FixedBytes.length_toList]) with ⟨coinbase, difficulty⟩
  rcases left with ⟨_, ⟨_⟩, ⟨_⟩, ⟨_⟩, ⟨_⟩, ⟨_⟩, ⟨_⟩, ⟨_⟩⟩
  rcases right with ⟨_, ⟨_⟩, ⟨_⟩, ⟨_⟩, ⟨_⟩, ⟨_⟩, ⟨_⟩, ⟨_⟩⟩
  simp only [HeaderContent.mk.injEq, BlockHash.mk.injEq, Root.mk.injEq, Timestamp.mk.injEq,
    Address.mk.injEq, Difficulty.mk.injEq]
  exact ⟨Bytes.eq_of_bigEndian_word number, FixedBytes.ext parentHash,
    FixedBytes.ext transactionsRoot, FixedBytes.ext unclesRoot, FixedBytes.ext stateRoot,
    Bytes.eq_of_bigEndian_word timestamp, FixedBytes.ext coinbase,
    Bytes.eq_of_bigEndian_wide difficulty⟩

/-- The data of a transaction is as long as the whole is longer than the other fields. -/
theorem TransactionContent.preimage_injective : Function.Injective preimage := by
  intro left right same
  have sameLength : left.data.length = right.data.length := by
    have length := congrArg List.length same
    simp only [preimage, List.length_append, FixedBytes.length_toList, Bytes.length_bigEndian]
      at length
    omega
  simp only [preimage, List.append_assoc] at same
  rcases List.append_inj same (by simp only [FixedBytes.length_toList]) with ⟨sender, same⟩
  rcases List.append_inj same (by simp only [FixedBytes.length_toList]) with ⟨receiver, same⟩
  rcases List.append_inj same (by simp) with ⟨value, same⟩
  rcases List.append_inj same (by simp) with ⟨nonce, same⟩
  rcases List.append_inj same (by simp) with ⟨_, same⟩
  rcases List.append_inj same sameLength with ⟨data, same⟩
  rcases List.append_inj same (by simp) with ⟨gas, gasPrice⟩
  rcases left with ⟨⟨_⟩, ⟨_⟩, ⟨_⟩, _, _, _, ⟨_⟩⟩
  rcases right with ⟨⟨_⟩, ⟨_⟩, ⟨_⟩, _, _, _, ⟨_⟩⟩
  simp only [TransactionContent.mk.injEq, Address.mk.injEq, Coin.mk.injEq]
  exact ⟨FixedBytes.ext sender, FixedBytes.ext receiver, Bytes.eq_of_bigEndian_wide value,
    Bytes.eq_of_bigEndian_word nonce, data, Bytes.eq_of_bigEndian_word gas,
    Bytes.eq_of_bigEndian_wide gasPrice⟩

/-! ## Collisions -/

namespace Blake2b

/-- Two different byte strings, one of each list, have the same hash. -/
def Collision (left right : List Bytes) : Prop :=
  ∃ first ∈ left, ∃ second ∈ right, first ≠ second ∧ hash first = hash second

theorem Collision.mono {left right left' right' : List Bytes} (collision : Collision left right)
    (within : left ⊆ left') (within' : right ⊆ right') : Collision left' right' := by
  rcases collision with ⟨first, mem, second, mem', different, same⟩
  exact ⟨first, within mem, second, within' mem', different, same⟩

variable {α : Type} {preimage : α → Bytes} (injective : Function.Injective preimage)

include injective

theorem eq_or_collision {left right : α} (same : hash (preimage left) = hash (preimage right)) :
    left = right ∨ Collision [preimage left] [preimage right] := by
  by_cases samePreimage : preimage left = preimage right
  · exact .inl (injective samePreimage)
  · exact .inr ⟨_, List.mem_singleton_self _, _, List.mem_singleton_self _, samePreimage, same⟩

/-- Lists with the same hashes in the same order are equal, or there is a collision. -/
theorem eq_or_collision_of_map_eq {left right : List α}
    (same : left.map (fun part => hash (preimage part)) =
      right.map (fun part => hash (preimage part))) :
    left = right ∨ Collision (left.map preimage) (right.map preimage) := by
  induction left generalizing right with
  | nil =>
      cases right with
      | nil => exact .inl rfl
      | cons _ _ => cases same
  | cons first others ih =>
      cases right with
      | nil => cases same
      | cons first' others' =>
          simp only [List.map_cons, List.cons.injEq] at same
          rcases eq_or_collision injective same.1 with sameFirst | collision
          · rcases ih same.2 with sameOthers | collision
            · exact .inl (by rw [sameFirst, sameOthers])
            · exact .inr (collision.mono (List.subset_cons_self ..) (List.subset_cons_self ..))
          · exact .inr (collision.mono (by simp) (by simp))

end Blake2b

/-! ## Headers, transactions and roots -/

open Blake2b (Collision)

theorem Header.bytes_hash (header : Header) :
    header.hash.bytes = Blake2b.hash header.preimage := by
  rw [header.hash_eq]
  rfl

theorem Transaction.bytes_hash (tx : Transaction) :
    tx.hash.bytes = Blake2b.hash tx.preimage := by
  rw [tx.hash_eq]
  rfl

theorem Header.preimage_injective :
    Function.Injective fun header : Header => header.preimage :=
  fun _ _ same => Header.ext (HeaderContent.preimage_injective same)

theorem Transaction.preimage_injective :
    Function.Injective fun tx : Transaction => tx.preimage :=
  fun _ _ same => Transaction.ext (TransactionContent.preimage_injective same)

namespace Root

/-- What is hashed for the root over a list of hashes. -/
def preimage (hashes : List (FixedBytes 32)) : Bytes :=
  hashes.flatMap FixedBytes.toList

theorem preimage_injective : Function.Injective preimage :=
  fun _ _ same => FixedBytes.flatMap_toList_inj (by decide) same

variable {α : Type} (content : α → Bytes)

/-- All that is hashed for the root over parts with some content: the hashes of the parts in a row,
and each part's content. -/
def preimages (parts : List α) : List Bytes :=
  preimage (parts.map fun part => Blake2b.hash (content part)) :: parts.map content

variable {content}

/-- A root stands for the parts whose hashes it is over. -/
theorem eq_or_collision_of_ofHashes_eq (injective : Function.Injective content)
    {left right : List α}
    (same : ofHashes (left.map fun part => Blake2b.hash (content part)) =
      ofHashes (right.map fun part => Blake2b.hash (content part))) :
    left = right ∨ Collision (preimages content left) (preimages content right) := by
  rcases Blake2b.eq_or_collision preimage_injective (Root.mk.inj same) with sameHashes | collision
  · rcases Blake2b.eq_or_collision_of_map_eq injective sameHashes with sameParts | collision
    · exact .inl sameParts
    · exact .inr (collision.mono (List.subset_cons_self ..) (List.subset_cons_self ..))
  · exact .inr (collision.mono (by simp [preimages]) (by simp [preimages]))

end Root

/-! ## Blocks -/

namespace Block

/-- All that is hashed for a block: its header, and what stands behind the roots over its
transactions and its uncles. -/
def preimages (block : Block) : List Bytes :=
  block.header.preimage ::
    (Root.preimages (·.preimage) block.transactions ++ Root.preimages (·.preimage) block.uncles)

theorem checkBody_eq_ok_iff {block : Block} :
    block.checkBody = .ok () ↔ block.header.transactionsRoot = .ofTransactions block.transactions ∧
      block.header.unclesRoot = .ofUncles block.uncles := by
  simp only [checkBody, bodyFlaw?, commitsToTransactions, commitsToUncles]
  by_cases transactions : block.header.transactionsRoot = .ofTransactions block.transactions
  · by_cases uncles : block.header.unclesRoot = .ofUncles block.uncles
    · simp [transactions, uncles]
    · simp [transactions, uncles]
  · simp [transactions]

variable {left right : Block}

theorem header_eq_or_collision (same : left.hash = right.hash) :
    left.header = right.header ∨ Collision left.preimages right.preimages := by
  have sameBytes := congrArg BlockHash.bytes same
  simp only [hash, Header.bytes_hash] at sameBytes
  rcases Blake2b.eq_or_collision Header.preimage_injective sameBytes with sameHeader | collision
  · exact .inl sameHeader
  · exact .inr (collision.mono (by simp [preimages]) (by simp [preimages]))

theorem transactions_eq_or_collision
    (same : Root.ofTransactions left.transactions = .ofTransactions right.transactions) :
    left.transactions = right.transactions ∨ Collision left.preimages right.preimages := by
  simp only [Root.ofTransactions, Transaction.bytes_hash] at same
  have within (block : Block) :
      Root.preimages (·.preimage) block.transactions ⊆ block.preimages :=
    List.subset_cons_of_subset _ (List.subset_append_left ..)
  rcases Root.eq_or_collision_of_ofHashes_eq Transaction.preimage_injective same with
    sameParts | collision
  · exact .inl sameParts
  · exact .inr (collision.mono (within left) (within right))

theorem uncles_eq_or_collision (same : Root.ofUncles left.uncles = .ofUncles right.uncles) :
    left.uncles = right.uncles ∨ Collision left.preimages right.preimages := by
  simp only [Root.ofUncles, Header.bytes_hash] at same
  have within (block : Block) : Root.preimages (·.preimage) block.uncles ⊆ block.preimages :=
    List.subset_cons_of_subset _ (List.subset_append_right ..)
  rcases Root.eq_or_collision_of_ofHashes_eq Header.preimage_injective same with
    sameParts | collision
  · exact .inl sameParts
  · exact .inr (collision.mono (within left) (within right))

end Block

/-- A hash commits to everything.  Two blocks with sound bodies and the same hash have the same
header, uncles and transactions, or two different byte strings that are hashed for them collide; and
two transactions with the same hash say the same, or the byte strings hashed for them collide. -/
theorem hash_commits :
    (∀ left right : Block, left.checkBody = .ok () → right.checkBody = .ok () →
      left.hash = right.hash → left = right ∨ Collision left.preimages right.preimages) ∧
    ∀ left right : Transaction, left.hash = right.hash →
      left.toTransactionContent = right.toTransactionContent ∨
        Collision [left.preimage] [right.preimage] := by
  constructor
  · intro left right sound sound' same
    rw [Block.checkBody_eq_ok_iff] at sound sound'
    rcases Block.header_eq_or_collision same with sameHeader | collision
    · rw [← sameHeader, sound.1, sound.2] at sound'
      rcases Block.transactions_eq_or_collision sound'.1 with sameTransactions | collision
      · rcases Block.uncles_eq_or_collision sound'.2 with sameUncles | collision
        · left
          rcases left with ⟨header, uncles, transactions⟩
          rcases right with ⟨header', uncles', transactions'⟩
          cases sameHeader
          cases sameUncles
          cases sameTransactions
          rfl
        · exact .inr collision
      · exact .inr collision
    · exact .inr collision
  · intro left right same
    have sameBytes := congrArg TxHash.bytes same
    simp only [Transaction.bytes_hash] at sameBytes
    exact Blake2b.eq_or_collision TransactionContent.preimage_injective sameBytes

/-- A transaction with data, a block with it and an uncle, and the block that is put together again
from what the parts of this one say. -/
def committedCall : TransactionContent :=
  ⟨.zero, .zero, .ofWord 7, 1, [0, 255, 13], 21000, .zero⟩

def committedBlock : Block :=
  .build 3 .zero [.ofContent ⟨2, .zero, .zero, .zero, .zero, .epoch, .zero, .one⟩]
    [.ofContent committedCall] .zero .epoch .zero .one

def reassembledBlock : Block where
  header := .ofContent committedBlock.header.toHeaderContent
  uncles := committedBlock.uncles.map fun uncle => .ofContent uncle.toHeaderContent
  transactions := [.ofContent committedCall]

theorem reassembledBlock_committed :
    (committedBlock.checkBody = .ok () ∧ reassembledBlock.checkBody = .ok () ∧
      committedBlock.hash = reassembledBlock.hash) ∧
      (committedBlock = reassembledBlock ∨
        Collision committedBlock.preimages reassembledBlock.preimages) ∧
      (committedCall = (Transaction.ofContent committedCall).toTransactionContent ∨
        Collision [committedCall.preimage] [(Transaction.ofContent committedCall).preimage]) := by
  have sound : committedBlock.checkBody = .ok () := Block.checkBody_eq_ok_iff.mpr ⟨rfl, rfl⟩
  have sound' : reassembledBlock.checkBody = .ok () := Block.checkBody_eq_ok_iff.mpr ⟨rfl, rfl⟩
  exact ⟨⟨sound, sound', rfl⟩, hash_commits.1 committedBlock reassembledBlock sound sound' rfl,
    hash_commits.2 (.ofContent committedCall) (.ofContent committedCall) rfl⟩

end HeaviestChain
