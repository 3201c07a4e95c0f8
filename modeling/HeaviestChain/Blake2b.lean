import HeaviestChain.Bytes

/-!
# Blake2b

The keyless Blake2b hash with a result of 32 bytes.  The message is cut into blocks of 128 bytes,
the last one padded with zeros; each block is mixed into eight chaining words in twelve rounds,
and a round mixes the columns and then the diagonals of a four by four grid of words.
-/

namespace HeaviestChain.Blake2b

/-- The eight words that one block hands to the next. -/
structure Chaining where
  h0 : UInt64
  h1 : UInt64
  h2 : UInt64
  h3 : UInt64
  h4 : UInt64
  h5 : UInt64
  h6 : UInt64
  h7 : UInt64

/-- The sixteen words of one message block. -/
structure MessageBlock where
  m0 : UInt64
  m1 : UInt64
  m2 : UInt64
  m3 : UInt64
  m4 : UInt64
  m5 : UInt64
  m6 : UInt64
  m7 : UInt64
  m8 : UInt64
  m9 : UInt64
  m10 : UInt64
  m11 : UInt64
  m12 : UInt64
  m13 : UInt64
  m14 : UInt64
  m15 : UInt64

/-- The four by four grid of words that the rounds mix, row by row. -/
structure Grid where
  v0 : UInt64
  v1 : UInt64
  v2 : UInt64
  v3 : UInt64
  v4 : UInt64
  v5 : UInt64
  v6 : UInt64
  v7 : UInt64
  v8 : UInt64
  v9 : UInt64
  v10 : UInt64
  v11 : UInt64
  v12 : UInt64
  v13 : UInt64
  v14 : UInt64
  v15 : UInt64

/-- One column or diagonal of the grid, from the top. -/
structure Lane where
  a : UInt64
  b : UInt64
  c : UInt64
  d : UInt64

/-- The words that start the chain; the result's length is mixed into the first one later. -/
def initial : Chaining where
  h0 := 0x6a09e667f3bcc908
  h1 := 0xbb67ae8584caa73b
  h2 := 0x3c6ef372fe94f82b
  h3 := 0xa54ff53a5f1d36f1
  h4 := 0x510e527fade682d1
  h5 := 0x9b05688c2b3e6c1f
  h6 := 0x1f83d9abfb41bd6b
  h7 := 0x5be0cd19137e2179

/-- The word turned right by `count` bits, for a count between 1 and 63. -/
@[inline] def rotateRight (word count : UInt64) : UInt64 :=
  (word >>> count) ||| (word <<< (64 - count))

/-- Mixes two message words into one column or diagonal. -/
@[inline] def mix (lane : Lane) (x y : UInt64) : Lane :=
  let a := lane.a + lane.b + x
  let d := rotateRight (lane.d ^^^ a) 32
  let c := lane.c + d
  let b := rotateRight (lane.b ^^^ c) 24
  let a := a + b + y
  let d := rotateRight (d ^^^ a) 16
  let c := c + d
  let b := rotateRight (b ^^^ c) 63
  ⟨a, b, c, d⟩

/-- One round: the four columns, then the four diagonals. -/
def round (v : Grid) (x0 x1 x2 x3 x4 x5 x6 x7 x8 x9 x10 x11 x12 x13 x14 x15 : UInt64) : Grid :=
  let c0 := mix ⟨v.v0, v.v4, v.v8, v.v12⟩ x0 x1
  let c1 := mix ⟨v.v1, v.v5, v.v9, v.v13⟩ x2 x3
  let c2 := mix ⟨v.v2, v.v6, v.v10, v.v14⟩ x4 x5
  let c3 := mix ⟨v.v3, v.v7, v.v11, v.v15⟩ x6 x7
  let d0 := mix ⟨c0.a, c1.b, c2.c, c3.d⟩ x8 x9
  let d1 := mix ⟨c1.a, c2.b, c3.c, c0.d⟩ x10 x11
  let d2 := mix ⟨c2.a, c3.b, c0.c, c1.d⟩ x12 x13
  let d3 := mix ⟨c3.a, c0.b, c1.c, c2.d⟩ x14 x15
  ⟨d0.a, d1.a, d2.a, d3.a, d3.b, d0.b, d1.b, d2.b, d2.c, d3.c, d0.c, d1.c, d1.d, d2.d, d3.d, d0.d⟩

/-- The twelve rounds; each takes the message words in an order of its own. -/
def rounds (v : Grid) (m : MessageBlock) : Grid :=
  let v := round v m.m0 m.m1 m.m2 m.m3 m.m4 m.m5 m.m6 m.m7 m.m8 m.m9 m.m10 m.m11 m.m12 m.m13 m.m14 m.m15
  let v := round v m.m14 m.m10 m.m4 m.m8 m.m9 m.m15 m.m13 m.m6 m.m1 m.m12 m.m0 m.m2 m.m11 m.m7 m.m5 m.m3
  let v := round v m.m11 m.m8 m.m12 m.m0 m.m5 m.m2 m.m15 m.m13 m.m10 m.m14 m.m3 m.m6 m.m7 m.m1 m.m9 m.m4
  let v := round v m.m7 m.m9 m.m3 m.m1 m.m13 m.m12 m.m11 m.m14 m.m2 m.m6 m.m5 m.m10 m.m4 m.m0 m.m15 m.m8
  let v := round v m.m9 m.m0 m.m5 m.m7 m.m2 m.m4 m.m10 m.m15 m.m14 m.m1 m.m11 m.m12 m.m6 m.m8 m.m3 m.m13
  let v := round v m.m2 m.m12 m.m6 m.m10 m.m0 m.m11 m.m8 m.m3 m.m4 m.m13 m.m7 m.m5 m.m15 m.m14 m.m1 m.m9
  let v := round v m.m12 m.m5 m.m1 m.m15 m.m14 m.m13 m.m4 m.m10 m.m0 m.m7 m.m6 m.m3 m.m9 m.m2 m.m8 m.m11
  let v := round v m.m13 m.m11 m.m7 m.m14 m.m12 m.m1 m.m3 m.m9 m.m5 m.m0 m.m15 m.m4 m.m8 m.m6 m.m2 m.m10
  let v := round v m.m6 m.m15 m.m14 m.m9 m.m11 m.m3 m.m0 m.m8 m.m12 m.m2 m.m13 m.m7 m.m1 m.m4 m.m10 m.m5
  let v := round v m.m10 m.m2 m.m8 m.m4 m.m7 m.m6 m.m1 m.m5 m.m15 m.m11 m.m9 m.m14 m.m3 m.m12 m.m13 m.m0
  let v := round v m.m0 m.m1 m.m2 m.m3 m.m4 m.m5 m.m6 m.m7 m.m8 m.m9 m.m10 m.m11 m.m12 m.m13 m.m14 m.m15
  let v := round v m.m14 m.m10 m.m4 m.m8 m.m9 m.m15 m.m13 m.m6 m.m1 m.m12 m.m0 m.m2 m.m11 m.m7 m.m5 m.m3
  v

/-- Mixes a block into the chaining words.  `counted` is the number of message bytes up to the end
of the block; `isLast` marks the final one. -/
def compress (h : Chaining) (m : MessageBlock) (counted : Nat) (isLast : Bool) : Chaining :=
  let low := UInt64.ofNat counted
  let high := UInt64.ofNat (counted / UInt64.size)
  let final : UInt64 := if isLast then 0xffffffffffffffff else 0
  let v := rounds
    ⟨h.h0, h.h1, h.h2, h.h3, h.h4, h.h5, h.h6, h.h7,
      initial.h0, initial.h1, initial.h2, initial.h3,
      initial.h4 ^^^ low, initial.h5 ^^^ high, initial.h6 ^^^ final, initial.h7⟩ m
  ⟨h.h0 ^^^ v.v0 ^^^ v.v8, h.h1 ^^^ v.v1 ^^^ v.v9, h.h2 ^^^ v.v2 ^^^ v.v10,
    h.h3 ^^^ v.v3 ^^^ v.v11, h.h4 ^^^ v.v4 ^^^ v.v12, h.h5 ^^^ v.v5 ^^^ v.v13,
    h.h6 ^^^ v.v6 ^^^ v.v14, h.h7 ^^^ v.v7 ^^^ v.v15⟩

/-- The word whose bytes are given, least significant first. -/
@[inline] def word (b0 b1 b2 b3 b4 b5 b6 b7 : UInt8) : UInt64 :=
  b0.toUInt64 ||| (b1.toUInt64 <<< 8) ||| (b2.toUInt64 <<< 16) ||| (b3.toUInt64 <<< 24) |||
    (b4.toUInt64 <<< 32) ||| (b5.toUInt64 <<< 40) ||| (b6.toUInt64 <<< 48) ||| (b7.toUInt64 <<< 56)

/-- The first eight bytes as a word, and the rest; bytes that are missing count as zero. -/
def takeWord : Bytes → UInt64 × Bytes
  | b0 :: b1 :: b2 :: b3 :: b4 :: b5 :: b6 :: b7 :: rest => (word b0 b1 b2 b3 b4 b5 b6 b7, rest)
  | short => (UInt64.ofNat (Bytes.ofLittleEndian short), [])

/-- The first 128 bytes as a block, and the rest; bytes that are missing count as zero. -/
def takeBlock (bytes : Bytes) : MessageBlock × Bytes :=
  let (m0, bytes) := takeWord bytes
  let (m1, bytes) := takeWord bytes
  let (m2, bytes) := takeWord bytes
  let (m3, bytes) := takeWord bytes
  let (m4, bytes) := takeWord bytes
  let (m5, bytes) := takeWord bytes
  let (m6, bytes) := takeWord bytes
  let (m7, bytes) := takeWord bytes
  let (m8, bytes) := takeWord bytes
  let (m9, bytes) := takeWord bytes
  let (m10, bytes) := takeWord bytes
  let (m11, bytes) := takeWord bytes
  let (m12, bytes) := takeWord bytes
  let (m13, bytes) := takeWord bytes
  let (m14, bytes) := takeWord bytes
  let (m15, bytes) := takeWord bytes
  (⟨m0, m1, m2, m3, m4, m5, m6, m7, m8, m9, m10, m11, m12, m13, m14, m15⟩, bytes)

/-- Mixes in all blocks of `bytes`, of which `more` precede the last one.  `counted` is the number
of bytes mixed in before, and `total` the length of the whole message. -/
def absorb (total : Nat) : (more counted : Nat) → Chaining → Bytes → Chaining
  | 0, _, h, bytes => compress h (takeBlock bytes).1 total true
  | more + 1, counted, h, bytes =>
      let (block, rest) := takeBlock bytes
      absorb total more (counted + 128) (compress h block (counted + 128) false) rest

/-- The chaining words before the first block: no key, and a result of 32 bytes. -/
def start : Chaining :=
  { initial with h0 := initial.h0 ^^^ 0x01010020 }

/-- The first 32 bytes of the chaining words. -/
def result (h : Chaining) : Bytes :=
  Bytes.littleEndian 8 h.h0.toNat ++ Bytes.littleEndian 8 h.h1.toNat ++
    Bytes.littleEndian 8 h.h2.toNat ++ Bytes.littleEndian 8 h.h3.toNat

/-- The 32-byte hash of a byte string. -/
def hash (message : Bytes) : FixedBytes 32 :=
  let total := message.length
  ⟨result (absorb total ((total - 1) / 128) 0 start message), by simp [result]⟩

end HeaviestChain.Blake2b
