import StoreAudit.Text.Bytes

/-!
# SHA-256

The hash is a fold over bytes: a state holds the chaining words, the bytes of the unfinished block
and the number of bytes seen, so hashing in pieces and hashing at once agree by construction of the
fold (`absorb_append`). `finish` pads the last block and gives the 32 bytes of the digest.
-/

namespace StoreAudit

/-- The eight chaining words. -/
structure ChainWords where
  a : UInt32
  b : UInt32
  c : UInt32
  d : UInt32
  e : UInt32
  f : UInt32
  g : UInt32
  h : UInt32
  deriving DecidableEq, Repr

namespace ChainWords

/-- The words before the first block: fractional parts of the square roots of the first primes. -/
def initial : ChainWords :=
  ⟨0x6a09e667, 0xbb67ae85, 0x3c6ef372, 0xa54ff53a, 0x510e527f, 0x9b05688c, 0x1f83d9ab, 0x5be0cd19⟩

/-- Wordwise addition modulo 2 ^ 32. -/
def add (left right : ChainWords) : ChainWords :=
  ⟨left.a + right.a, left.b + right.b, left.c + right.c, left.d + right.d,
    left.e + right.e, left.f + right.f, left.g + right.g, left.h + right.h⟩

/-- The four bytes of a word, most significant first. -/
def wordBytes (word : UInt32) : Bytes :=
  [(word >>> 24).toUInt8, (word >>> 16).toUInt8, (word >>> 8).toUInt8, word.toUInt8]

/-- The 32 bytes of the words in order. -/
def toBytes (words : ChainWords) : Bytes :=
  [words.a, words.b, words.c, words.d, words.e, words.f, words.g, words.h].flatMap wordBytes

@[simp] theorem length_toBytes (words : ChainWords) : words.toBytes.length = 32 := rfl

end ChainWords

namespace Sha256

/-- The round constants: fractional parts of the cube roots of the first 64 primes. -/
def roundConstants : List UInt32 :=
  [0x428a2f98, 0x71374491, 0xb5c0fbcf, 0xe9b5dba5, 0x3956c25b, 0x59f111f1, 0x923f82a4, 0xab1c5ed5,
   0xd807aa98, 0x12835b01, 0x243185be, 0x550c7dc3, 0x72be5d74, 0x80deb1fe, 0x9bdc06a7, 0xc19bf174,
   0xe49b69c1, 0xefbe4786, 0x0fc19dc6, 0x240ca1cc, 0x2de92c6f, 0x4a7484aa, 0x5cb0a9dc, 0x76f988da,
   0x983e5152, 0xa831c66d, 0xb00327c8, 0xbf597fc7, 0xc6e00bf3, 0xd5a79147, 0x06ca6351, 0x14292967,
   0x27b70a85, 0x2e1b2138, 0x4d2c6dfc, 0x53380d13, 0x650a7354, 0x766a0abb, 0x81c2c92e, 0x92722c85,
   0xa2bfe8a1, 0xa81a664b, 0xc24b8b70, 0xc76c51a3, 0xd192e819, 0xd6990624, 0xf40e3585, 0x106aa070,
   0x19a4c116, 0x1e376c08, 0x2748774c, 0x34b0bcb5, 0x391c0cb3, 0x4ed8aa4a, 0x5b9cca4f, 0x682e6ff3,
   0x748f82ee, 0x78a5636f, 0x84c87814, 0x8cc70208, 0x90befffa, 0xa4506ceb, 0xbef9a3f7, 0xc67178f2]

/-- A word turned right by `count` bits, for `0 < count < 32`. -/
def rotate (word count : UInt32) : UInt32 := (word >>> count) ||| (word <<< (32 - count))

/-- The words of a block, each from four bytes, most significant first. -/
def wordsOf : Bytes → List UInt32
  | w :: x :: y :: z :: rest =>
    ((w.toUInt32 <<< 24) ||| (x.toUInt32 <<< 16) ||| (y.toUInt32 <<< 8) ||| z.toUInt32) ::
      wordsOf rest
  | _ => []

/-- The schedule word that follows sixteen earlier ones. -/
def scheduleNext (back16 back15 back7 back2 : UInt32) : UInt32 :=
  let low := rotate back15 7 ^^^ rotate back15 18 ^^^ (back15 >>> 3)
  let high := rotate back2 17 ^^^ rotate back2 19 ^^^ (back2 >>> 10)
  back16 + low + back7 + high

/-- The window of sixteen schedule words moved on by one. -/
def slide (window : List UInt32) : List UInt32 :=
  match window with
  | w0 :: w1 :: w2 :: w3 :: w4 :: w5 :: w6 :: w7 :: w8 :: w9 :: w10 :: w11 :: w12 :: w13 :: w14 ::
      w15 :: _ =>
    [w1, w2, w3, w4, w5, w6, w7, w8, w9, w10, w11, w12, w13, w14, w15, scheduleNext w0 w1 w9 w14]
  | short => short

/-- One round with its constant and schedule word. -/
def mix (state : ChainWords) (constant word : UInt32) : ChainWords :=
  let sum1 := rotate state.e 6 ^^^ rotate state.e 11 ^^^ rotate state.e 25
  let choice := (state.e &&& state.f) ^^^ ((~~~ state.e) &&& state.g)
  let first := state.h + sum1 + choice + constant + word
  let sum0 := rotate state.a 2 ^^^ rotate state.a 13 ^^^ rotate state.a 22
  let majority := (state.a &&& state.b) ^^^ (state.a &&& state.c) ^^^ (state.b &&& state.c)
  ⟨first + (sum0 + majority), state.a, state.b, state.c, state.d + first, state.e, state.f, state.g⟩

/-- The remaining rounds of a block, one for each constant. -/
def rounds (state : ChainWords) (window : List UInt32) : List UInt32 → ChainWords
  | [] => state
  | constant :: rest => rounds (mix state constant (window.headD 0)) (slide window) rest

/-- The chaining words after one more block of 64 bytes. -/
def compress (chain : ChainWords) (block : Bytes) : ChainWords :=
  chain.add (rounds chain (wordsOf block) roundConstants)

end Sha256

/-- A hash in progress: the chaining words, the unfinished block reversed with its size, and the
number of bytes absorbed. -/
structure Sha256 where
  chain : ChainWords := ChainWords.initial
  pending : Bytes := []
  room : Nat := 64
  total : Nat := 0

namespace Sha256

/-- The state before the first byte. -/
def empty : Sha256 := {}

/-- One more byte; a full block is compressed at once. -/
def push (state : Sha256) (byte : UInt8) : Sha256 :=
  match state.room with
  | 0 | 1 =>
    { chain := compress state.chain (byte :: state.pending).reverse
      pending := [], room := 64, total := state.total + 1 }
  | room + 1 =>
    { state with pending := byte :: state.pending, room := room, total := state.total + 1 }

/-- More bytes. -/
def absorb (state : Sha256) (chunk : Bytes) : Sha256 := chunk.foldl push state

/-- Absorbing two chunks is absorbing their concatenation. -/
theorem absorb_append (state : Sha256) (first second : Bytes) :
    state.absorb (first ++ second) = (state.absorb first).absorb second :=
  List.foldl_append ..

/-- What follows a message of `total` bytes: a set bit, zeros up to eight bytes before a block
boundary, and the length in bits, most significant byte first. -/
def padding (total : Nat) : Bytes :=
  (0x80 :: List.replicate ((119 - total % 64) % 64) (0 : UInt8)) ++
    ([56, 48, 40, 32, 24, 16, 8, 0].map fun shift => ((8 * total) >>> shift).toUInt8)

/-- The chaining words after the padding. -/
def finish (state : Sha256) : ChainWords := (state.absorb (padding state.total)).chain

/-- The 32 bytes of the hash of a text. -/
def hash (text : Bytes) : Bytes := (empty.absorb text).finish.toBytes

@[simp] theorem length_hash (text : Bytes) : (hash text).length = 32 := rfl

end Sha256

end StoreAudit
