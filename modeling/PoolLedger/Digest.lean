import PoolLedger.Bytes

/-!
# SHA-256 digests

A message is padded to whole blocks of 64 bytes, each block is expanded to 64
words, and the words are folded into eight registers.  A `Digest` always has
32 bytes, whatever the message.
-/

namespace PoolLedger

/-- A string of exactly 32 bytes. -/
structure Digest where
  bytes : Bytes
  length_eq : bytes.length = 32
deriving DecidableEq

namespace Digest

def ofBytes? (bytes : Bytes) : Option Digest :=
  if length_eq : bytes.length = 32 then some ⟨bytes, length_eq⟩ else none

/-- Fractional parts of the cube roots of the first 64 primes. -/
def roundConstants : List UInt32 :=
  [0x428a2f98, 0x71374491, 0xb5c0fbcf, 0xe9b5dba5, 0x3956c25b, 0x59f111f1, 0x923f82a4, 0xab1c5ed5,
   0xd807aa98, 0x12835b01, 0x243185be, 0x550c7dc3, 0x72be5d74, 0x80deb1fe, 0x9bdc06a7, 0xc19bf174,
   0xe49b69c1, 0xefbe4786, 0x0fc19dc6, 0x240ca1cc, 0x2de92c6f, 0x4a7484aa, 0x5cb0a9dc, 0x76f988da,
   0x983e5152, 0xa831c66d, 0xb00327c8, 0xbf597fc7, 0xc6e00bf3, 0xd5a79147, 0x06ca6351, 0x14292967,
   0x27b70a85, 0x2e1b2138, 0x4d2c6dfc, 0x53380d13, 0x650a7354, 0x766a0abb, 0x81c2c92e, 0x92722c85,
   0xa2bfe8a1, 0xa81a664b, 0xc24b8b70, 0xc76c51a3, 0xd192e819, 0xd6990624, 0xf40e3585, 0x106aa070,
   0x19a4c116, 0x1e376c08, 0x2748774c, 0x34b0bcb5, 0x391c0cb3, 0x4ed8aa4a, 0x5b9cca4f, 0x682e6ff3,
   0x748f82ee, 0x78a5636f, 0x84c87814, 0x8cc70208, 0x90befffa, 0xa4506ceb, 0xbef9a3f7, 0xc67178f2]

/-- The eight words that the blocks of a message are folded into. -/
structure Registers where
  a : UInt32
  b : UInt32
  c : UInt32
  d : UInt32
  e : UInt32
  f : UInt32
  g : UInt32
  h : UInt32

/-- Fractional parts of the square roots of the first eight primes. -/
def Registers.start : Registers :=
  ⟨0x6a09e667, 0xbb67ae85, 0x3c6ef372, 0xa54ff53a, 0x510e527f, 0x9b05688c, 0x1f83d9ab, 0x5be0cd19⟩

/-- Register-wise sum of two register files, modulo 2^32. -/
def Registers.add (left right : Registers) : Registers :=
  ⟨left.a + right.a, left.b + right.b, left.c + right.c, left.d + right.d,
    left.e + right.e, left.f + right.f, left.g + right.g, left.h + right.h⟩

/-- The registers in order. -/
def Registers.words (registers : Registers) : List UInt32 :=
  [registers.a, registers.b, registers.c, registers.d,
    registers.e, registers.f, registers.g, registers.h]

/-- A word with its bits moved `count` places to the right, around the end. -/
def rotateRight (count word : UInt32) : UInt32 :=
  (word >>> count) ||| (word <<< (32 - count))

/-- The message with a marker bit, zeros and its length in bits, in whole blocks. -/
def pad (message : Bytes) : Bytes :=
  message ++ 0x80 :: (List.replicate ((119 - message.length % 64) % 64) 0 ++
    Bytes.bigEndian 8 (8 * message.length))

/-- The first `count` blocks of 64 bytes. -/
def blocks : Nat → Bytes → List Bytes
  | 0, _ => []
  | count + 1, bytes => bytes.take 64 :: blocks count (bytes.drop 64)

/-- The words of a block, four bytes each, most significant byte first. -/
def wordsOfBytes : Bytes → List UInt32
  | first :: second :: third :: fourth :: rest =>
      (first.toUInt32 <<< 24 ||| second.toUInt32 <<< 16 ||| third.toUInt32 <<< 8 |||
        fourth.toUInt32) :: wordsOfBytes rest
  | _ => []

/-- The next `count` words of the schedule, where `window` holds the next sixteen. -/
def schedule : Nat → List UInt32 → List UInt32
  | 0, _ => []
  | _ + 1, [] => []
  | count + 1, word :: window =>
      let early := window.getD 0 0
      let late := window.getD 13 0
      let mixEarly := rotateRight 7 early ^^^ rotateRight 18 early ^^^ (early >>> 3)
      let mixLate := rotateRight 17 late ^^^ rotateRight 19 late ^^^ (late >>> 10)
      word :: schedule count (window ++ [word + mixEarly + window.getD 8 0 + mixLate])

/-- One round with a constant and a word of the schedule. -/
def round (registers : Registers) (constantAndWord : UInt32 × UInt32) : Registers :=
  let ⟨a, b, c, d, e, f, g, h⟩ := registers
  let mixE := rotateRight 6 e ^^^ rotateRight 11 e ^^^ rotateRight 25 e
  let choice := (e &&& f) ^^^ (~~~e &&& g)
  let first := h + mixE + choice + constantAndWord.1 + constantAndWord.2
  let mixA := rotateRight 2 a ^^^ rotateRight 13 a ^^^ rotateRight 22 a
  let majority := (a &&& b) ^^^ (a &&& c) ^^^ (b &&& c)
  ⟨first + (mixA + majority), a, b, c, d + first, e, f, g⟩

/-- Fold one block into the registers. -/
def compress (registers : Registers) (block : Bytes) : Registers :=
  registers.add
    ((roundConstants.zip (schedule 64 (wordsOfBytes block))).foldl round registers)

/-- The registers after all blocks of a message. -/
def registersOf (message : Bytes) : Registers :=
  let padded := pad message
  (blocks (padded.length / 64) padded).foldl compress Registers.start

/-- The SHA-256 digest of a message. -/
def ofMessage (message : Bytes) : Digest where
  bytes := (registersOf message).words.flatMap fun word => Bytes.bigEndian 4 word.toNat
  length_eq := by simp [Registers.words]

end Digest

end PoolLedger
