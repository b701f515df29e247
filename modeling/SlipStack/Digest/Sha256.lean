import SlipStack.Number.Numeral

/-!
# SHA-256

The digest of a byte sequence. The message is padded to whole blocks of 64 bytes, and each
block is mixed into a state of eight words in 64 rounds. All arithmetic is on words of 32
bits and wraps around.
-/

namespace SlipStack.Sha256

/-- The constants of the rounds: the fractions of the cube roots of the first primes. -/
def roundConstants : List UInt32 :=
  [0x428a2f98, 0x71374491, 0xb5c0fbcf, 0xe9b5dba5, 0x3956c25b, 0x59f111f1, 0x923f82a4,
   0xab1c5ed5, 0xd807aa98, 0x12835b01, 0x243185be, 0x550c7dc3, 0x72be5d74, 0x80deb1fe,
   0x9bdc06a7, 0xc19bf174, 0xe49b69c1, 0xefbe4786, 0x0fc19dc6, 0x240ca1cc, 0x2de92c6f,
   0x4a7484aa, 0x5cb0a9dc, 0x76f988da, 0x983e5152, 0xa831c66d, 0xb00327c8, 0xbf597fc7,
   0xc6e00bf3, 0xd5a79147, 0x06ca6351, 0x14292967, 0x27b70a85, 0x2e1b2138, 0x4d2c6dfc,
   0x53380d13, 0x650a7354, 0x766a0abb, 0x81c2c92e, 0x92722c85, 0xa2bfe8a1, 0xa81a664b,
   0xc24b8b70, 0xc76c51a3, 0xd192e819, 0xd6990624, 0xf40e3585, 0x106aa070, 0x19a4c116,
   0x1e376c08, 0x2748774c, 0x34b0bcb5, 0x391c0cb3, 0x4ed8aa4a, 0x5b9cca4f, 0x682e6ff3,
   0x748f82ee, 0x78a5636f, 0x84c87814, 0x8cc70208, 0x90befffa, 0xa4506ceb, 0xbef9a3f7,
   0xc67178f2]

/-- The eight words that blocks are mixed into. -/
structure State where
  a : UInt32
  b : UInt32
  c : UInt32
  d : UInt32
  e : UInt32
  f : UInt32
  g : UInt32
  h : UInt32
  deriving DecidableEq, Repr

namespace State

/-- The fractions of the square roots of the first eight primes. -/
def initial : State :=
  ⟨0x6a09e667, 0xbb67ae85, 0x3c6ef372, 0xa54ff53a, 0x510e527f, 0x9b05688c, 0x1f83d9ab,
    0x5be0cd19⟩

/-- The words of a state, in order. -/
def words (s : State) : List UInt32 :=
  [s.a, s.b, s.c, s.d, s.e, s.f, s.g, s.h]

/-- Adds states word by word. -/
def add (s t : State) : State :=
  ⟨s.a + t.a, s.b + t.b, s.c + t.c, s.d + t.d, s.e + t.e, s.f + t.f, s.g + t.g, s.h + t.h⟩

end State

/-- Rotates a word to the right. -/
def rotate (x : UInt32) (n : UInt32) : UInt32 :=
  (x >>> n) ||| (x <<< (32 - n))

/-- One round, with its constant and its word of the schedule. -/
def round (s : State) (constant word : UInt32) : State :=
  let sum1 := rotate s.e 6 ^^^ rotate s.e 11 ^^^ rotate s.e 25
  let choice := (s.e &&& s.f) ^^^ ((~~~s.e) &&& s.g)
  let first := s.h + sum1 + choice + constant + word
  let sum0 := rotate s.a 2 ^^^ rotate s.a 13 ^^^ rotate s.a 22
  let majority := (s.a &&& s.b) ^^^ (s.a &&& s.c) ^^^ (s.b &&& s.c)
  ⟨first + (sum0 + majority), s.a, s.b, s.c, s.d + first, s.e, s.f, s.g⟩

/-- Extends a schedule, the latest word first, by the given number of words. -/
def extend (schedule : List UInt32) : Nat → List UInt32
  | 0 => schedule
  | n + 1 =>
    let x := schedule[1]?.getD 0
    let y := schedule[14]?.getD 0
    let sigma1 := rotate x 17 ^^^ rotate x 19 ^^^ (x >>> 10)
    let sigma0 := rotate y 7 ^^^ rotate y 18 ^^^ (y >>> 3)
    let next := sigma1 + schedule[6]?.getD 0 + sigma0 + schedule[15]?.getD 0
    extend (next :: schedule) n

/-- Mixes the sixteen words of a block into a state. -/
def mix (s : State) (block : List UInt32) : State :=
  let schedule := (extend block.reverse 48).reverse
  s.add ((roundConstants.zip schedule).foldl (fun s (constant, word) => round s constant word) s)

/-! ## Bytes and words -/

/-- The bytes of a number with the most significant first. -/
def bigEndian (count n : Nat) : List UInt8 :=
  (List.range count).map fun i => UInt8.ofNat (n / 256 ^ (count - 1 - i))

/-- The message with a one bit, zeros and its length in bits after it. -/
def pad (message : List UInt8) : List UInt8 :=
  let zeros := (119 - message.length % 64) % 64
  message ++ [0x80] ++ List.replicate zeros 0 ++ bigEndian 8 (8 * message.length)

/-- Bytes as words, the most significant byte first. Left-over bytes are dropped. -/
def toWords : List UInt8 → List UInt32
  | a :: b :: c :: d :: rest =>
    ((a.toUInt32 <<< 24) ||| (b.toUInt32 <<< 16) ||| (c.toUInt32 <<< 8) ||| d.toUInt32) ::
      toWords rest
  | _ => []

/-- Mixes words into a state, sixteen at a time. -/
def mixAll (s : State) : Nat → List UInt32 → State
  | 0, _ => s
  | blocks + 1, words => mixAll (mix s (words.take 16)) blocks (words.drop 16)

/-- The digest as eight words. -/
def digest (message : List UInt8) : List UInt32 :=
  let words := toWords (pad message)
  (mixAll State.initial (words.length / 16) words).words

/-- A word as eight digits of base sixteen. -/
def hexWord (word : UInt32) : List Char :=
  (List.range 8).map fun i => Numeral.hexDigit (word.toNat / 16 ^ (7 - i) % 16)

/-- The digest of bytes in base sixteen. -/
def hex (bytes : ByteArray) : String :=
  String.ofList ((digest bytes.toList).flatMap hexWord)

end SlipStack.Sha256
