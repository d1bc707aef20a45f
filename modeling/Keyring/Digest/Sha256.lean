import Keyring.Digest.Basic

/-!
The digest function SHA-256: a state of eight words of 32 bits, and 64 rounds
for each block of 64 bytes.
-/

namespace Keyring.Sha256

/-- One constant for each round: the first bits of the fractional parts of the
cube roots of the first 64 primes. -/
def roundConstants : List UInt32 := [
    0x428a2f98, 0x71374491, 0xb5c0fbcf, 0xe9b5dba5,
    0x3956c25b, 0x59f111f1, 0x923f82a4, 0xab1c5ed5,
    0xd807aa98, 0x12835b01, 0x243185be, 0x550c7dc3,
    0x72be5d74, 0x80deb1fe, 0x9bdc06a7, 0xc19bf174,
    0xe49b69c1, 0xefbe4786, 0x0fc19dc6, 0x240ca1cc,
    0x2de92c6f, 0x4a7484aa, 0x5cb0a9dc, 0x76f988da,
    0x983e5152, 0xa831c66d, 0xb00327c8, 0xbf597fc7,
    0xc6e00bf3, 0xd5a79147, 0x06ca6351, 0x14292967,
    0x27b70a85, 0x2e1b2138, 0x4d2c6dfc, 0x53380d13,
    0x650a7354, 0x766a0abb, 0x81c2c92e, 0x92722c85,
    0xa2bfe8a1, 0xa81a664b, 0xc24b8b70, 0xc76c51a3,
    0xd192e819, 0xd6990624, 0xf40e3585, 0x106aa070,
    0x19a4c116, 0x1e376c08, 0x2748774c, 0x34b0bcb5,
    0x391c0cb3, 0x4ed8aa4a, 0x5b9cca4f, 0x682e6ff3,
    0x748f82ee, 0x78a5636f, 0x84c87814, 0x8cc70208,
    0x90befffa, 0xa4506ceb, 0xbef9a3f7, 0xc67178f2]

structure State where
  a : UInt32
  b : UInt32
  c : UInt32
  d : UInt32
  e : UInt32
  f : UInt32
  g : UInt32
  h : UInt32

/-- The first state: the first bits of the fractional parts of the square roots
of the first eight primes. -/
def State.initial : State where
  a := 0x6a09e667
  b := 0xbb67ae85
  c := 0x3c6ef372
  d := 0xa54ff53a
  e := 0x510e527f
  f := 0x9b05688c
  g := 0x1f83d9ab
  h := 0x5be0cd19

/-- One round, which takes the sum of a round constant and a word of the schedule. -/
def State.round (s : State) (input : UInt32) : State :=
  let rotatedE := rotateRight32 s.e 6 ^^^ rotateRight32 s.e 11 ^^^ rotateRight32 s.e 25
  let choice := (s.e &&& s.f) ^^^ (~~~s.e &&& s.g)
  let first := s.h + rotatedE + choice + input
  let rotatedA := rotateRight32 s.a 2 ^^^ rotateRight32 s.a 13 ^^^ rotateRight32 s.a 22
  let majority := (s.a &&& s.b) ^^^ (s.a &&& s.c) ^^^ (s.b &&& s.c)
  ⟨first + (rotatedA + majority), s.a, s.b, s.c, s.d + first, s.e, s.f, s.g⟩

def State.add (s t : State) : State :=
  ⟨s.a + t.a, s.b + t.b, s.c + t.c, s.d + t.d, s.e + t.e, s.f + t.f, s.g + t.g, s.h + t.h⟩

def State.words (s : State) : List UInt32 :=
  [s.a, s.b, s.c, s.d, s.e, s.f, s.g, s.h]

/-- Adds words to the schedule, each from four of the sixteen before it. -/
def extendSchedule : Nat → Array UInt32 → Array UInt32
  | 0, schedule => schedule
  | count + 1, schedule =>
    let back (distance : Nat) := schedule.getD (schedule.size - distance) 0
    let near := rotateRight32 (back 2) 17 ^^^ rotateRight32 (back 2) 19 ^^^ back 2 >>> 10
    let far := rotateRight32 (back 15) 7 ^^^ rotateRight32 (back 15) 18 ^^^ back 15 >>> 3
    extendSchedule count (schedule.push (near + back 7 + far + back 16))

def compress (s : State) (block : Bytes) : State :=
  let schedule := extendSchedule 48 (wordsOfBytes32 block).toArray
  s.add ((roundConstants.zipWith (· + ·) schedule.toList).foldl State.round s)

def digest (message : Bytes) : Block 32 :=
  let lengthField := Bytes.ofNat 8 (8 * message.length)
  let padded := message ++ HashFunction.completion 64 message.length lengthField
  let final := (Bytes.chunks 64 padded).foldl compress .initial
  ⟨final.words.flatMap bytesOfWord32, rfl⟩

def function : HashFunction 32 := ⟨64, digest⟩

end Keyring.Sha256
