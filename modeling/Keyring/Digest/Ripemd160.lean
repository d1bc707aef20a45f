import Keyring.Digest.Sha256

/-!
The digest function RIPEMD-160, and its use on top of SHA-256.

Two lines of eighty steps run side by side over a state of five words, in five
stretches of sixteen steps; they differ in the order in which they read the
words of the block, in the rotations and in the mixing functions.
-/

namespace Keyring.Ripemd160

structure State where
  a : UInt32
  b : UInt32
  c : UInt32
  d : UInt32
  e : UInt32

def State.initial : State := ⟨0x67452301, 0xefcdab89, 0x98badcfe, 0x10325476, 0xc3d2e1f0⟩

/-- Sixteen steps: how they mix three words, what they add, which word of the
block each of them reads, and how far it rotates. -/
structure Stretch where
  mix : UInt32 → UInt32 → UInt32 → UInt32
  constant : UInt32
  order : List Nat
  rotations : List UInt32

def mixes : List (UInt32 → UInt32 → UInt32 → UInt32) := [
  fun x y z => x ^^^ y ^^^ z,
  fun x y z => (x &&& y) ||| (~~~x &&& z),
  fun x y z => (x ||| ~~~y) ^^^ z,
  fun x y z => (x &&& z) ||| (y &&& ~~~z),
  fun x y z => x ^^^ (y ||| ~~~z)]

/-- The stretches of a line from their four tables. -/
def line (mixes : List (UInt32 → UInt32 → UInt32 → UInt32)) (constants : List UInt32)
    (orders : List (List Nat)) (rotations : List (List UInt32)) : List Stretch :=
  (mixes.zip constants).zipWith (fun front back => ⟨front.1, front.2, back.1, back.2⟩)
    (orders.zip rotations)

def leftLine : List Stretch :=
  line mixes [0x00000000, 0x5a827999, 0x6ed9eba1, 0x8f1bbcdc, 0xa953fd4e]
    [[0, 1, 2, 3, 4, 5, 6, 7, 8, 9, 10, 11, 12, 13, 14, 15],
      [7, 4, 13, 1, 10, 6, 15, 3, 12, 0, 9, 5, 2, 14, 11, 8],
      [3, 10, 14, 4, 9, 15, 8, 1, 2, 7, 0, 6, 13, 11, 5, 12],
      [1, 9, 11, 10, 0, 8, 12, 4, 13, 3, 7, 15, 14, 5, 6, 2],
      [4, 0, 5, 9, 7, 12, 2, 10, 14, 1, 3, 8, 11, 6, 15, 13]]
    [[11, 14, 15, 12, 5, 8, 7, 9, 11, 13, 14, 15, 6, 7, 9, 8],
      [7, 6, 8, 13, 11, 9, 7, 15, 7, 12, 15, 9, 11, 7, 13, 12],
      [11, 13, 6, 7, 14, 9, 13, 15, 14, 8, 13, 6, 5, 12, 7, 5],
      [11, 12, 14, 15, 14, 15, 9, 8, 9, 14, 5, 6, 8, 6, 5, 12],
      [9, 15, 5, 11, 6, 8, 13, 12, 5, 12, 13, 14, 11, 8, 5, 6]]

/-- The right line, which takes the mixing functions in the opposite order. -/
def rightLine : List Stretch :=
  line mixes.reverse [0x50a28be6, 0x5c4dd124, 0x6d703ef3, 0x7a6d76e9, 0x00000000]
    [[5, 14, 7, 0, 9, 2, 11, 4, 13, 6, 15, 8, 1, 10, 3, 12],
      [6, 11, 3, 7, 0, 13, 5, 10, 14, 15, 8, 12, 4, 9, 1, 2],
      [15, 5, 1, 3, 7, 14, 6, 9, 11, 8, 12, 2, 10, 0, 4, 13],
      [8, 6, 4, 1, 3, 11, 15, 0, 5, 12, 2, 13, 9, 7, 10, 14],
      [12, 15, 10, 4, 1, 5, 8, 7, 6, 2, 13, 14, 0, 3, 9, 11]]
    [[8, 9, 9, 11, 13, 15, 15, 5, 7, 7, 8, 11, 14, 14, 12, 6],
      [9, 13, 15, 7, 12, 8, 9, 11, 7, 7, 12, 7, 6, 15, 13, 11],
      [9, 7, 15, 11, 8, 6, 6, 14, 12, 13, 5, 14, 13, 13, 7, 5],
      [15, 5, 8, 11, 14, 14, 6, 14, 6, 9, 12, 9, 12, 5, 15, 8],
      [8, 5, 12, 9, 12, 5, 14, 6, 8, 13, 6, 5, 15, 13, 11, 11]]

def State.step (stretch : Stretch) (s : State) (word rotation : UInt32) : State :=
  let sum := s.a + stretch.mix s.b s.c s.d + word + stretch.constant
  ⟨s.e, rotateLeft32 sum rotation + s.e, s.b, rotateLeft32 s.c 10, s.d⟩

def State.stretch (words : Array UInt32) (s : State) (stretch : Stretch) : State :=
  (stretch.order.zip stretch.rotations).foldl
    (fun s (i, rotation) => s.step stretch (words.getD i 0) rotation) s

def compress (s : State) (block : Bytes) : State :=
  let words := (wordsOfBytes32LE block).toArray
  let l := leftLine.foldl (State.stretch words) s
  let r := rightLine.foldl (State.stretch words) s
  ⟨s.b + l.c + r.d, s.c + l.d + r.e, s.d + l.e + r.a, s.e + l.a + r.b, s.a + l.b + r.c⟩

def digest (message : Bytes) : Block 20 :=
  let lengthField := Bytes.ofNatLE 8 (8 * message.length)
  let padded := message ++ HashFunction.completion 64 message.length lengthField
  let final := (Bytes.chunks 64 padded).foldl compress .initial
  ⟨[final.a, final.b, final.c, final.d, final.e].flatMap bytesOfWord32LE, rfl⟩

end Keyring.Ripemd160

namespace Keyring

/-- RIPEMD-160 of SHA-256, the digest that stands for a public key. -/
def hash160 (data : Bytes) : Block 20 :=
  Ripemd160.digest (Sha256.digest data).bytes

end Keyring
