import Keyring.Digest.Basic

/-!
The stream cipher XSalsa20.

Its core mixes a square of four by four words, by columns and then by rows, ten
times over. The first half of a long nonce goes into the key that the core
derives from the given one; the second half and a counter give the blocks of
the key stream.
-/

namespace Keyring.Salsa20

/-- Four words: a row or a column of the square. -/
structure Quad where
  a : UInt32
  b : UInt32
  c : UInt32
  d : UInt32
  deriving DecidableEq

namespace Quad

def rotate (q : Quad) : Quad := ⟨q.b, q.c, q.d, q.a⟩

/-- Mixes each word with the sum of its two neighbours. -/
def mix (q : Quad) : Quad :=
  let b := q.b ^^^ rotateLeft32 (q.a + q.d) 7
  let c := q.c ^^^ rotateLeft32 (b + q.a) 9
  let d := q.d ^^^ rotateLeft32 (c + b) 13
  let a := q.a ^^^ rotateLeft32 (d + c) 18
  ⟨a, b, c, d⟩

def add (q r : Quad) : Quad := ⟨q.a + r.a, q.b + r.b, q.c + r.c, q.d + r.d⟩

def bytes (q : Quad) : Bytes := [q.a, q.b, q.c, q.d].flatMap bytesOfWord32LE

@[simp] theorem length_bytes (q : Quad) : q.bytes.length = 16 := rfl

def ofBlock (block : Block 16) : Quad :=
  let words := wordsOfBytes32LE block.bytes
  ⟨words.getD 0 0, words.getD 1 0, words.getD 2 0, words.getD 3 0⟩

end Quad

structure Square where
  w : Quad
  x : Quad
  y : Quad
  z : Quad
  deriving DecidableEq

namespace Square

def transpose (s : Square) : Square where
  w := ⟨s.w.a, s.x.a, s.y.a, s.z.a⟩
  x := ⟨s.w.b, s.x.b, s.y.b, s.z.b⟩
  y := ⟨s.w.c, s.x.c, s.y.c, s.z.c⟩
  z := ⟨s.w.d, s.x.d, s.y.d, s.z.d⟩

def mixRows (s : Square) : Square where
  w := s.w.mix
  x := s.x.rotate.mix.rotate.rotate.rotate
  y := s.y.rotate.rotate.mix.rotate.rotate
  z := s.z.rotate.rotate.rotate.mix.rotate

/-- A round over the columns and one over the rows. -/
def doubleRound (s : Square) : Square :=
  s.transpose.mixRows.transpose.mixRows

def core (s : Square) : Square :=
  (List.range 10).foldl (fun s _ => s.doubleRound) s

def add (s t : Square) : Square := ⟨s.w.add t.w, s.x.add t.x, s.y.add t.y, s.z.add t.z⟩

/-- The square of a key and sixteen bytes of input, with the constants of the
cipher on its diagonal. -/
def start (key : Block 32) (input : Block 16) : Square :=
  let k := Quad.ofBlock (key.left (m := 16) (n := 16))
  let l := Quad.ofBlock (key.right (m := 16) (n := 16))
  let n := Quad.ofBlock input
  { w := ⟨0x61707865, k.a, k.b, k.c⟩
    x := ⟨k.d, 0x3320646e, n.a, n.b⟩
    y := ⟨n.c, n.d, 0x79622d32, l.a⟩
    z := ⟨l.b, l.c, l.d, 0x6b206574⟩ }

def bytes (s : Square) : Bytes := s.w.bytes ++ s.x.bytes ++ s.y.bytes ++ s.z.bytes

end Square

/-- The key that the core derives from a key and sixteen bytes: the diagonal and
the place of the input in its result. -/
def deriveKey (key : Block 32) (input : Block 16) : Block 32 :=
  let s := (Square.start key input).core
  let k : Quad := ⟨s.w.a, s.x.b, s.y.c, s.z.d⟩
  let l : Quad := ⟨s.x.c, s.x.d, s.y.a, s.y.b⟩
  ⟨k.bytes ++ l.bytes, rfl⟩

def streamBlock (key : Block 32) (nonce : Block 8) (counter : Nat) : Bytes :=
  let s := Square.start key (nonce.append (n := 8) ⟨Bytes.ofNatLE 8 counter, by simp⟩)
  (s.add s.core).bytes

/-- The key stream from the block with a given number on, in whole blocks. -/
def streamFrom (key : Block 32) (nonce : Block 8) : (blocks counter : Nat) → Bytes
  | 0, _ => []
  | blocks + 1, counter =>
    streamBlock key nonce counter ++ streamFrom key nonce blocks (counter + 1)

def stream (key : Block 32) (nonce : Block 24) (count : Nat) : Bytes :=
  let inner := deriveKey key (nonce.left (m := 16) (n := 8))
  (streamFrom inner (nonce.right (m := 16) (n := 8)) ((count + 63) / 64) 0).take count

@[simp] theorem length_streamBlock (key : Block 32) (nonce : Block 8) (counter : Nat) :
    (streamBlock key nonce counter).length = 64 := rfl

@[simp] theorem length_streamFrom (key : Block 32) (nonce : Block 8)
    (blocks counter : Nat) : (streamFrom key nonce blocks counter).length = 64 * blocks := by
  induction blocks generalizing counter with
  | zero => rfl
  | succ blocks ih => simp only [streamFrom, List.length_append, length_streamBlock, ih]; omega

@[simp] theorem length_stream (key : Block 32) (nonce : Block 24) (count : Nat) :
    (stream key nonce count).length = count := by
  simp only [stream, List.length_take, length_streamFrom]
  omega

end Keyring.Salsa20
