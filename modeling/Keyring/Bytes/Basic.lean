/-!
Byte strings and their values as numbers.

A key, a digest or a coordinate is a byte string of a fixed length, read with
its most significant byte first; `Block n` is the type of those of length `n`.
The ciphers read their words the other way round, least significant byte
first.
-/

namespace Keyring

abbrev Bytes := List UInt8

/-- The length of something in memory, as a word of the machine. -/
abbrev Size := UInt64

instance : Coe Nat Size := ⟨UInt64.ofNat⟩

namespace Bytes

/-- The number whose big-endian bytes are given. -/
def toNat (bytes : Bytes) : Nat :=
  bytes.foldl (fun value b => value * 256 + b.toNat) 0

/-- The `count` low bytes of a number, most significant first. -/
def ofNat : (count value : Nat) → Bytes
  | 0, _ => []
  | count + 1, value => UInt8.ofNat (value >>> (8 * count)) :: ofNat count value

/-- The number whose little-endian bytes are given. -/
def toNatLE : Bytes → Nat
  | [] => 0
  | b :: rest => b.toNat + 256 * toNatLE rest

/-- The `count` low bytes of a number, least significant first. -/
def ofNatLE : (count value : Nat) → Bytes
  | 0, _ => []
  | count + 1, value => UInt8.ofNat value :: ofNatLE count (value / 256)

@[simp] theorem length_ofNat (count value : Nat) : (ofNat count value).length = count := by
  induction count with
  | zero => rfl
  | succ count ih => simp [ofNat, ih]

@[simp] theorem length_ofNatLE (count value : Nat) : (ofNatLE count value).length = count := by
  induction count generalizing value with
  | zero => rfl
  | succ count ih => simp [ofNatLE, ih]

def ofString (text : String) : Bytes :=
  text.toUTF8.toList

def toString? (bytes : Bytes) : Option String :=
  String.fromUTF8? bytes.toByteArray

/-- The bytes of two equally long strings combined by exclusive or. -/
def xor (left right : Bytes) : Bytes :=
  left.zipWith (· ^^^ ·) right

def chunks {α : Type} (size : Nat) (list : List α) : List (List α) :=
  if _ : list = [] ∨ size = 0 then [] else list.take size :: chunks size (list.drop size)
termination_by list.length
decreasing_by
  have : list.length ≠ 0 := by simp_all
  simp only [List.length_drop]
  omega

end Bytes

structure Block (n : Nat) where
  bytes : Bytes
  length_bytes : bytes.length = n
  deriving DecidableEq

abbrev Digest := Block 32

namespace Block

variable {n : Nat}

attribute [simp] Block.length_bytes

def ofBytes? (n : Nat) (bytes : Bytes) : Option (Block n) :=
  if h : bytes.length = n then some ⟨bytes, h⟩ else none

def toNat (block : Block n) : Nat :=
  Bytes.toNat block.bytes

def ofNat (n value : Nat) : Block n :=
  ⟨Bytes.ofNat n value, by simp⟩

def zero (n : Nat) : Block n :=
  ⟨List.replicate n 0, by simp⟩

def append {m : Nat} (left : Block m) (right : Block n) : Block (m + n) :=
  ⟨left.bytes ++ right.bytes, by simp⟩

def left {m : Nat} (block : Block (m + n)) : Block m :=
  ⟨block.bytes.take m, by simp⟩

def right {m : Nat} (block : Block (m + n)) : Block n :=
  ⟨block.bytes.drop m, by simp⟩

def xor (left right : Block n) : Block n :=
  ⟨left.bytes.xor right.bytes, by simp [Bytes.xor]⟩

end Block

end Keyring
