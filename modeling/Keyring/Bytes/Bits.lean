import Keyring.Bytes.Basic

/-!
Sequences of bits, the most significant first, as which numbers and byte strings
are regrouped.
-/

namespace Keyring

abbrev Bits := List Bool

namespace Bits

def ofNat : (width value : Nat) → Bits
  | 0, _ => []
  | width + 1, value => value.testBit width :: ofNat width value

def toNat (bits : Bits) : Nat :=
  bits.foldl (fun value bit => 2 * value + bit.toNat) 0

def ofBytes (bytes : Bytes) : Bits :=
  bytes.flatMap fun b => ofNat 8 b.toNat

def toBytes (bits : Bits) : Bytes :=
  (Bytes.chunks 8 bits).map fun group => UInt8.ofNat (toNat group)

end Bits

end Keyring
