import Keyring.Bytes.Basic

/-!
The checksum of armored envelopes: the remainder of the body modulo a polynomial
of degree twenty-four over the field with two elements.
-/

namespace Keyring.Armor

def checksumStart : UInt32 := 0x00b704ce

/-- The polynomial, whose topmost bit is the one that leaves the register. -/
def checksumPolynomial : UInt32 := 0x01864cfb

/-- Moves the register by one bit, and takes the polynomial off when a bit
leaves it. -/
def shiftBit (register : UInt32) : UInt32 :=
  let shifted := register <<< 1
  if shifted &&& 0x01000000 = 0 then shifted else shifted ^^^ checksumPolynomial

def takeByte (register : UInt32) (b : UInt8) : UInt32 :=
  Nat.repeat shiftBit 8 (register ^^^ b.toUInt32 <<< 16)

def crc24 (data : Bytes) : UInt32 :=
  data.foldl takeByte checksumStart &&& 0x00ffffff

def checksumBlock (data : Bytes) : Block 3 :=
  Block.ofNat 3 (crc24 data).toNat

end Keyring.Armor
