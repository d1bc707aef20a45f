import Keyring.Bytes.Arithmetic
import Keyring.Bytes.Bits
import Keyring.Curve.Point

/-!
Scalars, the factors of points: numbers modulo the order of the group.

A scalar that is used as a key or as part of a signature is not zero. The
product of such scalars therefore counts as failed when a factor is zero.
-/

namespace Keyring.Curve

abbrev Scalar := Fin order

def orderBytes : Block 32 := Block.ofNat 32 order

/-- The largest number that is not above half the order. -/
def halfOrderBytes : Block 32 := Block.ofNat 32 (order / 2)

def fieldSizeBytes : Block 32 := Block.ofNat 32 fieldSize

namespace Scalar

/-- Whether a block is neither zero nor too large for a scalar that may be used
as a key. -/
def isUsable (block : Block 32) : Bool :=
  block ≠ Block.zero 32 && block.less orderBytes

def ofBlock (block : Block 32) : Scalar :=
  Fin.ofNat order block.toNat

def ofBlock? (block : Block 32) : Option Scalar :=
  if isUsable block then some (ofBlock block) else none

def toBlock (scalar : Scalar) : Block 32 :=
  Block.ofNat 32 scalar.val

/-- A digest as a number below the order. It is below twice the order, so one
subtraction is enough. -/
def reduce (digest : Digest) : Block 32 :=
  if digest.less orderBytes then digest else digest.subtract orderBytes

def multiply? (a b : Scalar) : Option Scalar :=
  if a = 0 ∨ b = 0 then none else some (a * b)

/-- The order less two, the exponent of the inverse. The last byte of the order
is above two, so it alone changes. -/
def inverseExponent : Bytes :=
  orderBytes.bytes.take 31 ++ (orderBytes.bytes.drop 31).map (· - 2)

/-- One bit of an exponent: the power so far is squared, and multiplied by the
base if the bit is set. There is no power yet before the first bit that is
set. -/
def powerStep (base : Scalar) : Option Scalar → Bool → Option (Option Scalar)
  | none, false => some none
  | none, true => some (some base)
  | some power, bit => do
    let square ← multiply? power power
    if bit then some (← multiply? square base) else some (some square)

/-- The power of a scalar along the bits of an exponent from the highest. -/
def powerAlong (base : Scalar) : Option Scalar → List Bool → Option Scalar
  | power, [] => power
  | power, bit :: rest => do
    let next ← powerStep base power bit
    powerAlong base next rest

/-- The inverse of a scalar, as the power that Fermat's little theorem names. -/
def invert? (scalar : Scalar) : Option Scalar :=
  powerAlong scalar none (Bits.ofBytes inverseExponent)

end Scalar

end Keyring.Curve
