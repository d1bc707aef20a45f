/-!
The checksum of a bech32 text.

A text spells a polynomial over the field with thirty-two elements, one
character a coefficient; the checksum makes it congruent to a constant modulo a
generator of degree six. The remainder is kept in thirty bits, five for each
coefficient.
-/

namespace Keyring.Bech32

/-- What the top coefficient adds to the remainder when it is shifted out, by
the bits of that coefficient from the lowest. -/
def generator : List UInt32 :=
  [0x3b6a57b2, 0x26508e6d, 0x1ea119fa, 0x3d4233dd, 0x2a1462b3]

/-- The bits of a coefficient from the lowest, paired with their generators,
added to a word. -/
def addGenerators (top : UInt32) : Nat → List UInt32 → UInt32 → UInt32
  | _, [], word => word
  | bit, g :: rest, word =>
    addGenerators top (bit + 1) rest
      (if (top >>> UInt32.ofNat bit) &&& 1 = 1 then word ^^^ g else word)

def shiftIn (remainder : UInt32) (value : UInt8) : UInt32 :=
  addGenerators (remainder >>> 25) 0 generator
    (((remainder &&& 0x1ffffff) <<< 5) ^^^ value.toUInt32)

def remainder (values : List UInt8) : UInt32 :=
  values.foldl shiftIn 1

/-- The coefficients that stand for the prefix: the upper bits of its
characters, a zero, and the lower five bits. -/
def expandPrefix (hrp : List UInt8) : List UInt8 :=
  hrp.map (fun b : UInt8 => b >>> 5) ++ 0 :: hrp.map (fun b : UInt8 => b &&& 0x1f)

/-- The remainder of a text with a right checksum. -/
def residue : UInt32 := 1

def checksumLength : Nat := 6

def checksum (hrp data : List UInt8) : List UInt8 :=
  let word := remainder (expandPrefix hrp ++ data ++ List.replicate checksumLength 0) ^^^
    residue
  [25, 20, 15, 10, 5, 0].map fun shift : UInt32 => ((word >>> shift) &&& 0x1f).toUInt8

/-- Whether the last six of the values are the checksum of the prefix and the
values before. -/
def verifies (hrp values : List UInt8) : Bool :=
  remainder (expandPrefix hrp ++ values) = residue

end Keyring.Bech32
