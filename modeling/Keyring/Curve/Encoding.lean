import Keyring.Bytes.Basic
import Keyring.Curve.Point

/-!
Points as byte strings.

The compressed form is `x` behind a tag that tells whether `y` is odd; the full
form is `x` and `y` behind a tag of its own. A hybrid form, both coordinates
behind a tag that also tells whether `y` is odd, is read but not written.
-/

namespace Keyring.Curve

def compressedLength : Nat := 33

def uncompressedLength : Nat := 65

namespace FieldElement

def ofBlock? (block : Block 32) : Option FieldElement :=
  if h : block.toNat < fieldSize then some ⟨block.toNat, h⟩ else none

def toBlock (x : FieldElement) : Block 32 :=
  Block.ofNat 32 x.val

end FieldElement

namespace AffinePoint

/-- The point of the curve with a given `x` whose `y` has the given parity. -/
def lift? (x : FieldElement) (odd : Bool) : Option AffinePoint :=
  let y := FieldElement.root (rightSide x)
  let point : AffinePoint := ⟨x, if y.isOdd = odd then y else -y⟩
  if point.OnCurve then some point else none

def compress (point : AffinePoint) : Block compressedLength :=
  (Block.ofNat 1 (if point.y.isOdd then 0x03 else 0x02)).append point.x.toBlock

def uncompress (point : AffinePoint) : Block uncompressedLength :=
  (Block.ofNat 1 0x04).append (point.x.toBlock.append point.y.toBlock)

def ofCompressed? (tag : UInt8) (xs : Block 32) : Option AffinePoint := do
  let x ← FieldElement.ofBlock? xs
  if tag = 0x02 then lift? x false
  else if tag = 0x03 then lift? x true
  else none

def ofUncompressed? (tag : UInt8) (xs ys : Block 32) : Option AffinePoint := do
  let x ← FieldElement.ofBlock? xs
  let y ← FieldElement.ofBlock? ys
  let tagFits := tag = 0x04 ∨ (tag = 0x06 ∧ y.isOdd = false) ∨ (tag = 0x07 ∧ y.isOdd = true)
  let point : AffinePoint := ⟨x, y⟩
  if tagFits ∧ point.OnCurve then some point else none

/-- The point of the curve that a byte string of either length encodes. -/
def ofBytes? : Bytes → Option AffinePoint
  | [] => none
  | tag :: rest =>
    match Block.ofBytes? 32 rest with
    | some xs => ofCompressed? tag xs
    | none =>
      match Block.ofBytes? (32 + 32) rest with
      | some both => ofUncompressed? tag both.left both.right
      | none => none

end AffinePoint

end Keyring.Curve
