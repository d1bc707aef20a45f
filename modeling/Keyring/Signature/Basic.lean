import Keyring.Curve.Encoding
import Keyring.Curve.Scalar
import Keyring.Error

/-!
ECDSA signatures, plain and with the id that singles out the key of the signer,
and the check of a signature against a key.
-/

namespace Keyring

open Curve

/-- A signature: the `x` of the nonce point modulo the order, and the scalar
that proves knowledge of the key. Any pair of blocks can be written down. -/
structure Signature where
  r : Block 32
  s : Block 32
  deriving DecidableEq

namespace Signature

def compactLength : Nat := 32 + 32

def ofCompact (block : Block compactLength) : Signature :=
  ⟨Block.left (n := 32) block, Block.right (m := 32) block⟩

def toCompact (signature : Signature) : Block compactLength :=
  signature.r.append signature.s

/-- Whether `s` is not above half the order. Of `s` and its negative exactly one
is not. -/
def isLow (signature : Signature) : Bool :=
  !halfOrderBytes.less signature.s

def isInRange (signature : Signature) : Bool :=
  Scalar.isUsable signature.r && Scalar.isUsable signature.s

/-- Whether the signature of a digest is valid under a public key. A signature
whose `s` is not low never is. -/
def verifies (signature : Signature) (key : AffinePoint) (digest : Digest) : Bool :=
  if signature.isInRange && signature.isLow then
    match (Scalar.ofBlock signature.s).invert? with
    | none => false
    | some w =>
      let u := Scalar.ofBlock digest * w
      let v := Scalar.ofBlock signature.r * w
      match (generatorMultiple u.val).add ((Point.affine key).multiple v.val) with
      | .infinity => false
      | .affine point => Fin.ofNat order point.x.val = Scalar.ofBlock signature.r
  else false

end Signature

/-- A signature with the id of the signer's key among those that it could be
recovered to. -/
structure RecoverableSignature where
  signature : Signature
  id : UInt8
  deriving DecidableEq

namespace RecoverableSignature

def length : Nat := Signature.compactLength + 1

def maxId : UInt8 := 3

def toBlock (recoverable : RecoverableSignature) : Block length :=
  recoverable.signature.toCompact.append ⟨[recoverable.id], rfl⟩

/-- The signature with the given bytes. The length is checked first, then the
id, then the range of the scalars. -/
def ofBytes (bytes : Bytes) : Except KeyError RecoverableSignature :=
  match Block.ofBytes? Signature.compactLength (bytes.take Signature.compactLength),
      bytes.drop Signature.compactLength with
  | some compact, [id] =>
    let signature := Signature.ofCompact compact
    if maxId < id then .error (.badRecoveryId id)
    else if !signature.isInRange then .error .badSignature
    else .ok ⟨signature, id⟩
  | _, _ => .error (.wrongLength (.exactly length) bytes.length)

end RecoverableSignature

end Keyring
