import Keyring.Curve.Encoding
import Keyring.Curve.Scalar
import Keyring.Error

/-!
Private keys, and the public keys that belong to them.
-/

namespace Keyring

open Curve

def privateKeyLength : Nat := 32

/-- A private key, kept as the bytes of its scalar. -/
structure PrivateKey where
  secret : Block 32
  deriving DecidableEq

namespace PrivateKey

/-- The private key with the given bytes, which must be 32 that represent a
number from one up to the order of the curve. -/
def ofBytes (bytes : Bytes) : Except KeyError PrivateKey :=
  match Block.ofBytes? 32 bytes with
  | none => .error (.wrongLength (.exactly privateKeyLength) bytes.length)
  | some secret =>
    if Scalar.isUsable secret then .ok ⟨secret⟩ else .error .privateKeyRange

def ofScalar? (scalar : Scalar) : Option PrivateKey :=
  if scalar = 0 then none else some ⟨scalar.toBlock⟩

def scalar (key : PrivateKey) : Scalar :=
  Scalar.ofBlock key.secret

/-- The public key: the multiple of the generator by the scalar. -/
def publicPoint (key : PrivateKey) : AffinePoint :=
  ((Jacobian.ofAffine generator).multiple key.scalar.val).toAffine

end PrivateKey

def publicPointOfBytes (bytes : Bytes) : Except KeyError AffinePoint :=
  if bytes.length = compressedLength ∨ bytes.length = uncompressedLength then
    match AffinePoint.ofBytes? bytes with
    | some point => .ok point
    | none => .error .notAPoint
  else
    .error (.wrongLength (.either compressedLength uncompressedLength) bytes.length)

def compressPublicKey (bytes : Bytes) : Except KeyError (Block compressedLength) := do
  let point ← publicPointOfBytes bytes
  return point.compress

end Keyring
