import Keyring.Key.Private
import Keyring.Signature.Basic

/-!
The public key that made a signature, recovered from the signature itself.

A signature fixes the nonce point up to four possibilities: its `x` is `r` or
`r` plus the order, and its `y` is even or odd. The id of a recoverable
signature chooses among them.
-/

namespace Keyring

open Curve

namespace Signature

/-- The `x` of the nonce point for an id: `r`, or for the upper two ids `r` plus
the order, which must stay below the size of the field. -/
def nonceCoordinate? (signature : Signature) (id : UInt8) : Option (Block 32) := do
  let x ← if id &&& 2 = 0 then some signature.r else signature.r.add? orderBytes
  if x.less fieldSizeBytes then some x else none

/-- The public key under which the signature of a digest is valid and whose
nonce point is the one that the id chooses: `r⁻¹ (s R - e G)`. -/
def recover? (signature : Signature) (id : UInt8) (digest : Digest) : Option AffinePoint :=
  if RecoverableSignature.maxId < id || !signature.isInRange then none
  else do
    let x ← signature.nonceCoordinate? id
    let nonce ← AffinePoint.ofCompressed? (0x02 ||| (id &&& 1)) x
    let r ← Scalar.ofBlock? signature.r
    let s ← Scalar.ofBlock? signature.s
    let rInverse ← r.invert?
    let u ← s.multiply? rInverse
    let nonceTerm := (Point.affine nonce).multiple u.val
    let e := Scalar.reduce digest
    if e = Block.zero 32 then nonceTerm.toAffine?
    else do
      let e ← Scalar.ofBlock? e
      let v ← (-e).multiply? rInverse
      (nonceTerm.add (generatorMultiple v.val)).toAffine?

/-- The first id that recovers to a given public key. -/
def recoveryId (signature : Signature) (key : AffinePoint) (digest : Digest) :
    Except KeyError UInt8 :=
  match [0, 1, 2, 3].find? (fun id => signature.recover? id digest = some key) with
  | some id => .ok id
  | none => .error .unrecoverable

end Signature

def RecoverableSignature.recover (recoverable : RecoverableSignature) (digest : Digest) :
    Except KeyError AffinePoint :=
  match recoverable.signature.recover? recoverable.id digest with
  | some key => .ok key
  | none => .error .unrecoverable

def recoverPublicKey (bytes : Bytes) (digest : Digest) : Except KeyError AffinePoint := do
  let recoverable ← RecoverableSignature.ofBytes bytes
  recoverable.recover digest

end Keyring
