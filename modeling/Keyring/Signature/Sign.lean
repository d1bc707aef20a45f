import Keyring.Signature.Nonce
import Keyring.Signature.Recovery

/-!
Signing: the signature by a given nonce, and the signature by the first nonce of
the deterministic sequence that yields one.
-/

namespace Keyring

open Curve

namespace PrivateKey

def lowered (s : Scalar) : Scalar :=
  if order / 2 < s.val then -s else s

/-- The signature of a digest by a given nonce, with low `s`. There is none if
the nonce or one of the scalars would be zero. -/
def signWith? (key : PrivateKey) (digest : Digest) (nonce : Scalar) : Option Signature := do
  let inverse ← nonce.invert?
  let point ← (generatorMultiple nonce.val).toAffine?
  let r : Scalar := Fin.ofNat order point.x.val
  let s := inverse * (Scalar.ofBlock digest + r * key.scalar)
  if r = 0 ∨ s = 0 then none else some ⟨r.toBlock, (lowered s).toBlock⟩

/-- The signature by the first usable nonce among the next ones of a source. -/
def signFrom? (key : PrivateKey) (digest : Digest) : Nat → NonceSource → Option Signature
  | 0, _ => none
  | attempts + 1, source =>
    let source := source.next
    match (Scalar.ofBlock? source.value).bind (key.signWith? digest) with
    | some signature => some signature
    | none => signFrom? key digest attempts source.retry

/-- The number of nonces that are tried. The bound is this library's own, so that signing
ends; the sequence of nonces has none. A nonce that cannot be used is as rare as a guessed
key. -/
def nonceAttempts : Nat := 64

/-- The deterministic signature of a digest, with low `s`. -/
def sign (key : PrivateKey) (digest : Digest) : Except KeyError Signature :=
  (key.signFrom? digest nonceAttempts (.seeded key.secret (Scalar.reduce digest))).elim
    (.error .unrecoverable) .ok

/-- A signature with the id that recovers to the key of the signer. -/
def attachId (key : PrivateKey) (digest : Digest) (signature : Signature) :
    Except KeyError RecoverableSignature := do
  let id ← signature.recoveryId key.publicPoint digest
  return ⟨signature, id⟩

def signRecoverable (key : PrivateKey) (digest : Digest) :
    Except KeyError RecoverableSignature := do
  let signature ← key.sign digest
  key.attachId digest signature

end PrivateKey

end Keyring
