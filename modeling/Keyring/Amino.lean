import Keyring.Digest.Sha256
import Keyring.Error

/-!
Type prefixes: the bytes of a typed value start with a tag of four bytes for
the name of its type and one byte for the length of the body.

The tag is cut out of the digest of the name so that it does not start with a
zero byte.
-/

namespace Keyring.Amino

def publicKeyType : String := "tendermint/PubKeySecp256k1"

def privateKeyType : String := "tendermint/PrivKeySecp256k1"

def tagLength : Nat := 4

def prefixLength : Nat := tagLength + 1

def maxBodyLength : Nat := 33

/-- The place of the first byte that is not zero, from a given place on. -/
def firstNonzero? (bytes : Bytes) (start : Nat) : Option Nat :=
  ((bytes.drop start).findIdx? (· ≠ 0)).map (start + ·)

/-- The tag in a digest: the four bytes from the first nonzero one that lies at
least three places after the first nonzero byte of all. -/
def tagOfDigest? (digest : Bytes) : Option (Block tagLength) := do
  let first ← firstNonzero? digest 0
  let start ← firstNonzero? digest (first + 3)
  Block.ofBytes? tagLength ((digest.drop start).take tagLength)

def typeTag (typeName : String) : Except KeyError (Block tagLength) :=
  match tagOfDigest? (Sha256.digest (Bytes.ofString typeName)).bytes with
  | some tag => .ok tag
  | none => .error .noTypeTag

def prefixFor (typeName : String) (bodyLength : Nat) : Except KeyError (Block prefixLength) :=
  if maxBodyLength < bodyLength then .error (.bodyTooLong bodyLength)
  else do
    let tag ← typeTag typeName
    return tag.append (Block.ofNat 1 bodyLength)

def addPrefix (typeName : String) (body : Bytes) : Except KeyError Bytes := do
  let front ← prefixFor typeName body.length
  return front.bytes ++ body

def removePrefix (bytes : Bytes) : Except KeyError Bytes :=
  if bytes.length < prefixLength then
    .error (.wrongLength (.atLeast prefixLength) bytes.length)
  else .ok (bytes.drop prefixLength)

/-- The body behind the prefix of a type, if the bytes are that prefix and a
body of the given length. The length of both together is a word again: it wraps for the
last few sizes, where a build that checks for overflow stops. -/
def stripPrefix (typeName : String) (bytes : Bytes) (bodyLength : Size) :
    Except KeyError Bytes :=
  if bytes.length ≠ ((prefixLength : Size) + bodyLength).toNat then
    .error (.wrongLength .prefixedBody bytes.length)
  else do
    let expected ← prefixFor typeName bodyLength.toNat
    if bytes.take prefixLength ≠ expected.bytes then .error .wrongTypePrefix
    else return bytes.drop prefixLength

end Keyring.Amino
