import Keyring.Digest.Sha512
import Keyring.Key.Private
import Keyring.Mnemonic.Phrase

/-!
Trees of private keys (BIP-32). A key together with a chain code has a child for
each 32-bit number; the children of the upper half of the numbers, the hardened
ones, are made from the private key, the others from the public key.

Account keys lie at the path `m/44'/438'/account'/0/index`.
-/

namespace Keyring

open Curve

structure ChildNumber where
  raw : UInt32
  deriving DecidableEq

namespace ChildNumber

def hardenedOffset : UInt32 := 0x80000000

/-- Whether the child is made from the private key. -/
def isHardened (child : ChildNumber) : Bool :=
  hardenedOffset ≤ child.raw

/-- The hardened child with an index, which must be in the lower half. -/
def hardened (index : UInt32) : Except KeyError ChildNumber :=
  if index < hardenedOffset then .ok ⟨index ||| hardenedOffset⟩
  else .error (.indexTooLarge index)

/-- The other child with an index, which must be in the lower half. -/
def normal (index : UInt32) : Except KeyError ChildNumber :=
  if index < hardenedOffset then .ok ⟨index⟩ else .error (.indexTooLarge index)

end ChildNumber

structure ExtendedKey where
  depth : UInt8
  key : PrivateKey
  chainCode : Block 32
  deriving DecidableEq

namespace ExtendedKey

def mac (key message : Bytes) : Block (32 + 32) :=
  Sha512.function.keyed key message

/-- The key under which seeds are digested. -/
def masterLabel : Bytes := Bytes.ofString "Bitcoin seed"

def master (seed : Bytes) : Except KeyError ExtendedKey :=
  if seed.isEmpty then .error .emptySeed
  else
    let digest := mac masterLabel seed
    match Scalar.ofBlock? digest.left with
    | some _ => .ok ⟨0, ⟨digest.left⟩, digest.right⟩
    | none => .error (.derivation .unusable)

def maxDepth : UInt8 := 255

/-- What the digest for a child is made from, before the number of the child. -/
def childMaterial (parent : ExtendedKey) (child : ChildNumber) : Bytes :=
  if child.isHardened then 0 :: parent.key.secret.bytes
  else parent.key.publicPoint.compress.bytes

def child (parent : ExtendedKey) (number : ChildNumber) : Except KeyError ExtendedKey :=
  if parent.depth = maxDepth then .error (.derivation .depth)
  else
    let digest := mac parent.chainCode.bytes
      (parent.childMaterial number ++ Bytes.ofNat 4 number.raw.toNat)
    let key? := do
      let tweak ← Scalar.ofBlock? digest.left
      PrivateKey.ofScalar? (tweak + parent.key.scalar)
    match key? with
    | some key => .ok ⟨parent.depth + 1, key, digest.right⟩
    | none => .error (.derivation .unusable)

def descend (parent : ExtendedKey) : List ChildNumber → Except KeyError PrivateKey
  | [] => .ok parent.key
  | number :: rest => do
    let next ← parent.child number
    next.descend rest

end ExtendedKey

def purpose : UInt32 := 44

/-- The second number of the path, which stands for the chain. -/
def coinType : UInt32 := 438

/-- The path of an account key. The account is checked before the index. -/
def accountPath (account index : UInt32) : Except KeyError (List ChildNumber) := do
  let first ← ChildNumber.hardened purpose
  let second ← ChildNumber.hardened coinType
  let third ← ChildNumber.hardened account
  let last ← ChildNumber.normal index
  return [first, second, third, ⟨0⟩, last]

def accountKey (phrase : String) (account index : UInt32) : Except KeyError PrivateKey := do
  let path ← accountPath account index
  let root ← ExtendedKey.master (Mnemonic.seed phrase).bytes
  root.descend path

end Keyring
