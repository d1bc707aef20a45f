import Keyring.Amino
import Keyring.Bech32.Basic
import Keyring.Identity.Role
import Keyring.Identity.TypedValue
import Keyring.Key.Private
import Keyring.Text.Base64

/-!
Public keys with a role, and their bech32 form. That form carries the type
prefix in front of the key.
-/

namespace Keyring

open Curve

/-- What follows the role in the prefix of a public key. -/
def publicKeySuffix : String := "pub"

/-- The empty public key, or a compressed one with its role. The bytes need not
encode a point. -/
inductive PublicKey where
  | empty
  | compressed (role : Role) (body : Block compressedLength)
  deriving DecidableEq

namespace PublicKey

/-- The role of a key. The empty key counts as that of an account. -/
def role : PublicKey → Role
  | empty => .account
  | compressed role _ => role

def body : PublicKey → Bytes
  | empty => []
  | compressed _ body => body.bytes

def ofBody (role : Role) (bytes : Bytes) : Except KeyError PublicKey :=
  match Block.ofBytes? compressedLength bytes with
  | some body => .ok (compressed role body)
  | none => .error (.wrongLength (.exactly compressedLength) bytes.length)

def ofPrivateKey (key : PrivateKey) : PublicKey :=
  compressed .account key.publicPoint.compress

def roleOfPrefix? (base hrp : String) : Option Role := do
  let rest ← afterFront? base hrp
  let suffix ← beforeEnd? publicKeySuffix rest
  Role.ofSuffix? suffix

/-- The key in a bech32 text, whose prefix must be the base prefix, the suffix
of a role and that of public keys. -/
def ofBech32 (base text : String) : Except KeyError PublicKey := do
  let (hrp, data) ← Bech32.decode text
  match roleOfPrefix? base hrp with
  | none => .error (.foreignPrefix hrp)
  | some role =>
    let body ← Amino.stripPrefix Amino.publicKeyType data compressedLength
    ofBody role body

/-- The bech32 text of a key. The empty key has the empty text. -/
def toBech32 (base : String) : PublicKey → Except KeyError String
  | empty => .ok ""
  | compressed role body => do
    let data ← Amino.addPrefix Amino.publicKeyType body.bytes
    Bech32.encode (role.hrp base ++ publicKeySuffix) data

def toTypedValue (key : PublicKey) : TypedValue :=
  ⟨Amino.publicKeyType, String.ofList (Base64.encode key.body)⟩

end PublicKey

end Keyring
