import Keyring.Digest.Ripemd160
import Keyring.Identity.PublicKey

/-!
Addresses: the digest of a public key with a role, and their bech32 form.
-/

namespace Keyring

def addressLength : Nat := 20

/-- The empty address, or twenty bytes with a role. -/
inductive Address where
  | empty
  | assigned (role : Role) (body : Block addressLength)
  deriving DecidableEq

namespace Address

/-- The role of an address. The empty address counts as that of an account. -/
def role : Address → Role
  | empty => .account
  | assigned role _ => role

def body : Address → Bytes
  | empty => []
  | assigned _ body => body.bytes

def isEmpty (address : Address) : Bool :=
  address.body.isEmpty

def ofBody (role : Role) (bytes : Bytes) : Except KeyError Address :=
  match Block.ofBytes? addressLength bytes with
  | some body => .ok (assigned role body)
  | none => .error (.wrongLength (.exactly addressLength) bytes.length)

/-- The address of a public key, which has the same role. -/
def ofPublicKey (key : PublicKey) : Address :=
  assigned key.role (hash160 key.body)

/-- The role that a prefix names under a base prefix. -/
def roleOfPrefix? (base hrp : String) : Option Role := do
  let suffix ← afterFront? base hrp
  Role.ofSuffix? suffix

def ofBech32 (base text : String) : Except KeyError Address := do
  let (hrp, body) ← Bech32.decode text
  match roleOfPrefix? base hrp with
  | none => .error (.foreignPrefix hrp)
  | some role => ofBody role body

/-- The bech32 text of an address. The empty address has the empty text. -/
def toBech32 (base : String) : Address → Except KeyError String
  | empty => .ok ""
  | assigned role body => Bech32.encode (role.hrp base) body.bytes

end Address

end Keyring
