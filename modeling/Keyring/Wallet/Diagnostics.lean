import Keyring.Wallet.Basic

/-!
The texts that stand for wallets and their parts in diagnostics. No text shows
anything of a private key or a phrase.
-/

namespace Keyring

def describeBytes (bytes : Bytes) : String :=
  "[" ++ ", ".intercalate (bytes.map fun b => toString b.toNat) ++ "]"

def describeRecord (name : String) (fields : List (String × String)) : String :=
  name ++ " \x7b " ++ ", ".intercalate (fields.map fun (key, value) => key ++ ": " ++ value) ++
    " \x7d"

def PrivateKey.describe (_ : PrivateKey) : String := "PrivateKey(<redacted>)"

def describeIdentity (name : String) (role : Role) (body : Bytes) : String :=
  describeRecord name [("kind", role.name), ("body", describeBytes body)]

def PublicKey.describe (key : PublicKey) : String :=
  describeIdentity "PubKey" key.role key.body

def Address.describe (address : Address) : String :=
  describeIdentity "Address" address.role address.body

def Wallet.describe (wallet : Wallet) : String :=
  describeRecord "KeyWallet" [("private_key", wallet.key.describe),
    ("pub_key", wallet.publicKey.describe), ("address", wallet.address.describe)]

def describeSigner (point : String) : String :=
  "EcdsaSigner \x7b public: " ++ point ++ ", .. \x7d"

def PhraseWallet.describe (_ : PhraseWallet) : String := "HdWallet \x7b .. \x7d"

end Keyring
