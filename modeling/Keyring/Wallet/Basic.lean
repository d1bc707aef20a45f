import Keyring.Identity.Address
import Keyring.Key.Derivation
import Keyring.Settings
import Keyring.Signature.Sign
import Keyring.Storage.Keystore

/-!
Wallets: a private key that signs, and a phrase from which such keys are
derived.
-/

namespace Keyring

structure Wallet where
  key : PrivateKey
  deriving DecidableEq

namespace Wallet

def ofKeyBytes (bytes : Bytes) : Except KeyError Wallet := do
  let key ← PrivateKey.ofBytes bytes
  return ⟨key⟩

def publicKey (wallet : Wallet) : PublicKey :=
  PublicKey.ofPrivateKey wallet.key

def address (wallet : Wallet) : Address :=
  Address.ofPublicKey wallet.publicKey

def addressText (wallet : Wallet) (settings : Settings) : Except KeyError String :=
  wallet.address.toBech32 settings.hrp

/-- The signature of a digest, with its recovery id, in bytes. -/
def sign (wallet : Wallet) (digest : Digest) :
    Except KeyError (Block RecoverableSignature.length) := do
  let recoverable ← wallet.key.signRecoverable digest
  return recoverable.toBlock

def exportKeystore (wallet : Wallet) (passphrase : String) (salt : Keystore.Salt)
    (nonce : Box.Nonce) : Except KeyError String := do
  let keystore ← Keystore.create wallet.key passphrase salt nonce
  return keystore.exportText

/-- Writes the keystore of the wallet to a writer, which gets nothing if there is no
keystore. -/
def exportKeystoreTo {σ : Type} [Writer σ] (wallet : Wallet) (writer : σ) (passphrase : String)
    (salt : Keystore.Salt) (nonce : Box.Nonce) : σ × Except KeyError Unit :=
  match Keystore.create wallet.key passphrase salt nonce with
  | .error e => (writer, .error e)
  | .ok keystore => keystore.exportToWriter writer

def ofKeystore (text passphrase : String) : Except KeyError Wallet := do
  let keystore ← Keystore.load text
  let key ← keystore.unlock passphrase
  return ⟨key⟩

def ofKeystoreBytes (bytes : Bytes) (passphrase : String) : Except KeyError Wallet := do
  let keystore ← Keystore.loadBytes bytes
  let key ← keystore.unlock passphrase
  return ⟨key⟩

end Wallet

/-- A phrase from which wallets are derived. It need not be a mnemonic. -/
structure PhraseWallet where
  phrase : String
  deriving DecidableEq

def PhraseWallet.derive (source : PhraseWallet) (account index : UInt32) :
    Except KeyError Wallet := do
  let key ← accountKey source.phrase account index
  return ⟨key⟩

end Keyring
