import Keyring.Amino
import Keyring.Armor.Envelope
import Keyring.Bytes.Hex
import Keyring.Key.Private
import Keyring.Passphrase.Bcrypt
import Keyring.Seal.Box
import Keyring.Storage.Sink

/-!
Keystores: a private key in a sealed box, under a key that is made from a
passphrase and a salt. Keystores are exchanged as armored envelopes.
-/

namespace Keyring

structure Keystore where
  salt : Bytes
  salt_ne_nil : salt ≠ []
  sealedKey : Bytes
  deriving DecidableEq

namespace Keystore

def kdfHeader : String := "kdf"

def saltHeader : String := "salt"

def kdf (_ : Keystore) : String := Bcrypt.name

abbrev Salt := Block Bcrypt.saltLength

/-- The keystore of a private key under a passphrase, for a given salt and
nonce. -/
def create (key : PrivateKey) (passphrase : String) (salt : Salt) (nonce : Box.Nonce) :
    Except KeyError Keystore := do
  let sealing ← Bcrypt.sealingKey passphrase salt.bytes
  let plaintext ← Amino.addPrefix Amino.privateKeyType key.secret.bytes
  return ⟨salt.bytes, List.ne_nil_of_length_eq_add_one salt.length_bytes,
    Box.lock sealing nonce plaintext⟩

def unlock (keystore : Keystore) (passphrase : String) : Except KeyError PrivateKey := do
  let sealing ← Bcrypt.sealingKey passphrase keystore.salt
  let plaintext ← Box.unlock sealing keystore.sealedKey
  let body ← Amino.stripPrefix Amino.privateKeyType plaintext privateKeyLength
  PrivateKey.ofBytes body

def toEnvelope (keystore : Keystore) : Envelope :=
  ((Envelope.empty.withHeader kdfHeader keystore.kdf).withHeader saltHeader
    (String.ofList (Hex.encode keystore.salt))).append keystore.sealedKey

/-- The keystore in an envelope. The name of the function is checked first. -/
def ofEnvelope (envelope : Envelope) : Except KeyError Keystore :=
  let kdf := (envelope.headers.get? kdfHeader).getD ""
  if kdf ≠ Bcrypt.name then .error (.unsupportedKdf kdf)
  else
    match (envelope.headers.get? saltHeader).bind fun text => Hex.decode? text.toList with
    | none => .error .badSalt
    | some salt => if h : salt = [] then .error .badSalt else .ok ⟨salt, h, envelope.body⟩

def exportText (keystore : Keystore) : String :=
  keystore.toEnvelope.render

def load (text : String) : Except KeyError Keystore := do
  let envelope ← Envelope.parse text
  ofEnvelope envelope

def loadBytes (bytes : Bytes) : Except KeyError Keystore :=
  match bytes.toString? with
  | none => .error (.storage .notText)
  | some text => load text

/-- Writes the text of the keystore and flushes the writer. A fault of either is
passed on. -/
def exportToWriter {σ : Type} [Writer σ] (keystore : Keystore) (writer : σ) :
    σ × Except KeyError Unit :=
  match Writer.writeAll writer (Bytes.ofString keystore.exportText) with
  | (written, .error fault) => (written, .error (.storage fault))
  | (written, .ok ()) =>
    let (flushed, result) := Writer.flush written
    (flushed, result.mapError .storage)

def exportTo (keystore : Keystore) (sink : Sink) : Sink × Except KeyError Unit :=
  keystore.exportToWriter sink

end Keystore

end Keyring
