import Keyring.Error
import Keyring.Seal.Poly1305
import Keyring.Seal.Salsa20

/-!
Sealed boxes: a message enciphered with XSalsa20 and authenticated with
Poly1305, in the layout nonce, tag, ciphertext.

The first thirty-two bytes of the key stream are the key of the tag; the message
takes the bytes after them.
-/

namespace Keyring.Box

def nonceLength : Nat := 24

def tagLength : Nat := 16

abbrev Nonce := Block 24

/-- The key of the tag, and the key stream for a message of a given length. -/
def pads (key : Block 32) (nonce : Nonce) (length : Nat) : Block 32 × Bytes :=
  let stream := Salsa20.stream key nonce (32 + length)
  (⟨stream.take 32, by simp [stream]⟩, stream.drop 32)

def lock (key : Block 32) (nonce : Nonce) (message : Bytes) : Bytes :=
  let (tagKey, pad) := pads key nonce message.length
  let ciphertext := message.xor pad
  nonce.bytes ++ (Poly1305.tag tagKey ciphertext).bytes ++ ciphertext

/-- The message in a sealed form, if it is long enough and its tag is right. -/
def unlock (key : Block 32) (sealed : Bytes) : Except KeyError Bytes :=
  let rest := sealed.drop nonceLength
  match Block.ofBytes? 24 (sealed.take nonceLength),
      Block.ofBytes? 16 (rest.take tagLength) with
  | some nonce, some tag =>
    let ciphertext := rest.drop tagLength
    let (tagKey, pad) := pads key nonce ciphertext.length
    if Poly1305.tag tagKey ciphertext = tag then .ok (Bytes.xor ciphertext pad)
    else .error .decryptionFailed
  | _, _ => .error .decryptionFailed

end Keyring.Box
