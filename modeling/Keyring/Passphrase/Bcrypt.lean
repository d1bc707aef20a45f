import Keyring.Digest.Sha256
import Keyring.Error
import Keyring.Passphrase.Blowfish

/-!
The key that seals a private key, made from a passphrase and a salt: the digest
of the text that bcrypt writes for them.

The cipher that bcrypt keys reads 72 bytes: the passphrase and a zero byte, over
and over. A passphrase that does not fit in there with its zero byte is refused,
so none is cut off.
-/

namespace Keyring.Bcrypt

def name : String := "bcrypt"

def saltLength : Nat := 16

/-- The binary logarithm of the number of times that the key is mixed in. -/
def cost : Nat := 12

def keyMaterialLength : Nat := 4 * Blowfish.keyCount

def maxPassphraseLength : Nat := keyMaterialLength - 1

/-- The first `count` bytes of a string that is repeated without end. -/
def cycle (bytes : Bytes) (count : Nat) : Bytes :=
  (List.range count).map fun i => bytes.getD (i % bytes.length) 0

def keyMaterial (passphrase : Bytes) : Bytes :=
  cycle (passphrase ++ [0]) keyMaterialLength

def plaintext : List UInt64 :=
  wordsOfBytes64 (Bytes.ofString "OrpheanBeholderScryDoubt")

def encipherings : Nat := 64

/-- The raw output, of which the last byte is dropped by custom. -/
def digest (passphrase : Bytes) (salt : Block saltLength) : Bytes :=
  let key := (wordsOfBytes32 (keyMaterial passphrase)).toArray
  let saltKey := (wordsOfBytes32 (cycle salt.bytes keyMaterialLength)).toArray
  let saltHalves := wordsOfBytes64 salt.bytes
  let start := Blowfish.State.initial.expand key (saltHalves.getD 0 0) (saltHalves.getD 1 0)
  let state := Blowfish.State.expandMany (Nat.pow 2 cost) start key saltKey
  (plaintext.flatMap fun block =>
    bytesOfWord64 (state.encipherMany encipherings block)).take 23

/-- The characters of the text form in the order of their values. -/
def alphabet : List Char :=
  "./ABCDEFGHIJKLMNOPQRSTUVWXYZabcdefghijklmnopqrstuvwxyz0123456789".toList

def symbol (value : UInt8) : Char :=
  alphabet.getD (value &&& 0x3f).toNat '.'

/-- Bytes as characters of six bits, without padding. -/
def encode : Bytes → List Char
  | [] => []
  | [a] => [symbol (a >>> 2), symbol (a <<< 4)]
  | [a, b] => [symbol (a >>> 2), symbol (a <<< 4 ||| b >>> 4), symbol (b <<< 2)]
  | a :: b :: c :: rest =>
    symbol (a >>> 2) :: symbol (a <<< 4 ||| b >>> 4) :: symbol (b <<< 2 ||| c >>> 6) ::
      symbol c :: encode rest

/-- The text form: the version, the cost, the salt and the output. -/
def text (passphrase : Bytes) (salt : Block saltLength) : String :=
  "$2a$12$" ++ String.ofList (encode salt.bytes ++ encode (digest passphrase salt))

/-- The sealing key of a passphrase and a salt. The length of the passphrase is
checked first. -/
def sealingKey (passphrase : String) (salt : Bytes) : Except KeyError (Block 32) :=
  let passphrase := Bytes.ofString passphrase
  if maxPassphraseLength < passphrase.length then .error (.passphraseTooLong passphrase.length)
  else
    match Block.ofBytes? saltLength salt with
    | none => .error .badSalt
    | some salt => .ok (Sha256.digest (Bytes.ofString (text passphrase salt)))

end Keyring.Bcrypt
