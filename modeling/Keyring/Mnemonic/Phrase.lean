import Keyring.Bytes.Bits
import Keyring.Digest.Keyed
import Keyring.Digest.Sha256
import Keyring.Digest.Sha512
import Keyring.Error
import Keyring.Mnemonic.WordList
import Keyring.Text.Blank

/-!
Mnemonic phrases. The words of a phrase spell some entropy and a checksum, which
is one bit of its digest for each thirty-two bits of entropy, eleven bits a word.

A phrase is read as words that white space separates, but the seed is made from
its text as it stands.
-/

namespace Keyring.Mnemonic

def wordBits : Nat := 11

def entropyBitsPerChecksumBit : Nat := 32

def wordCounts : List Nat := [12, 15, 18, 21, 24]

def checksum (entropy : Bytes) : Bits :=
  (Bits.ofBytes (Sha256.digest entropy).bytes).take
    (8 * entropy.length / entropyBitsPerChecksumBit)

/-- The positions of the words that spell some entropy. -/
def positions (entropy : Bytes) : List Nat :=
  (Bytes.chunks wordBits (Bits.ofBytes entropy ++ checksum entropy)).map Bits.toNat

def ofEntropy (entropy : Bytes) : List String :=
  (positions entropy).map fun position => wordList.getD position ""

/-- The phrase of twelve words that spells sixteen bytes of entropy. -/
def generate (entropy : Block 16) : String :=
  " ".intercalate (ofEntropy entropy.bytes)

/-- The positions of given words in the list. The first word that is not in the
list is reported by its place in the phrase. -/
def lookUp : (place : Nat) → List (List Char) → Except MnemonicDefect (List Nat)
  | _, [] => .ok []
  | place, word :: rest =>
    match wordList.idxOf? (String.ofList word) with
    | none => .error (.unknownWord place)
    | some position => do
      let positions ← lookUp (place + 1) rest
      return position :: positions

/-- The entropy that words at given positions spell. -/
def entropyOf (positions : List Nat) : Except MnemonicDefect Bytes :=
  let bits := positions.flatMap (Bits.ofNat wordBits)
  let length := bits.length / (entropyBitsPerChecksumBit + 1) * entropyBitsPerChecksumBit
  let entropy := Bits.toBytes (bits.take length)
  if bits.drop length = checksum entropy then .ok entropy else .error .checksum

/-- The entropy that a phrase spells. The number of words is checked first, then
whether all are in the list, then the checksum. -/
def toEntropy (phrase : String) : Except MnemonicDefect Bytes :=
  let words := Text.words phrase.toList
  if words.length ∈ wordCounts then do
    let positions ← lookUp 0 words
    entropyOf positions
  else
    .error (.wordCount words.length)

def validate (phrase : String) : Except KeyError Unit :=
  match toEntropy phrase with
  | .ok _ => .ok ()
  | .error defect => .error (.badMnemonic defect)

def seedLength : Nat := 64

def seedSalt : Bytes := Bytes.ofString "mnemonic"

def seedRounds : Nat := 2048

/-- The seed of a phrase. Any text has one. -/
def seed (phrase : String) : Block seedLength :=
  Sha512.function.stretch (Bytes.ofString phrase) seedSalt seedRounds

end Keyring.Mnemonic
