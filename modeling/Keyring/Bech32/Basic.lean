import Keyring.Bech32.Checksum
import Keyring.Regroup

/-!
Bech32 texts: a human readable prefix, the separator `1`, and data of five bits
a character, the last six of which are a checksum.

A text is all in lower case or all in upper case. The prefix has one to
eighty-three printable ASCII characters and may itself hold a `1`, since the
last one separates. Nothing bounds the length of the whole text.
-/

namespace Keyring.Bech32

def charset : List Char :=
  "qpzry9x8gf2tvdw0s3jn54khce6mua7l".toList

def symbol (value : UInt8) : Char :=
  charset.getD value.toNat 'q'

def value? (c : Char) : Option UInt8 :=
  (charset.idxOf? c).map UInt8.ofNat

def separator : Char := '1'

def maxPrefixLength : Nat := 83

/-- The letters seen so far. -/
inductive LetterCase where
  | none
  | lower
  | upper
  deriving DecidableEq, Repr

/-- Takes a character into account, and refuses the second case. -/
def LetterCase.see (seen : LetterCase) (c : Char) : Except Bech32Defect LetterCase :=
  if c.isLower then
    if seen = .upper then .error .mixedCase else .ok .lower
  else if c.isUpper then
    if seen = .lower then .error .mixedCase else .ok .upper
  else .ok seen

/-- Checks the bytes of a prefix from the left; a byte is reported as the
character with its number. -/
def checkPrefixBytes : LetterCase → Bytes → Except Bech32Defect LetterCase
  | seen, [] => .ok seen
  | seen, b :: rest =>
    if b < 33 ∨ 126 < b then .error (.character (Char.ofNat b.toNat))
    else do
      let seen ← seen.see (Char.ofNat b.toNat)
      checkPrefixBytes seen rest

/-- Checks a prefix and returns the case of its letters. -/
def checkPrefix (hrp : String) : Except Bech32Defect LetterCase :=
  let bytes := Bytes.ofString hrp
  if bytes.length = 0 ∨ maxPrefixLength < bytes.length then .error .length
  else checkPrefixBytes .none bytes

def readValues : LetterCase → List Char → Except Bech32Defect Bytes
  | _, [] => .ok []
  | seen, c :: rest =>
    if 128 ≤ c.toNat then .error (.character c)
    else do
      let seen ← seen.see c
      match value? c.toLower with
      | none => .error (.character c)
      | some value => return value :: (← readValues seen rest)

def splitLast : List Char → Option (List Char × List Char)
  | [] => none
  | c :: rest =>
    match splitLast rest with
    | some (front, back) => some (c :: front, back)
    | none => if c = separator then some ([], rest) else none

/-- Cuts a text into its prefix, in lower case, and the values of its data part,
the checksum included. -/
def split (text : String) : Except Bech32Defect (String × Bytes) :=
  match splitLast text.toList with
  | none => .error .missingSeparator
  | some (front, back) => do
    let hrp := String.ofList front
    let seen ← checkPrefix hrp
    let values ← readValues seen back
    if values.length < checksumLength then .error .length
    else return (hrp.toLower, values)

/-- Writes a prefix and values of five bits with their checksum, in lower case. -/
def assemble (hrp : String) (values : Bytes) : Except Bech32Defect String := do
  let _ ← checkPrefix hrp
  let hrp := hrp.toLower
  let full := values ++ checksum (Bytes.ofString hrp) values
  return hrp ++ String.ofList (separator :: full.map symbol)

def encode (hrp : String) (data : Bytes) : Except KeyError String := do
  let values ← regroup .byte .quintet .fill data
  (assemble hrp values).mapError .malformedBech32

/-- The prefix and the bytes of a bech32 text. The checksum is verified before
the bytes are looked at. -/
def decode (text : String) : Except KeyError (String × Bytes) := do
  let (hrp, values) ← (split text).mapError .malformedBech32
  if verifies (Bytes.ofString hrp) values then
    let data ← regroup .quintet .byte .drop (values.take (values.length - checksumLength))
    return (hrp, data)
  else
    .error .bech32Checksum

end Keyring.Bech32
