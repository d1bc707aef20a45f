/-!
Everything that can go wrong with a key, an address, a keystore or a
configuration, as a cause and as a text.

A text says which check failed. It never holds key material, a passphrase or a
mnemonic.
-/

namespace Keyring

inductive LengthRule where
  | exactly (length : Nat)
  | atLeast (length : Nat)
  | either (short long : Nat)
  /-- A type prefix and a body whose length the caller fixed. -/
  | prefixedBody
  deriving DecidableEq, Repr

def LengthRule.message : LengthRule → String
  | exactly length => s!"{length} bytes"
  | atLeast length => s!"at least {length} bytes"
  | either short long => s!"{short} or {long} bytes"
  | prefixedBody => "prefix plus body"

/-- What a bech32 text can get wrong besides its checksum. -/
inductive Bech32Defect where
  | missingSeparator
  /-- The prefix is empty or too long, or the data part cannot hold a checksum. -/
  | length
  /-- A character that is not allowed where it stands. -/
  | character (c : Char)
  | mixedCase
  deriving DecidableEq, Repr

def Bech32Defect.message : Bech32Defect → String
  | missingSeparator => "missing human-readable separator, \"1\""
  | length => "invalid length"
  | character c => s!"invalid character (code={c})"
  | mixedCase => "mixed-case strings not allowed"

/-- What an armored envelope can get wrong. -/
inductive ArmorDefect where
  | missingBegin
  | openHeaders
  | malformedHeader
  | missingEnd
  | missingChecksum
  | bodyEncoding
  | checksumEncoding
  | checksumMismatch
  deriving DecidableEq, Repr

def ArmorDefect.message : ArmorDefect → String
  | missingBegin => "missing begin line"
  | openHeaders => "truncated headers"
  | malformedHeader => "malformed header line"
  | missingEnd => "missing end line"
  | missingChecksum => "missing checksum"
  | bodyEncoding => "invalid base64 body"
  | checksumEncoding => "invalid checksum encoding"
  | checksumMismatch => "checksum mismatch"

/-- What a mnemonic phrase can get wrong. -/
inductive MnemonicDefect where
  /-- The number of words is none of the five possible ones. -/
  | wordCount (count : Nat)
  /-- The word at this position, counted from zero, is not in the list. -/
  | unknownWord (position : Nat)
  /-- The words do not carry the checksum of their entropy. -/
  | checksum
  deriving DecidableEq, Repr

def MnemonicDefect.message : MnemonicDefect → String
  | wordCount count =>
    s!"mnemonic has an invalid word count: {count}. Word count must be 12, 15, 18, 21, or 24"
  | unknownWord position => s!"mnemonic contains an unknown word (word {position})"
  | checksum => "the mnemonic has an invalid checksum"

/-- Why a key has no child, or a seed no master key. -/
inductive DerivationDefect where
  /-- The parent is already at the greatest depth that can be written down. -/
  | depth
  /-- The derived number is not a private key. -/
  | unusable
  deriving DecidableEq, Repr

def DerivationDefect.message : DerivationDefect → String
  | depth => "cannot derive child of depth 256 or higher"
  | unusable => "derived scalar is out of range"

/-- The known-answer checks of the self-test. -/
inductive SelfTestStep where
  | scalarParsing
  | generatorMultiplication
  | typeTag
  | signatureRecovery
  | signatureVerification
  | randomSource
  deriving DecidableEq, Repr

def SelfTestStep.message : SelfTestStep → String
  | scalarParsing => "scalar parsing"
  | generatorMultiplication => "generator multiplication"
  | typeTag => "sha256 amino tag"
  | signatureRecovery => "signature recovery"
  | signatureVerification => "signature verification"
  | randomSource => "os random source"

/-- Why reading or writing stored text failed. -/
inductive StorageFault where
  /-- The file, or the directory that should hold it, does not exist. -/
  | notFound
  /-- A file stands where the path needs a directory. -/
  | notDirectory
  /-- A directory stands where a file is to be read or created. -/
  | isDirectory
  | nameTooLong
  /-- The path holds a character that no path may hold. -/
  | unusablePath
  | notText
  /-- The writer takes no more bytes. -/
  | full
  deriving DecidableEq, Repr

def StorageFault.message : StorageFault → String
  | notFound => "entity not found"
  | notDirectory => "not a directory"
  | isDirectory => "is a directory"
  | nameTooLong => "invalid filename"
  | unusablePath => "invalid input parameter"
  | notText => "stream did not contain valid UTF-8"
  | full => "failed to write whole buffer"

/-- Why an operation on keys failed. -/
inductive KeyError where
  | wrongLength (expected : LengthRule) (actual : Nat)
  /-- The human readable part of a bech32 text is not an accepted one. -/
  | foreignPrefix (hrp : String)
  | bech32Checksum
  | malformedBech32 (defect : Bech32Defect)
  /-- Regrouping bits met a value that is too wide, or padding that is too long or not zero. -/
  | badPadding
  /-- A type prefix cannot state the length of the body. -/
  | bodyTooLong (length : Nat)
  /-- The digest of a type name has too few nonzero bytes to yield a tag. -/
  | noTypeTag
  | wrongTypePrefix
  /-- A private key is zero or not below the order of the curve. -/
  | privateKeyRange
  | notAPoint
  | emptySeed
  | badMnemonic (defect : MnemonicDefect)
  /-- An account or address index is not below the first hardened one. -/
  | indexTooLarge (index : UInt32)
  | derivation (defect : DerivationDefect)
  /-- No recovery id gives the key of the signer. -/
  | unrecoverable
  /-- The recovery id of a signature is not below four. -/
  | badRecoveryId (id : UInt8)
  /-- The scalars of a signature are out of range. -/
  | badSignature
  /-- A keystore names a key derivation function other than bcrypt. -/
  | unsupportedKdf (name : String)
  /-- The salt of a keystore is missing, empty, not hexadecimal or of the wrong length. -/
  | badSalt
  | corruptArmor (defect : ArmorDefect)
  /-- The sealed key does not authenticate. -/
  | decryptionFailed
  /-- The passphrase does not fit into the input of bcrypt. -/
  | passphraseTooLong (length : Nat)
  | selfTestFailed (step : SelfTestStep)
  | storage (fault : StorageFault)
  deriving DecidableEq, Repr

def KeyError.message : KeyError → String
  | wrongLength expected actual =>
    s!"invalid length: expected {expected.message}, got {actual}"
  | foreignPrefix hrp => "unexpected bech32 prefix \x60" ++ hrp ++ "\x60"
  | bech32Checksum => "invalid bech32 checksum"
  | malformedBech32 defect => s!"malformed bech32 string: {defect.message}"
  | badPadding => "invalid padding while regrouping bits"
  | bodyTooLong length =>
    s!"amino body of {length} bytes is longer than the supported 33 bytes"
  | noTypeTag => "amino type name hash does not contain a usable tag"
  | wrongTypePrefix => "amino prefix mismatch"
  | privateKeyRange => "private key is out of range"
  | notAPoint => "invalid public key"
  | emptySeed => "seed must not be empty"
  | badMnemonic defect => s!"invalid mnemonic: {defect.message}"
  | indexTooLarge index => s!"derivation index {index} must be below 2^31"
  | derivation defect => s!"BIP32 derivation error: {defect.message}"
  | unrecoverable => "could not construct a recoverable signature"
  | badRecoveryId id => s!"invalid recovery id {id}"
  | badSignature => "invalid signature"
  | unsupportedKdf name => "unsupported kdf \x60" ++ name ++ "\x60"
  | badSalt => "keystore salt is missing or malformed"
  | corruptArmor defect => s!"corrupt armor: {defect.message}"
  | decryptionFailed => "failed to decrypt keystore"
  | passphraseTooLong length => s!"passphrase is {length} bytes, at most 71 are accepted"
  | selfTestFailed step => s!"crypto provider unavailable: {step.message}"
  | storage fault => s!"io error: {fault.message}"

/-- Why a configuration could not be loaded or applied. -/
inductive ConfigError where
  | unreadable (path : String) (fault : StorageFault)
  /-- The document is not valid, or does not fit the settings. -/
  | malformed
  /-- The human readable part cannot be used in bech32. -/
  | unusablePrefix (hrp : String)
  | noKeystorePath
  | key (error : KeyError)
  deriving DecidableEq, Repr

def ConfigError.message : ConfigError → String
  | unreadable path fault => s!"failed to read config {path}: {fault.message}"
  | malformed => "invalid config"
  | unusablePrefix hrp => "invalid bech32 hrp \x60" ++ hrp ++ "\x60"
  | noKeystorePath => "keystore_path is not configured"
  | key error => error.message

instance : Coe KeyError ConfigError := ⟨.key⟩

end Keyring
