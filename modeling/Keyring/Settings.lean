import Keyring.Error
import Keyring.Identity.Role
import Keyring.Storage.Files
import Keyring.Toml.Document

/-!
The settings that wallets share, and the TOML documents that hold them.
-/

namespace Keyring

/-- The base prefix of addresses and keys, and where the keystore is kept. -/
structure Settings where
  hrp : String
  keystorePath : Option String
  deriving DecidableEq, Repr

namespace Settings

def default : Settings := ⟨defaultPrefix, none⟩

def hrpKey : String := "bech32_hrp"

def pathKey : String := "keystore_path"

/-- Takes one field of a document into the settings. No other fields are
allowed, and both are texts. -/
def takeField (settings : Settings) (field : String × Data.Value) :
    Except ConfigError Settings :=
  match field.2 with
  | .text text =>
    if field.1 = hrpKey then .ok { settings with hrp := text }
    else if field.1 = pathKey then .ok { settings with keystorePath := some text }
    else .error .malformed
  | _ => .error .malformed

/-- Whether a byte may stand in the base prefix: printable, no letter in upper
case, and not the separator. -/
def isPrefixByte (b : UInt8) : Bool :=
  33 ≤ b && b ≤ 126 && !(65 ≤ b && b ≤ 90) && b ≠ 49

def validate (settings : Settings) : Except ConfigError Settings :=
  if settings.hrp ≠ "" ∧ (Bytes.ofString settings.hrp).all isPrefixByte then .ok settings
  else .error (.unusablePrefix settings.hrp)

/-- The settings in a document. What it does not mention keeps its default. -/
def parse (document : String) : Except ConfigError Settings :=
  match Toml.parse? document with
  | none => .error .malformed
  | some fields => do
    let settings ← fields.foldlM takeField default
    settings.validate

def load (files : FileSystem) (path : String) : Except ConfigError Settings :=
  match files.readText path with
  | .error fault => .error (.unreadable path fault)
  | .ok document => parse document

def requirePath (settings : Settings) : Except ConfigError String :=
  match settings.keystorePath with
  | some path => .ok path
  | none => .error .noKeystorePath

end Settings

end Keyring
