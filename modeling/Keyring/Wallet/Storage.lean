import Keyring.Wallet.Basic

/-!
Wallets in keystore files. A step changes the files even where it fails: a file
that was created stays, and holds what was written to it before the failure.
-/

namespace Keyring

/-- A step on files that may fail. The files keep what it did to them before it
failed. -/
abbrev FileStep (ε α : Type) := ExceptT ε (StateM FileSystem) α

namespace Wallet

/-- Saves the keystore of a wallet to a file. The file is created before the
passphrase is looked at. -/
def saveFile (wallet : Wallet) (path passphrase : String) (salt : Keystore.Salt)
    (nonce : Box.Nonce) : FileStep KeyError Unit := do
  match (← get).create path with
  | .error fault => throw (.storage fault)
  | .ok file =>
    let (file, result) := wallet.exportKeystoreTo file passphrase salt nonce
    set file.system
    result

def saveConfigured (wallet : Wallet) (settings : Settings) (passphrase : String)
    (salt : Keystore.Salt) (nonce : Box.Nonce) : FileStep ConfigError Unit := do
  let path ← settings.requirePath
  ExceptT.adapt ConfigError.key (wallet.saveFile path passphrase salt nonce)

def loadFile (files : FileSystem) (path passphrase : String) : Except KeyError Wallet := do
  let contents ← (files.read path).mapError .storage
  ofKeystoreBytes contents passphrase

def loadConfigured (files : FileSystem) (settings : Settings) (passphrase : String) :
    Except ConfigError Wallet := do
  let path ← settings.requirePath
  (loadFile files path passphrase).mapError .key

end Wallet

end Keyring
