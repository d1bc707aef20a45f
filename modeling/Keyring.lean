import Keyring.Logging
import Keyring.Proofs.Identity.Bech32
import Keyring.Proofs.Mnemonic.Phrase
import Keyring.Proofs.Regroup.Exactness
import Keyring.Proofs.Passphrase.KeyMaterial
import Keyring.Proofs.Settings
import Keyring.Proofs.Storage.Export
import Keyring.Proofs.Storage.Layout
import Keyring.Proofs.Wallet.Signing
import Keyring.Proofs.Wallet.Storage
import Keyring.SelfTest
import Keyring.Wallet.Diagnostics
import Keyring.Wallet.Storage
import Keyring.Proofs.Bech32.Mistyped
import Keyring.Proofs.Armor.Building
import Keyring.Proofs.Armor.Grammar
import Keyring.Proofs.Armor.Layout
import Keyring.Proofs.Key.Derivation
import Keyring.Proofs.Wallet.Keys
import Keyring.Proofs.Signature.RecoveryId
import Keyring.Proofs.Key.Compression
import Keyring.Proofs.Seal.Layout
import Keyring.Proofs.Mnemonic.Entropy
import Keyring.Proofs.Armor.Remainder
import Keyring.Proofs.Curve.Inverse
import Keyring.Proofs.Signature.Arithmetic
import Keyring.Proofs.Amino.Tag
