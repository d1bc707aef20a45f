import Keyring.Proofs.Key.Derivation
import Keyring.Proofs.Storage.Keystore
import Keyring.Wallet.Storage

/-!
The private keys that there are.

Reading checks that the bytes of a key are a number in range. The other ways to a key make
no such check at their end, but they lead to the same numbers, so the bytes of every key
are read back to it. Wallets that are opened have such keys.
-/

namespace Keyring

open Curve

/-- The ways in which a private key is made from what is given. The parent of a key in a
tree may itself come from anywhere, and so may the keystore that is unlocked. -/
inductive PrivateKey.IsIssued : PrivateKey → Prop
  | read {bytes : Bytes} {key : PrivateKey} (h : ofBytes bytes = .ok key) : IsIssued key
  | root {seed : Bytes} {root : ExtendedKey} (h : ExtendedKey.master seed = .ok root) :
      IsIssued root.key
  | descended {parent : ExtendedKey} {path : List ChildNumber} {key : PrivateKey}
      (hparent : IsIssued parent.key) (h : parent.descend path = .ok key) : IsIssued key
  | account {phrase : String} {account index : UInt32} {key : PrivateKey}
      (h : accountKey phrase account index = .ok key) : IsIssued key
  | unlocked {keystore : Keystore} {passphrase : String} {key : PrivateKey}
      (h : keystore.unlock passphrase = .ok key) : IsIssued key

theorem Keystore.isUsable_of_unlock {keystore : Keystore} {passphrase : String}
    {key : PrivateKey}
    (h : keystore.unlock passphrase = .ok key) : Scalar.isUsable key.secret = true := by
  obtain ⟨sealing, plaintext, -, -, -, husable⟩ := unlock_eq_ok_iff_layers.mp h
  exact husable

namespace PrivateKey

theorem isUsable_of_isIssued {key : PrivateKey} (h : key.IsIssued) :
    Scalar.isUsable key.secret = true := by
  induction h with
  | read h => exact (ofBytes_eq_ok_iff.mp h).2
  | root h => exact ExtendedKey.isUsable_of_master h
  | descended hparent h ih => exact ExtendedKey.isUsable_of_descend ih h
  | account h => exact isUsable_of_accountKey h
  | unlocked h => exact Keystore.isUsable_of_unlock h

theorem isIssued_iff_isUsable {key : PrivateKey} :
    key.IsIssued ↔ Scalar.isUsable key.secret = true := by
  constructor
  · exact isUsable_of_isIssued
  · intro h
    exact .read (ofBytes_eq_ok_iff.mpr ⟨rfl, h⟩)

/-- A private key is issued exactly if it is a number from one up to the order of the curve,
and exactly if its bytes are read back to it. -/
theorem issued_keys_are_those_in_range (key : PrivateKey) :
    (key.IsIssued ↔ 1 ≤ key.secret.toNat ∧ key.secret.toNat < order) ∧
      (key.IsIssued ↔ ofBytes key.secret.bytes = .ok key) := by
  constructor
  · rw [isIssued_iff_isUsable, Scalar.isUsable_iff, Nat.one_le_iff_ne_zero,
      Nat.pos_iff_ne_zero]
  · rw [isIssued_iff_isUsable, ofBytes_eq_ok_iff]
    exact (and_iff_right rfl).symm

def rootOfOne : ExtendedKey := ⟨0, ⟨Block.ofNat 32 1⟩, Block.zero 32⟩

/-- The first hardened child of the secret one, and the key in a keystore. -/
theorem issued_keys_are_those_in_range_child :
    (∃ key, rootOfOne.descend [⟨ChildNumber.hardenedOffset⟩] = .ok key ∧
      ofBytes key.secret.bytes = .ok key) ∧
    ∃ (keystore : Keystore) (key : PrivateKey), keystore.unlock "" = .ok key ∧
      key.secret.toNat < order := by
  constructor
  · have hroot : ofBytes (Block.ofNat 32 1).bytes = .ok rootOfOne.key := by decide
    have hchild : (rootOfOne.descend [⟨ChildNumber.hardenedOffset⟩]).toBool = true := by
      decide +kernel
    cases hkey : rootOfOne.descend [⟨ChildNumber.hardenedOffset⟩] with
    | error fault =>
        rw [hkey] at hchild
        cases hchild
    | ok key =>
        have hissued : key.IsIssued := .descended (.read hroot) hkey
        exact ⟨key, rfl, (issued_keys_are_those_in_range key).2.mp hissued⟩
  · have hshort : (Bytes.ofString "").length ≤ Bcrypt.maxPassphraseLength := by decide +kernel
    obtain ⟨keystore, hcreate⟩ :=
      Keystore.exists_create ⟨Block.ofNat 32 1⟩ (Block.zero 16) (Block.zero 24) hshort
    have hunlock := Keystore.unlock_of_create (by decide) hcreate
    have hrange := (issued_keys_are_those_in_range _).1.mp (.unlocked hunlock)
    exact ⟨keystore, _, hunlock, hrange.2⟩

end PrivateKey

/-! ### Wallets -/

namespace Wallet

inductive IsOpened : Wallet → Prop
  | read {bytes : Bytes} {wallet : Wallet} (h : ofKeyBytes bytes = .ok wallet) :
      IsOpened wallet
  | unlocked {text passphrase : String} {wallet : Wallet}
      (h : ofKeystore text passphrase = .ok wallet) : IsOpened wallet
  | loaded {files : FileSystem} {path passphrase : String} {wallet : Wallet}
      (h : loadFile files path passphrase = .ok wallet) : IsOpened wallet
  | configured {files : FileSystem} {settings : Settings} {passphrase : String}
      {wallet : Wallet}
      (h : loadConfigured files settings passphrase = .ok wallet) : IsOpened wallet
  | derived {source : PhraseWallet} {account index : UInt32} {wallet : Wallet}
      (h : source.derive account index = .ok wallet) : IsOpened wallet

theorem isIssued_of_loadFile {files : FileSystem} {path passphrase : String} {wallet : Wallet}
    (h : loadFile files path passphrase = .ok wallet) : wallet.key.IsIssued := by
  obtain ⟨contents, -, h⟩ := bind_eq_ok_iff.mp h
  obtain ⟨keystore, -, h⟩ := bind_eq_ok_iff.mp h
  obtain ⟨key, hkey, h⟩ := bind_eq_ok_iff.mp h
  cases h
  exact .unlocked hkey

/-- The key of a wallet that is opened is issued. -/
theorem isIssued_of_isOpened {wallet : Wallet} (h : wallet.IsOpened) :
    wallet.key.IsIssued := by
  cases h with
  | read h =>
      obtain ⟨key, hkey, h⟩ := bind_eq_ok_iff.mp h
      cases h
      exact .read hkey
  | unlocked h =>
      obtain ⟨keystore, -, h⟩ := bind_eq_ok_iff.mp h
      obtain ⟨key, hkey, h⟩ := bind_eq_ok_iff.mp h
      cases h
      exact .unlocked hkey
  | loaded h => exact isIssued_of_loadFile h
  | configured h =>
      obtain ⟨path, -, h⟩ := bind_eq_ok_iff.mp h
      exact isIssued_of_loadFile (mapError_eq_ok_iff.mp h)
  | derived h =>
      obtain ⟨key, hkey, h⟩ := bind_eq_ok_iff.mp h
      cases h
      exact .account hkey

end Wallet

end Keyring
