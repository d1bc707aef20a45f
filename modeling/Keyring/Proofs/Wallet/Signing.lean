import Keyring.Proofs.Signature.Signing
import Keyring.Wallet.Basic

/-!
Signing by a wallet: what its readers find in the bytes.
-/

namespace Keyring

open Curve
open scoped PrimeField

namespace Wallet

def signWith (wallet : Wallet) (digest : Digest) (nonce : Scalar) :
    Except KeyError (Block RecoverableSignature.length) :=
  match wallet.key.signWith? digest nonce with
  | none => .error .unrecoverable
  | some signature => do
    let recoverable ← wallet.key.attachId digest signature
    return recoverable.toBlock

/-- Deterministic signing is signing by the nonce that it draws. -/
theorem sign_eq_signWith {wallet : Wallet} {digest : Digest} {nonce : Scalar}
    (h : wallet.key.UsableNonce digest nonce) (hdraws : wallet.key.DrawsNonce digest nonce) :
    wallet.sign digest = wallet.signWith digest nonce := by
  rw [sign, PrivateKey.signRecoverable, PrivateKey.sign_of_drawsNonce h hdraws, signWith,
    PrivateKey.signWith?_of_usableNonce h]
  rfl

theorem ofBody_compress (key : PrivateKey) :
    PublicKey.ofBody .account key.publicPoint.compress.bytes =
      .ok (PublicKey.ofPrivateKey key) := by
  rw [PublicKey.ofBody, Block.ofBytes?_bytes, PublicKey.ofPrivateKey]

/-- A wallet signs every digest, by every nonce that leaves neither scalar zero.
The bytes are read as a signature with low `s` and an id up to three, which
verifies under the public key of the wallet, and the key that is recovered from
them is that of the wallet. -/
theorem signWith_is_recovered (wallet : Wallet) (digest : Digest) (nonce : Scalar)
    (hsecret : 0 < wallet.key.secret.toNat ∧ wallet.key.secret.toNat < order)
    (hnonce : wallet.key.UsableNonce digest nonce) :
    ∃ recoverable : RecoverableSignature,
      wallet.signWith digest nonce = .ok recoverable.toBlock ∧
      (wallet.key.DrawsNonce digest nonce → wallet.sign digest = .ok recoverable.toBlock) ∧
      RecoverableSignature.ofBytes recoverable.toBlock.bytes = .ok recoverable ∧
      recoverable.signature.s.toNat ≤ order / 2 ∧
      recoverable.id ≤ 3 ∧
      (∃ key, publicPointOfBytes wallet.publicKey.body = .ok key ∧
        recoverable.signature.verifies key digest = true) ∧
      ∃ key publicKey, recoverPublicKey recoverable.toBlock.bytes digest = .ok key ∧
        PublicKey.ofBody .account key.compress.bytes = .ok publicKey ∧
        publicKey = wallet.publicKey ∧ Address.ofPublicKey publicKey = wallet.address := by
  have husable := Scalar.isUsable_iff.mpr hsecret
  have hcurve := PrivateKey.onCurve_publicPoint husable
  have hverifies := PrivateKey.verifies_signatureWith husable hnonce
  obtain ⟨id, hid, hsearch, hrecover⟩ := PrivateKey.exists_recoveryId hcurve hverifies
  let recoverable : RecoverableSignature := ⟨wallet.key.signatureWith digest nonce, id⟩
  have hsign : wallet.signWith digest nonce = .ok recoverable.toBlock := by
    rw [signWith, PrivateKey.signWith?_of_usableNonce hnonce]
    change (wallet.key.attachId digest (wallet.key.signatureWith digest nonce)).bind _ = _
    rw [PrivateKey.attachId, hsearch]
    rfl
  have hparse : RecoverableSignature.ofBytes recoverable.toBlock.bytes = .ok recoverable :=
    RecoverableSignature.ofBytes_eq_ok_iff.mpr
      ⟨rfl, hid, PrivateKey.isInRange_signatureWith hnonce⟩
  refine ⟨recoverable, hsign, ?_, hparse, ?_, hid, ?_, ?_⟩
  · intro hdraws
    rw [sign_eq_signWith hnonce hdraws, hsign]
  · exact Signature.isLow_iff.mp (PrivateKey.isLow_signatureWith wallet.key digest nonce)
  · exact ⟨wallet.key.publicPoint, publicPointOfBytes_compress hcurve, hverifies⟩
  · refine ⟨wallet.key.publicPoint, wallet.publicKey, ?_, ofBody_compress wallet.key, rfl, rfl⟩
    rw [recoverPublicKey, hparse]
    change RecoverableSignature.recover _ digest = _
    rw [RecoverableSignature.recover, hrecover]

/-! ### A nonce that is drawn -/

def drawnNonce : Scalar :=
  Fin.ofNat order 0x010497d369b3d525ca15ec29c104a694210bb59ff6cabfc10afe6df0283896df

/-- The source between the two steps that seed it with the secret one and the digest zero. -/
def halfSeeded : NonceSource where
  key := Block.ofNat 32 0xac1077c2cdd7ea3c564277908253f03cb84b409a174f5b23066111b3966e9a69
  value := Block.ofNat 32 0x161c307475397945d974689381d26b74d1c6ee39ccb33b25a89df6507612f471

def seededSource : NonceSource where
  key := Block.ofNat 32 0x47a9905e12a565c913f97badf5a62f87fc047a202d0acefd8a14919958065971
  value := Block.ofNat 32 0x6510f939bad19793248d396e4feefa03ab2bcfb1b718f4d818f60b36d5b0a009

-- Each keyed digest is computed in a lemma of its own, since the kernel keeps all terms of
-- one until it is done.

theorem mac_start : NonceSource.mac (Block.zero 32) (List.replicate 32 1 ++ 0 ::
    ((Block.ofNat 32 1).bytes ++ (Scalar.reduce (Block.zero 32)).bytes)) = halfSeeded.key := by
  decide +kernel

theorem mac_start_value :
    NonceSource.mac halfSeeded.key (List.replicate 32 1) = halfSeeded.value := by
  decide +kernel

theorem mac_halfSeeded : NonceSource.mac halfSeeded.key (halfSeeded.value.bytes ++ 1 ::
    ((Block.ofNat 32 1).bytes ++ (Scalar.reduce (Block.zero 32)).bytes)) =
      seededSource.key := by
  decide +kernel

theorem mac_halfSeeded_value :
    NonceSource.mac seededSource.key halfSeeded.value.bytes = seededSource.value := by
  decide +kernel

theorem mac_seededSource :
    NonceSource.mac seededSource.key seededSource.value.bytes = drawnNonce.toBlock := by
  decide +kernel

theorem seeded_eq_seededSource :
    NonceSource.seeded (Block.ofNat 32 1) (Scalar.reduce (Block.zero 32)) = seededSource := by
  simp only [NonceSource.seeded, NonceSource.renew, mac_start, mac_start_value,
    mac_halfSeeded, mac_halfSeeded_value]

theorem drawsNonce_drawnNonce :
    (⟨Block.ofNat 32 1⟩ : PrivateKey).DrawsNonce (Block.zero 32) drawnNonce := by
  refine ⟨0, by decide, ?_, ?_⟩
  · rw [seeded_eq_seededSource, PrivateKey.candidate, NonceSource.next, mac_seededSource]
  · intro j hj
    exact absurd hj (Nat.not_lt_zero j)

theorem usableNonce_drawnNonce :
    (⟨Block.ofNat 32 1⟩ : PrivateKey).UsableNonce (Block.zero 32) drawnNonce := by
  have hnonce : drawnNonce ≠ 0 := by decide
  have hr : PrivateKey.nonceScalar drawnNonce ≠ 0 := by decide +kernel
  have hdigest : Scalar.ofBlock (Block.zero 32) = 0 := by decide +kernel
  have hscalar : (⟨Block.ofNat 32 1⟩ : PrivateKey).scalar = 1 := by decide +kernel
  refine ⟨hnonce, hr, ?_⟩
  rw [PrivateKey.proofScalar, hdigest, hscalar, zero_add, mul_one]
  exact mul_ne_zero (inv_ne_zero hnonce) hr

/-- The wallet of the secret one signs the digest zero, and its key is recovered from
what it signed. -/
theorem signWith_is_recovered_one :
    ∃ recoverable : RecoverableSignature,
      (⟨⟨Block.ofNat 32 1⟩⟩ : Wallet).sign (Block.zero 32) = .ok recoverable.toBlock ∧
        recoverable.signature.s.toNat ≤ order / 2 ∧
          ∃ key, recoverPublicKey recoverable.toBlock.bytes (Block.zero 32) = .ok key := by
  obtain ⟨recoverable, -, hsign, -, hlow, -, -, key, publicKey, hrecover, -⟩ :=
    signWith_is_recovered ⟨⟨Block.ofNat 32 1⟩⟩ (Block.zero 32) drawnNonce (by decide)
      usableNonce_drawnNonce
  exact ⟨recoverable, hsign drawsNonce_drawnNonce, hlow, key, hrecover⟩

end Wallet

end Keyring
