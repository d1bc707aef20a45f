import Keyring.Proofs.Key.Private
import Keyring.Proofs.Signature.RecoveryId
import Keyring.Signature.Sign

/-!
Signing, for every nonce that leaves neither scalar zero.

Lowering `s` negates the nonce point, which keeps its `x`, so a signature relates
the public key to a nonce point with the right `x` either way. It therefore
verifies, and some id recovers the key of the signer from it.
-/

namespace Keyring

open Curve
open scoped PrimeField

namespace PrivateKey

/-- The scalar `r` that a nonce gives: the `x` of its multiple of the generator. -/
def nonceScalar (nonce : Scalar) : Scalar :=
  match generatorMultiple nonce.val with
  | .infinity => 0
  | .affine point => Fin.ofNat order point.x.val

noncomputable def proofScalar (key : PrivateKey) (digest : Digest) (nonce : Scalar) : Scalar :=
  nonce⁻¹ * (Scalar.ofBlock digest + nonceScalar nonce * key.scalar)

structure UsableNonce (key : PrivateKey) (digest : Digest) (nonce : Scalar) : Prop where
  ne_zero : nonce ≠ 0
  r_ne_zero : nonceScalar nonce ≠ 0
  s_ne_zero : key.proofScalar digest nonce ≠ 0

theorem exists_generatorMultiple {nonce : Scalar} (h : nonce ≠ 0) :
    ∃ point, generatorMultiple nonce.val = .affine point := by
  cases hpoint : generatorMultiple nonce.val with
  | infinity =>
      rw [generatorMultiple_eq, val_smul, Point.ofGroup_eq_infinity] at hpoint
      exact absurd hpoint (smul_generator_ne_zero h)
  | affine point => exact ⟨point, rfl⟩

theorem nonceScalar_of_affine {nonce : Scalar} {point : AffinePoint}
    (h : generatorMultiple nonce.val = .affine point) :
    nonceScalar nonce = Fin.ofNat order point.x.val := by
  rw [nonceScalar, h]

theorem signWith?_eq {key : PrivateKey} {digest : Digest} {nonce : Scalar} (h : nonce ≠ 0) :
    key.signWith? digest nonce =
      if nonceScalar nonce = 0 ∨ key.proofScalar digest nonce = 0 then none
      else
        some ⟨(nonceScalar nonce).toBlock,
          (lowered (key.proofScalar digest nonce)).toBlock⟩ := by
  obtain ⟨point, hpoint⟩ := exists_generatorMultiple h
  have hr := nonceScalar_of_affine hpoint
  simp only [signWith?, Scalar.invert?_of_ne_zero h, hpoint, Point.toAffine?, ← hr,
    Option.bind_eq_bind, Option.bind_some]
  rfl

theorem signWith?_of_usableNonce {key : PrivateKey} {digest : Digest} {nonce : Scalar}
    (h : key.UsableNonce digest nonce) :
    key.signWith? digest nonce =
      some ⟨(nonceScalar nonce).toBlock,
        (lowered (key.proofScalar digest nonce)).toBlock⟩ := by
  rw [signWith?_eq h.ne_zero, if_neg]
  rintro (hr | hs)
  · exact h.r_ne_zero hr
  · exact h.s_ne_zero hs

theorem signWith?_of_not_usableNonce {key : PrivateKey} {digest : Digest} {nonce : Scalar}
    (hnonce : nonce ≠ 0) (h : ¬key.UsableNonce digest nonce) :
    key.signWith? digest nonce = none := by
  rw [signWith?_eq hnonce, if_pos]
  by_contra hscalars
  rw [not_or] at hscalars
  exact h ⟨hnonce, hscalars.1, hscalars.2⟩

/-! ### Lowering -/

theorem lowered_eq (s : Scalar) : lowered s = s ∨ lowered s = -s := by
  rw [lowered]
  split
  · exact .inr rfl
  · exact .inl rfl

theorem lowered_ne_zero {s : Scalar} (h : s ≠ 0) : lowered s ≠ 0 := by
  rcases lowered_eq s with heq | heq
  · rwa [heq]
  · rwa [heq, neg_ne_zero]

theorem lowered_le (s : Scalar) : (lowered s).val ≤ order / 2 := by
  rw [lowered]
  split
  · rename_i h
    have horder : order % 2 = 1 := by decide
    rw [Fin.val_neg, if_neg]
    · omega
    · rintro rfl
      simp at h
  · rename_i h
    exact not_lt.mp h

/-! ### The signature by a nonce -/

noncomputable def signatureWith (key : PrivateKey) (digest : Digest) (nonce : Scalar) :
    Signature :=
  ⟨(nonceScalar nonce).toBlock, (lowered (key.proofScalar digest nonce)).toBlock⟩

theorem isInRange_signatureWith {key : PrivateKey} {digest : Digest} {nonce : Scalar}
    (h : key.UsableNonce digest nonce) :
    (key.signatureWith digest nonce).isInRange = true := by
  rw [Signature.isInRange, Bool.and_eq_true]
  exact ⟨Scalar.isUsable_toBlock.mpr h.r_ne_zero,
    Scalar.isUsable_toBlock.mpr (lowered_ne_zero h.s_ne_zero)⟩

theorem isLow_signatureWith (key : PrivateKey) (digest : Digest) (nonce : Scalar) :
    (key.signatureWith digest nonce).isLow = true := by
  rw [Signature.isLow_iff, signatureWith, Scalar.toNat_toBlock]
  exact lowered_le _

/-- The equation of a signature holds for the multiple of the generator by the
nonce, or for the negative of that point if `s` was negated. -/
theorem relates_signatureWith {key : PrivateKey} {digest : Digest} {nonce : Scalar}
    (h : key.UsableNonce digest nonce) :
    ∃ R point, Point.ofGroup R = .affine point ∧
      point.x.val % order = (key.signatureWith digest nonce).r.toNat ∧
      (key.signatureWith digest nonce).Relates digest R (key.scalar • generatorElement) := by
  obtain ⟨point, hpoint⟩ := exists_generatorMultiple h.ne_zero
  have hx : point.x.val % order = (key.signatureWith digest nonce).r.toNat := by
    rw [signatureWith, Scalar.toNat_toBlock, nonceScalar_of_affine hpoint, Fin.val_ofNat]
  have hs : key.proofScalar digest nonce • nonce • generatorElement =
      Scalar.ofBlock digest • generatorElement +
        nonceScalar nonce • key.scalar • generatorElement := by
    rw [smul_smul, smul_smul, ← add_smul, proofScalar, mul_comm,
      mul_inv_cancel_left₀ h.ne_zero]
  rw [generatorMultiple_eq, val_smul] at hpoint
  -- Where `s` is negated, the negative of the nonce point makes up for it.
  rcases lowered_eq (key.proofScalar digest nonce) with hlowered | hlowered
  · refine ⟨nonce • generatorElement, point, hpoint, hx, ?_⟩
    rw [Signature.Relates, signatureWith, Scalar.ofBlock_toBlock, Scalar.ofBlock_toBlock,
      hlowered, hs]
  · refine ⟨-(nonce • generatorElement), ⟨point.x, -point.y⟩, Point.ofGroup_neg hpoint, hx, ?_⟩
    rw [Signature.Relates, signatureWith, Scalar.ofBlock_toBlock, Scalar.ofBlock_toBlock,
      hlowered, neg_smul_neg, hs]

theorem verifies_signatureWith {key : PrivateKey} {digest : Digest} {nonce : Scalar}
    (hkey : Scalar.isUsable key.secret = true) (h : key.UsableNonce digest nonce) :
    (key.signatureWith digest nonce).verifies key.publicPoint digest = true :=
  (Signature.verifies_iff (affine_publicPoint hkey).symm).mpr
    ⟨isInRange_signatureWith h, isLow_signatureWith key digest nonce, relates_signatureWith h⟩

/-- The search for an id ends with one that recovers the key of the signer. -/
theorem exists_recoveryId {signature : Signature} {key : AffinePoint} {digest : Digest}
    (hkey : key.OnCurve) (h : signature.verifies key digest = true) :
    ∃ id ≤ RecoverableSignature.maxId, signature.recoveryId key digest = .ok id ∧
      signature.recover? id digest = some key := by
  obtain ⟨-, id, hrecover⟩ := (Signature.verifies_iff_exists_recover? hkey).mp h
  have hid : id ≤ RecoverableSignature.maxId :=
    (Signature.exists_of_recover?_eq_some hrecover).1
  exact ⟨id, hid, Signature.recoveryId_eq_ok_iff.mpr hrecover, hrecover⟩

/-! ### The nonces of a source -/

def candidate (source : NonceSource) : ℕ → Block 32
  | 0 => source.next.value
  | i + 1 => candidate source.next.retry i

/-- Signing from a source uses the first of its blocks that is a usable nonce. -/
theorem signFrom?_of_candidate {key : PrivateKey} {digest : Digest} {nonce : Scalar}
    (h : key.UsableNonce digest nonce) {i attempts : ℕ} (hi : i < attempts)
    {source : NonceSource} (hblock : candidate source i = nonce.toBlock)
    (hearlier : ∀ j < i, ∀ earlier, Scalar.ofBlock? (candidate source j) = some earlier →
      ¬key.UsableNonce digest earlier) :
    key.signFrom? digest attempts source = some (key.signatureWith digest nonce) := by
  have hofBlock : Scalar.ofBlock? nonce.toBlock = some nonce := by
    rw [Scalar.ofBlock?_of_isUsable (Scalar.isUsable_toBlock.mpr h.ne_zero),
      Scalar.ofBlock_toBlock]
  induction i generalizing attempts source with
  | zero =>
      cases attempts with
      | zero => omega
      | succ attempts =>
          have hvalue : source.next.value = nonce.toBlock := hblock
          rw [signFrom?]
          simp only [hvalue, hofBlock, Option.bind_some, signWith?_of_usableNonce h]
          rfl
  | succ i ih =>
      cases attempts with
      | zero => omega
      | succ attempts =>
          -- The first block is one of the earlier ones, so it gives no signature.
          have hfirst : (Scalar.ofBlock? source.next.value).bind (key.signWith? digest) =
              none := by
            cases hvalue : Scalar.ofBlock? source.next.value with
            | none => rfl
            | some earlier =>
                have hnot := hearlier 0 (by omega) earlier hvalue
                exact signWith?_of_not_usableNonce (Scalar.ne_zero_of_ofBlock? hvalue) hnot
          have hrest : key.signFrom? digest attempts source.next.retry =
              some (key.signatureWith digest nonce) :=
            ih (by omega) hblock (fun j hj => hearlier (j + 1) (by omega))
          rw [signFrom?]
          simp only [hfirst, hrest]

/-- Whether a nonce is the one that deterministic signing uses: the first usable
one among those that are tried. -/
def DrawsNonce (key : PrivateKey) (digest : Digest) (nonce : Scalar) : Prop :=
  ∃ i < nonceAttempts,
    candidate (.seeded key.secret (Scalar.reduce digest)) i = nonce.toBlock ∧
      ∀ j < i, ∀ earlier,
        Scalar.ofBlock? (candidate (.seeded key.secret (Scalar.reduce digest)) j) =
          some earlier →
          ¬key.UsableNonce digest earlier

theorem sign_of_drawsNonce {key : PrivateKey} {digest : Digest} {nonce : Scalar}
    (h : key.UsableNonce digest nonce) (hdraws : key.DrawsNonce digest nonce) :
    key.sign digest = .ok (key.signatureWith digest nonce) := by
  obtain ⟨i, hi, hblock, hearlier⟩ := hdraws
  rw [sign, signFrom?_of_candidate h hi hblock hearlier, Option.elim_some]

end PrivateKey

end Keyring
