import Keyring.Proofs.Curve.Forms
import Keyring.Proofs.Key.Private
import Keyring.Proofs.Outcome

/-!
Compressing public keys is a canonical form on points.

The bytes of a point in any of its forms are compressed to one and the same block, the bytes
of two points never are. So two byte strings that are accepted name the same public key
exactly if they are compressed to the same bytes.
-/

namespace Keyring

open Curve

variable {bytes : Bytes} {point : AffinePoint} {compressed : Block compressedLength}

theorem publicPointOfBytes_eq_ok_iff :
    publicPointOfBytes bytes = .ok point ↔ point.HasForm bytes := by
  rw [publicPointOfBytes, ← AffinePoint.ofBytes?_eq_some_iff]
  split
  · cases AffinePoint.ofBytes? bytes <;> simp
  · rename_i hlength
    simp only [reduceCtorEq, false_iff]
    intro h
    exact hlength (AffinePoint.ofBytes?_eq_some_iff.mp h).length_eq

theorem compressPublicKey_eq_ok_iff :
    compressPublicKey bytes = .ok compressed ↔
      ∃ point : AffinePoint, point.HasForm bytes ∧ point.compress = compressed := by
  rw [compressPublicKey, bind_eq_ok_iff]
  simp only [publicPointOfBytes_eq_ok_iff]
  constructor
  · rintro ⟨point, hform, hpoint⟩
    exact ⟨point, hform, Except.ok.inj hpoint⟩
  · rintro ⟨point, hform, rfl⟩
    exact ⟨point, hform, rfl⟩

theorem compressPublicKey_of_hasForm (h : point.HasForm bytes) :
    compressPublicKey bytes = .ok point.compress :=
  compressPublicKey_eq_ok_iff.mpr ⟨point, h, rfl⟩

/-- Two public keys are compressed to the same bytes exactly if they are one point. -/
theorem compressed_eq_iff {other : Bytes} {otherCompressed : Block compressedLength}
    (h : compressPublicKey bytes = .ok compressed)
    (hother : compressPublicKey other = .ok otherCompressed) :
    compressed = otherCompressed ↔
      ∃ point : AffinePoint, point.HasForm bytes ∧ point.HasForm other := by
  obtain ⟨point, hform, rfl⟩ := compressPublicKey_eq_ok_iff.mp h
  obtain ⟨otherPoint, hotherForm, rfl⟩ := compressPublicKey_eq_ok_iff.mp hother
  rw [AffinePoint.compress_inj hform.1 hotherForm.1]
  constructor
  · rintro rfl
    exact ⟨point, hform, hotherForm⟩
  · rintro ⟨shared, hshared, hsharedOther⟩
    rw [hform.unique hshared, hotherForm.unique hsharedOther]

theorem compressPublicKey_of_not_hasForm
    (hlength : bytes.length = compressedLength ∨ bytes.length = uncompressedLength)
    (h : ¬∃ point : AffinePoint, point.HasForm bytes) :
    compressPublicKey bytes = .error .notAPoint := by
  have hnone : AffinePoint.ofBytes? bytes = none := by
    rw [Option.eq_none_iff_forall_ne_some]
    intro point hpoint
    exact h ⟨point, AffinePoint.ofBytes?_eq_some_iff.mp hpoint⟩
  rw [compressPublicKey, publicPointOfBytes, if_pos hlength, hnone]
  rfl

theorem compressPublicKey_of_length
    (h : ¬(bytes.length = compressedLength ∨ bytes.length = uncompressedLength)) :
    compressPublicKey bytes =
      .error (.wrongLength (.either compressedLength uncompressedLength) bytes.length) := by
  rw [compressPublicKey, publicPointOfBytes, if_neg h]
  rfl

/-- Compressing is a canonical form on points. The byte strings that are accepted are the
forms of the points of the curve, and each is a form of one point only. Two of them are
compressed to the same bytes exactly if they are forms of the same point. What is compressed
is accepted, and compressing leaves it as it is. The full and the compressed form of the
public key of a private key are both compressed to the latter. All other byte strings are
refused, by their length or because they are no form of a point. -/
theorem compressing_is_canonical :
    (∀ bytes, (∃ compressed, compressPublicKey bytes = .ok compressed) ↔
      ∃! point : AffinePoint, point.HasForm bytes) ∧
    (∀ bytes other compressed otherCompressed, compressPublicKey bytes = .ok compressed →
      compressPublicKey other = .ok otherCompressed →
        (compressed = otherCompressed ↔
          ∃ point : AffinePoint, point.HasForm bytes ∧ point.HasForm other)) ∧
    (∀ bytes compressed, compressPublicKey bytes = .ok compressed →
      compressed.bytes.length = 33 ∧ compressPublicKey compressed.bytes = .ok compressed) ∧
    (∀ key : PrivateKey, 0 < key.secret.toNat → key.secret.toNat < order →
      compressPublicKey key.publicPoint.uncompress.bytes = .ok key.publicPoint.compress ∧
      compressPublicKey key.publicPoint.compress.bytes = .ok key.publicPoint.compress) ∧
    (∀ bytes : Bytes, bytes.length ≠ 33 → bytes.length ≠ 65 →
      compressPublicKey bytes = .error (.wrongLength (.either 33 65) bytes.length)) ∧
    ∀ bytes : Bytes, bytes.length = 33 ∨ bytes.length = 65 →
      (¬∃ point : AffinePoint, point.HasForm bytes) →
        compressPublicKey bytes = .error .notAPoint := by
  refine ⟨?_, ?_, ?_, ?_, ?_, ?_⟩
  · intro bytes
    constructor
    · rintro ⟨compressed, h⟩
      obtain ⟨point, hform, -⟩ := compressPublicKey_eq_ok_iff.mp h
      exact ⟨point, hform, fun other hother => hother.unique hform⟩
    · rintro ⟨point, hform, -⟩
      exact ⟨point.compress, compressPublicKey_of_hasForm hform⟩
  · intro bytes other compressed otherCompressed h hother
    exact compressed_eq_iff h hother
  · intro bytes compressed h
    obtain ⟨point, hform, rfl⟩ := compressPublicKey_eq_ok_iff.mp h
    exact ⟨point.compress.length_bytes,
      compressPublicKey_of_hasForm (AffinePoint.hasForm_compress hform.1)⟩
  · intro key hpos hlt
    have hcurve := PrivateKey.onCurve_publicPoint (Scalar.isUsable_iff.mpr ⟨hpos, hlt⟩)
    exact ⟨compressPublicKey_of_hasForm (AffinePoint.hasForm_uncompress hcurve),
      compressPublicKey_of_hasForm (AffinePoint.hasForm_compress hcurve)⟩
  · intro bytes hshort hlong
    exact compressPublicKey_of_length (not_or.mpr ⟨hshort, hlong⟩)
  · intro bytes hlength h
    exact compressPublicKey_of_not_hasForm hlength h

/-- The generator in its hybrid and its full form, as the public key of the secret one, and
byte strings of the two lengths and of another one that are no form of a point. -/
theorem compressing_is_canonical_generator :
    compressPublicKey (generator.encode .hybrid) = .ok generator.compress ∧
      compressPublicKey (generator.encode .full) = .ok generator.compress ∧
      (∃ point : AffinePoint, point.HasForm (generator.encode .hybrid) ∧
        point.HasForm (generator.encode .full)) ∧
      compressPublicKey generator.compress.bytes = .ok generator.compress ∧
      compressPublicKey (⟨Block.ofNat 32 1⟩ : PrivateKey).publicPoint.uncompress.bytes =
        .ok generator.compress ∧
      compressPublicKey [0x02] = .error (.wrongLength (.either 33 65) 1) ∧
      compressPublicKey (List.replicate 33 0) = .error .notAPoint := by
  obtain ⟨haccepted, hsame, hagain, hkey, hlength, hrefused⟩ := compressing_is_canonical
  have hhybrid : compressPublicKey (generator.encode .hybrid) = .ok generator.compress := by
    decide +kernel
  have hfull : compressPublicKey (generator.encode .full) = .ok generator.compress := by
    decide +kernel
  have hpublic : (⟨Block.ofNat 32 1⟩ : PrivateKey).publicPoint = generator := by decide +kernel
  have hnone : ¬∃ point : AffinePoint, point.HasForm (List.replicate 33 0) := by
    rintro ⟨point, h⟩
    have hread : AffinePoint.ofBytes? (List.replicate 33 0) = none := by decide +kernel
    rw [AffinePoint.ofBytes?_eq_some_iff.mpr h] at hread
    cases hread
  have hone := (hkey ⟨Block.ofNat 32 1⟩ (by decide) (by decide)).1
  rw [hpublic] at hone
  have hzeros := hrefused (List.replicate 33 0) (.inl List.length_replicate) hnone
  refine ⟨hhybrid, hfull, (hsame _ _ _ _ hhybrid hfull).mp rfl, (hagain _ _ hhybrid).2, ?_,
    hlength [0x02] (by decide) (by decide), hzeros⟩
  rw [hpublic]
  exact hone

end Keyring
