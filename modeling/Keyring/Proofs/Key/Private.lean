import Keyring.Key.Private
import Keyring.Proofs.Curve.Encoding
import Keyring.Proofs.Curve.Scalar

/-!
Private keys, and the points that belong to them.

The secret of a key that was read is a scalar that is not zero, so its public
key is a point with coordinates, and is read back from its compressed form.
-/

namespace Keyring

open Curve
open scoped PrimeField

namespace PrivateKey

theorem ofBytes_eq_ok_iff {bytes : Bytes} {key : PrivateKey} :
    ofBytes bytes = .ok key ↔
      bytes = key.secret.bytes ∧ Scalar.isUsable key.secret = true := by
  rw [ofBytes]
  split
  · rename_i hlength
    simp only [reduceCtorEq, false_iff]
    rintro ⟨rfl, -⟩
    simp at hlength
  · rename_i secret hsecret
    obtain rfl := Block.ofBytes?_eq_some_iff.mp hsecret
    split
    · rename_i husable
      simp only [Except.ok.injEq]
      constructor
      · rintro rfl
        exact ⟨rfl, husable⟩
      · rintro ⟨hbytes, -⟩
        cases key
        rw [Block.ext hbytes]
    · rename_i husable
      simp only [reduceCtorEq, false_iff]
      rintro ⟨hbytes, h⟩
      rw [Block.ext hbytes] at husable
      exact husable h

theorem scalar_ne_zero {key : PrivateKey} (h : Scalar.isUsable key.secret = true) :
    key.scalar ≠ 0 :=
  Scalar.ofBlock_ne_zero h

/-- The public key is the multiple of the generator by the scalar of the key. -/
theorem affine_publicPoint {key : PrivateKey} (h : Scalar.isUsable key.secret = true) :
    Point.affine key.publicPoint = Point.ofGroup (key.scalar • generatorElement) := by
  have hmultiple : ((Jacobian.ofAffine generator).multiple key.scalar.val).toPoint =
      Point.ofGroup (key.scalar • generatorElement) :=
    Jacobian.toPoint_multiple (Point.toPoint_toJacobian generatorElement) key.scalar.val
  have hnonzero : key.scalar • generatorElement ≠ 0 :=
    smul_generator_ne_zero (scalar_ne_zero h)
  rw [← hmultiple, Jacobian.toPoint, if_neg]
  · rfl
  · rw [← Jacobian.toPoint_eq_infinity, hmultiple, Point.ofGroup_eq_infinity]
    exact hnonzero

theorem onCurve_publicPoint {key : PrivateKey} (h : Scalar.isUsable key.secret = true) :
    key.publicPoint.OnCurve :=
  Point.exists_ofGroup_eq_affine.mp ⟨_, (affine_publicPoint h).symm⟩

end PrivateKey

theorem publicPointOfBytes_compress {point : AffinePoint} (h : point.OnCurve) :
    publicPointOfBytes point.compress.bytes = .ok point := by
  rw [publicPointOfBytes, if_pos (.inl point.compress.length_bytes),
    AffinePoint.ofBytes?_compress h]

end Keyring
