import Keyring.Proofs.Curve.Order

/-!
Points as blocks: what decompression finds.

An `x` and a parity are lifted to the one point of the curve that has both, if
there is one.
-/

namespace Keyring.Curve

open scoped PrimeField

namespace FieldElement

theorem ofBlock?_eq_some_iff {block : Block 32} {x : FieldElement} :
    ofBlock? block = some x ↔ x.val = block.toNat := by
  rw [ofBlock?]
  split
  · rw [Option.some.injEq, Fin.ext_iff, eq_comm]
  · rename_i h
    simp only [reduceCtorEq, false_iff]
    intro heq
    exact h (heq ▸ x.isLt)

theorem toNat_toBlock (x : FieldElement) : x.toBlock.toNat = x.val :=
  Block.toNat_ofNat_of_lt (x.isLt.trans (by decide))

end FieldElement

namespace AffinePoint

/-- The one of two opposite elements that has a given parity. -/
theorem select_isOdd {root y : FieldElement} (hy : y ≠ 0) (h : root = y ∨ root = -y) :
    (if root.isOdd = y.isOdd then root else -root) = y := by
  rcases h with rfl | rfl
  · rw [if_pos rfl]
  · rw [FieldElement.isOdd_neg hy, if_neg (by simp), neg_neg]

theorem lift?_eq_some_iff {x : FieldElement} {odd : Bool} {point : AffinePoint} :
    lift? x odd = some point ↔ point.OnCurve ∧ point.x = x ∧ point.y.isOdd = odd := by
  simp only [lift?, Option.ite_none_right_eq_some, Option.some.injEq]
  constructor
  · rintro ⟨hcurve, rfl⟩
    refine ⟨hcurve, rfl, ?_⟩
    have hy := y_ne_zero hcurve
    simp only at hy ⊢
    split
    · assumption
    · rename_i hodd
      rw [if_neg hodd, neg_ne_zero] at hy
      rw [FieldElement.isOdd_neg hy]
      exact Bool.not_eq.mpr hodd
  · rintro ⟨hcurve, rfl, rfl⟩
    have hselect := select_isOdd (y_ne_zero hcurve) (FieldElement.root_mul_self point.y)
    have hsquare : point.y * point.y = rightSide point.x := hcurve
    rw [hsquare] at hselect
    rw [hselect]
    exact ⟨hcurve, rfl⟩

theorem ofCompressed?_eq_some_iff {tag : UInt8} {odd : Bool}
    (htag : tag = if odd then 0x03 else 0x02) {xs : Block 32} {point : AffinePoint} :
    ofCompressed? tag xs = some point ↔
      point.OnCurve ∧ point.x.val = xs.toNat ∧ point.y.isOdd = odd := by
  have hlift : ∀ x, (if tag = 0x02 then lift? x false else if tag = 0x03 then lift? x true
      else none) = lift? x odd := by
    intro x
    cases odd <;> simp [htag]
  simp only [ofCompressed?, hlift, Option.bind_eq_bind, Option.bind_eq_some_iff,
    FieldElement.ofBlock?_eq_some_iff, lift?_eq_some_iff]
  constructor
  · rintro ⟨x, hx, hcurve, rfl, hodd⟩
    exact ⟨hcurve, hx, hodd⟩
  · rintro ⟨hcurve, hx, hodd⟩
    exact ⟨point.x, hx, hcurve, rfl, hodd⟩

theorem bytes_compress (point : AffinePoint) :
    point.compress.bytes = (if point.y.isOdd then 0x03 else 0x02) ::
      point.x.toBlock.bytes := by
  rw [compress, Block.append]
  cases point.y.isOdd <;> rfl

/-- A point of the curve is read back from its compressed form. -/
theorem ofBytes?_compress {point : AffinePoint} (h : point.OnCurve) :
    ofBytes? point.compress.bytes = some point := by
  rw [bytes_compress, ofBytes?, Block.ofBytes?_bytes]
  exact (ofCompressed?_eq_some_iff rfl).mpr ⟨h, (FieldElement.toNat_toBlock point.x).symm, rfl⟩

end AffinePoint

end Keyring.Curve
