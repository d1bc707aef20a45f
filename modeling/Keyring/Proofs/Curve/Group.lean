import Keyring.Proofs.Curve.Field
import Mathlib.AlgebraicGeometry.EllipticCurve.Affine.Point

/-!
The group of the curve, and the point arithmetic that computes in it.

The points of `y² = x³ + 7` with coordinates in the field, and the one at
infinity, are the group of a Weierstrass curve. `Point.ofGroup` writes an element
of that group as a point. Sums and multiples of points so written are the sums
and multiples of the group; the Jacobian triples in between are any that stand
for the point.
-/

namespace Keyring.Curve

open scoped PrimeField
open WeierstrassCurve.Affine hiding Point

noncomputable def weierstrass : WeierstrassCurve.Affine FieldElement where
  a₁ := 0
  a₂ := 0
  a₃ := 0
  a₄ := 0
  a₆ := 7

noncomputable instance : weierstrass.IsElliptic where
  isUnit := by
    have hΔ : weierstrass.Δ = -21168 := by
      simp only [WeierstrassCurve.Δ, WeierstrassCurve.b₂, WeierstrassCurve.b₄,
        WeierstrassCurve.b₆, WeierstrassCurve.b₈, weierstrass]
      ring
    rw [hΔ, isUnit_iff_ne_zero]
    decide

abbrev CurveGroup := weierstrass.Point

theorem equation_iff_onCurve {x y : FieldElement} :
    weierstrass.Equation x y ↔ AffinePoint.OnCurve ⟨x, y⟩ := by
  rw [WeierstrassCurve.Affine.equation_iff]
  simp only [AffinePoint.OnCurve, rightSide, weierstrass]
  constructor <;> intro h <;> linear_combination h

@[simp] theorem negY_weierstrass (x y : FieldElement) : weierstrass.negY x y = -y := by
  simp [WeierstrassCurve.Affine.negY, weierstrass]

theorem addX_weierstrass (x₁ x₂ slope : FieldElement) :
    weierstrass.addX x₁ x₂ slope = slope ^ 2 - x₁ - x₂ := by
  simp [WeierstrassCurve.Affine.addX, weierstrass]

theorem addY_weierstrass (x₁ x₂ y₁ slope : FieldElement) :
    weierstrass.addY x₁ x₂ y₁ slope = slope * (x₁ - (slope ^ 2 - x₁ - x₂)) - y₁ := by
  simp only [WeierstrassCurve.Affine.addY, WeierstrassCurve.Affine.negAddY, negY_weierstrass,
    addX_weierstrass]
  ring

theorem chord_slope {x₁ x₂ : FieldElement} (hx : x₁ ≠ x₂) (y₁ y₂ : FieldElement) :
    weierstrass.slope x₁ x₂ y₁ y₂ * (x₁ - x₂) = y₁ - y₂ := by
  rw [slope_of_X_ne hx]
  exact div_mul_cancel₀ _ (sub_ne_zero.mpr hx)

theorem tangent_slope (x : FieldElement) {y : FieldElement} (hy : y ≠ weierstrass.negY x y) :
    weierstrass.slope x x y y * (2 * y) = 3 * x ^ 2 := by
  have htwo : y - weierstrass.negY x y = 2 * y := by
    rw [negY_weierstrass]
    ring
  rw [slope_of_Y_ne rfl hy, ← htwo, div_mul_cancel₀ _ (sub_ne_zero.mpr hy)]
  simp [weierstrass]

namespace Point

def ofGroup : CurveGroup → Point
  | .zero => .infinity
  | .some x y _ => .affine ⟨x, y⟩

@[simp] theorem ofGroup_zero : ofGroup 0 = .infinity := rfl

@[simp] theorem ofGroup_some {x y : FieldElement} (h : weierstrass.Nonsingular x y) :
    ofGroup (.some x y h) = .affine ⟨x, y⟩ := rfl

theorem ofGroup_injective : Function.Injective ofGroup := by
  rintro (_ | ⟨x, y, h⟩) (_ | ⟨x', y', h'⟩) heq
  · rfl
  · simp [ofGroup] at heq
  · simp [ofGroup] at heq
  · simp only [ofGroup_some, Point.affine.injEq, AffinePoint.mk.injEq] at heq
    obtain ⟨rfl, rfl⟩ := heq
    rfl

@[simp] theorem ofGroup_inj {g h : CurveGroup} : ofGroup g = ofGroup h ↔ g = h :=
  ofGroup_injective.eq_iff

@[simp] theorem ofGroup_eq_infinity {g : CurveGroup} : ofGroup g = .infinity ↔ g = 0 := by
  rw [← ofGroup_zero, ofGroup_inj]

/-- The points with coordinates in the group are those on the curve. -/
theorem exists_ofGroup_eq_affine {point : AffinePoint} :
    (∃ g, ofGroup g = .affine point) ↔ point.OnCurve := by
  constructor
  · rintro ⟨_ | ⟨x, y, h⟩, heq⟩
    · simp [ofGroup] at heq
    · rw [ofGroup_some, Point.affine.injEq] at heq
      rw [← heq, ← equation_iff_onCurve]
      exact h.1
  · intro h
    exact ⟨.some point.x point.y (equation_iff_nonsingular.mp (equation_iff_onCurve.mpr h)),
      rfl⟩

theorem ofGroup_neg {g : CurveGroup} {point : AffinePoint} (h : ofGroup g = .affine point) :
    ofGroup (-g) = .affine ⟨point.x, -point.y⟩ := by
  cases g with
  | zero => cases h
  | some x y hxy =>
      rw [ofGroup_some, Point.affine.injEq] at h
      rw [WeierstrassCurve.Affine.Point.neg_some, ofGroup_some, negY_weierstrass, ← h]

end Point

namespace Jacobian

theorem toPoint_eq_infinity {p : Jacobian} : p.toPoint = .infinity ↔ p.z = 0 := by
  rw [toPoint]
  split <;> simp_all

/-- The triples that stand for a point with coordinates. -/
theorem toPoint_eq_affine {p : Jacobian} {x y : FieldElement} :
    p.toPoint = .affine ⟨x, y⟩ ↔ p.z ≠ 0 ∧ p.x = x * p.z ^ 2 ∧ p.y = y * p.z ^ 3 := by
  rw [toPoint]
  split
  · simp_all
  · rename_i hz
    have htwo : p.z⁻¹ * p.z⁻¹ = (p.z ^ 2)⁻¹ := by rw [← sq, inv_pow]
    have hthree : (p.z ^ 2)⁻¹ * p.z⁻¹ = (p.z ^ 3)⁻¹ := by rw [← mul_inv, ← pow_succ]
    simp only [toAffine, FieldElement.inverse_eq_inv, Point.affine.injEq, AffinePoint.mk.injEq,
      htwo, hthree, mul_inv_eq_iff_eq_mul₀ (pow_ne_zero _ hz), ne_eq, hz, not_false_eq_true,
      true_and]

/-- The tangent: with `y = 0` it is vertical and meets the curve at infinity. -/
theorem toPoint_double {p : Jacobian} {g : CurveGroup} (hp : p.toPoint = Point.ofGroup g) :
    p.double.toPoint = Point.ofGroup (g + g) := by
  cases g with
  | zero =>
      have hz : p.z = 0 := toPoint_eq_infinity.mp hp
      have hinf : p.double.toPoint = .infinity := by
        rw [toPoint_eq_infinity]
        simp [double, hz]
      rw [hinf]
      rfl
  | some x y h =>
      rw [Point.ofGroup_some, toPoint_eq_affine] at hp
      obtain ⟨hz, hx, hy⟩ := hp
      -- With `y = 0` the point is its own negative; else it has a tangent with a slope.
      by_cases hy0 : y = 0
      · have hsum : Point.some x y h + Point.some x y h = 0 :=
          Point.add_self_of_Y_eq (by rw [negY_weierstrass, hy0, neg_zero])
        rw [hsum, Point.ofGroup_zero, toPoint_eq_infinity]
        simp [double, hy, hy0]
      · have htwo : 2 * y ≠ 0 := mul_ne_zero FieldElement.two_ne_zero hy0
        have hne : y ≠ weierstrass.negY x y := by
          rw [negY_weierstrass]
          intro heq
          apply htwo
          linear_combination heq
        have hline := tangent_slope x hne
        rw [Point.add_self_of_Y_ne hne, Point.ofGroup_some, toPoint_eq_affine,
          addX_weierstrass, addY_weierstrass]
        generalize weierstrass.slope x x y y = slope at hline ⊢
        refine ⟨?_, ?_, ?_⟩
        · simp only [double, hy]
          exact mul_ne_zero FieldElement.two_ne_zero
            (mul_ne_zero (mul_ne_zero hy0 (pow_ne_zero 3 hz)) hz)
        · simp only [double, hx, hy]
          linear_combination (-(2 * slope * y + 3 * x ^ 2) * p.z ^ 8) * hline
        · simp only [double, hx, hy]
          linear_combination (-p.z ^ 12 * (12 * x * y ^ 2 -
            ((3 * x ^ 2) ^ 2 + 3 * x ^ 2 * (2 * slope * y) + (2 * slope * y) ^ 2))) * hline

section Chord

variable {p q : Jacobian} {x₁ y₁ x₂ y₂ : FieldElement}

/-- What the chord is computed from: the differences of the coordinates, by factors that
are not zero. -/
theorem difference_x (hp : p.toPoint = .affine ⟨x₁, y₁⟩) (hq : q.toPoint = .affine ⟨x₂, y₂⟩) :
    q.x * (p.z * p.z) - p.x * (q.z * q.z) = (x₂ - x₁) * (p.z * q.z) ^ 2 := by
  rw [(toPoint_eq_affine.mp hp).2.1, (toPoint_eq_affine.mp hq).2.1]
  ring

theorem difference_y (hp : p.toPoint = .affine ⟨x₁, y₁⟩) (hq : q.toPoint = .affine ⟨x₂, y₂⟩) :
    q.y * (p.z * p.z * p.z) - p.y * (q.z * q.z * q.z) = (y₂ - y₁) * (p.z * q.z) ^ 3 := by
  rw [(toPoint_eq_affine.mp hp).2.2, (toPoint_eq_affine.mp hq).2.2]
  ring

theorem difference_x_eq_zero_iff (hp : p.toPoint = .affine ⟨x₁, y₁⟩)
    (hq : q.toPoint = .affine ⟨x₂, y₂⟩) :
    q.x * (p.z * p.z) - p.x * (q.z * q.z) = 0 ↔ x₁ = x₂ := by
  have hw : p.z * q.z ≠ 0 :=
    mul_ne_zero (toPoint_eq_affine.mp hp).1 (toPoint_eq_affine.mp hq).1
  rw [difference_x hp hq, mul_eq_zero, or_iff_left (pow_ne_zero 2 hw), sub_eq_zero, eq_comm]

theorem difference_y_eq_zero_iff (hp : p.toPoint = .affine ⟨x₁, y₁⟩)
    (hq : q.toPoint = .affine ⟨x₂, y₂⟩) :
    q.y * (p.z * p.z * p.z) - p.y * (q.z * q.z * q.z) = 0 ↔ y₁ = y₂ := by
  have hw : p.z * q.z ≠ 0 :=
    mul_ne_zero (toPoint_eq_affine.mp hp).1 (toPoint_eq_affine.mp hq).1
  rw [difference_y hp hq, mul_eq_zero, or_iff_left (pow_ne_zero 3 hw), sub_eq_zero, eq_comm]

/-- Two points with one `x` have the tangent or a vertical line through them. -/
theorem add_of_x_eq (hp : p.toPoint = .affine ⟨x₁, y₁⟩) (hq : q.toPoint = .affine ⟨x₂, y₂⟩)
    (hx : x₁ = x₂) : p.add q = if y₁ = y₂ then p.double else infinity := by
  have hpz := (toPoint_eq_affine.mp hp).1
  have hqz := (toPoint_eq_affine.mp hq).1
  simp only [add, if_neg hpz, if_neg hqz, if_pos ((difference_x_eq_zero_iff hp hq).mpr hx),
    difference_y_eq_zero_iff hp hq]

theorem toPoint_add_of_x_ne {h₁ : weierstrass.Nonsingular x₁ y₁}
    {h₂ : weierstrass.Nonsingular x₂ y₂} (hp : p.toPoint = .affine ⟨x₁, y₁⟩)
    (hq : q.toPoint = .affine ⟨x₂, y₂⟩) (hx : x₁ ≠ x₂) :
    (p.add q).toPoint = Point.ofGroup (.some x₁ y₁ h₁ + .some x₂ y₂ h₂) := by
  obtain ⟨hpz, hpx, hpy⟩ := toPoint_eq_affine.mp hp
  have hqz := (toPoint_eq_affine.mp hq).1
  have hw : p.z * q.z ≠ 0 := mul_ne_zero hpz hqz
  have hline := chord_slope hx y₁ y₂
  rw [Point.add_of_X_ne hx, Point.ofGroup_some, addX_weierstrass, addY_weierstrass,
    toPoint_eq_affine]
  generalize weierstrass.slope x₁ x₂ y₁ y₂ = slope at hline ⊢
  have hy₂ : y₂ = y₁ - slope * (x₁ - x₂) := by linear_combination hline
  simp only [add, if_neg hpz, if_neg hqz, if_neg (mt (difference_x_eq_zero_iff hp hq).mp hx)]
  rw [difference_x hp hq, difference_y hp hq, hpx, hpy, hy₂]
  refine ⟨?_, ?_, ?_⟩
  · exact mul_ne_zero (mul_ne_zero (sub_ne_zero.mpr (Ne.symm hx)) (pow_ne_zero 2 hw)) hw
  · ring
  · ring

end Chord

/-- The chord, with the tangent and the vertical line as its limiting cases. -/
theorem toPoint_add {p q : Jacobian} {g h : CurveGroup} (hp : p.toPoint = Point.ofGroup g)
    (hq : q.toPoint = Point.ofGroup h) : (p.add q).toPoint = Point.ofGroup (g + h) := by
  cases g with
  | zero =>
      have hz : p.z = 0 := toPoint_eq_infinity.mp hp
      rw [add, if_pos hz, hq]
      rfl
  | some x₁ y₁ h₁ =>
      cases h with
      | zero =>
          have hpz : p.z ≠ 0 := (toPoint_eq_affine.mp hp).1
          have hqz : q.z = 0 := toPoint_eq_infinity.mp hq
          rw [add, if_neg hpz, if_pos hqz, hp]
          rfl
      | some x₂ y₂ h₂ =>
          by_cases hx : x₁ = x₂
          · rw [add_of_x_eq hp hq hx]
            by_cases hy : y₁ = y₂
            · subst hx hy
              rw [if_pos rfl]
              exact toPoint_double hp
            · have hneg : y₁ = weierstrass.negY x₂ y₂ :=
                (Y_eq_of_X_eq h₁.1 h₂.1 hx).resolve_left hy
              rw [if_neg hy, Point.add_of_Y_eq hx hneg, Point.ofGroup_zero,
                toPoint_eq_infinity]
              rfl
          · exact toPoint_add_of_x_ne hp hq hx

theorem toPoint_infinity : infinity.toPoint = Point.ofGroup 0 :=
  toPoint_eq_infinity.mpr rfl

/-- Doubling and adding along the bits of the factor gives the multiple. -/
theorem toPoint_multiple {p : Jacobian} {g : CurveGroup} (hp : p.toPoint = Point.ofGroup g)
    (factor : ℕ) : (p.multiple factor).toPoint = Point.ofGroup (factor • g) := by
  induction factor using Nat.strong_induction_on with
  | _ factor ih =>
      rw [multiple]
      split
      · rename_i h
        rw [h, zero_smul, toPoint_infinity]
      · rename_i h
        -- Doubled, the multiple by half the factor is short of one summand if that is odd.
        have heven : (p.multiple (factor / 2)).double.toPoint =
            Point.ofGroup ((2 * (factor / 2)) • g) := by
          rw [two_mul, add_smul]
          exact toPoint_double (ih (factor / 2) (by omega))
        simp only
        split
        · rename_i hodd
          rw [toPoint_add heven hp, ← succ_nsmul]
          congr 2
          omega
        · rw [heven]
          congr 2
          omega

end Jacobian

namespace Point

theorem toPoint_toJacobian (g : CurveGroup) : (ofGroup g).toJacobian.toPoint = ofGroup g := by
  cases g with
  | zero => exact Jacobian.toPoint_infinity
  | some x y h =>
      rw [ofGroup_some, Jacobian.toPoint_eq_affine]
      simp [toJacobian, Jacobian.ofAffine]

@[simp] theorem add_ofGroup (g h : CurveGroup) :
    (ofGroup g).add (ofGroup h) = ofGroup (g + h) :=
  Jacobian.toPoint_add (toPoint_toJacobian g) (toPoint_toJacobian h)

@[simp] theorem multiple_ofGroup (g : CurveGroup) (factor : ℕ) :
    (ofGroup g).multiple factor = ofGroup (factor • g) :=
  Jacobian.toPoint_multiple (toPoint_toJacobian g) factor

end Point

end Keyring.Curve
