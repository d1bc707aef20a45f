import Keyring.Proofs.Curve.Group
import Mathlib.Algebra.Module.Basic
import Mathlib.GroupTheory.OrderOfElement
import Mathlib.GroupTheory.Perm.Cycle.Type
import Mathlib.SetTheory.Cardinal.Finite

/-!
The group of the curve has prime order and is generated by the generator.

A multiple of the generator is computed to be neutral, so the prime `order`
divides the number of points. There are at most two points for each `x`, which
leaves one or two times `order`; twice would give a point that is its own
negative, and there is none. Hence scalars act on points, as a field on a vector
space.
-/

namespace Keyring.Curve

open scoped PrimeField
open WeierstrassCurve.Affine hiding Point

theorem AffinePoint.y_ne_zero {point : AffinePoint} (h : point.OnCurve) : point.y ≠ 0 := by
  intro hy
  rw [OnCurve, hy, mul_zero] at h
  exact rightSide_ne_zero point.x h.symm

/-- A point of the curve is determined by its `x` and whether its `y` is odd. -/
theorem AffinePoint.eq_of_isOdd {p q : AffinePoint} (hp : p.OnCurve) (hq : q.OnCurve)
    (hx : p.x = q.x) (hodd : p.y.isOdd = q.y.isOdd) : p = q := by
  have hsquare : (p.y - q.y) * (p.y + q.y) = 0 := by
    rw [OnCurve] at hp hq
    rw [hx] at hp
    linear_combination hp - hq
  rcases mul_eq_zero.mp hsquare with h | h
  · cases p
    cases q
    simp only [AffinePoint.mk.injEq]
    exact ⟨hx, sub_eq_zero.mp h⟩
  · rw [eq_neg_of_add_eq_zero_left h, FieldElement.isOdd_neg (y_ne_zero hq)] at hodd
    simp at hodd

noncomputable def generatorElement : CurveGroup :=
  .some generator.x generator.y (equation_iff_nonsingular.mp
    (equation_iff_onCurve.mpr (by decide +kernel)))

@[simp] theorem ofGroup_generatorElement :
    Point.ofGroup generatorElement = .affine generator := rfl

theorem generatorMultiple_eq (factor : ℕ) :
    generatorMultiple factor = Point.ofGroup (factor • generatorElement) := by
  rw [generatorMultiple, ← ofGroup_generatorElement, Point.multiple_ofGroup]

theorem order_smul_generator : order • generatorElement = 0 := by
  have hrun : (Bits.repeated Jacobian.add (.ofAffine generator) .infinity
      (Bits.ofNat 256 order)).toPoint =
        Point.ofGroup (Bits.toNat (Bits.ofNat 256 order) • generatorElement) :=
    Bits.repeated_stands (fun (p : Jacobian) k =>
      p.toPoint = Point.ofGroup (k • generatorElement))
      (fun hp hq => by rw [add_smul, Jacobian.toPoint_add hp hq])
      (by rw [one_smul]; exact Point.toPoint_toJacobian generatorElement)
      (by rw [zero_smul, Jacobian.toPoint_infinity]) _
  have hneutral : (Bits.repeated Jacobian.add (.ofAffine generator) .infinity
      (Bits.ofNat 256 order)).z = 0 := by decide +kernel
  rw [Jacobian.toPoint_eq_infinity.mpr hneutral, Bits.toNat_ofNat_of_lt (by decide)] at hrun
  exact Point.ofGroup_eq_infinity.mp hrun.symm

theorem addOrderOf_generator : addOrderOf generatorElement = order := by
  have := Fact.mk order_prime
  exact addOrderOf_eq_prime order_smul_generator (WeierstrassCurve.Affine.Point.some_ne_zero _)

def Point.mark : CurveGroup → Option (FieldElement × Bool)
  | .zero => none
  | .some x y _ => some (x, y.isOdd)

theorem Point.mark_injective : Function.Injective mark := by
  rintro (_ | ⟨x, y, h⟩) (_ | ⟨x', y', h'⟩) heq
  · rfl
  · simp [mark] at heq
  · simp [mark] at heq
  · simp only [mark, Option.some.injEq, Prod.mk.injEq] at heq
    have hpoint : (⟨x, y⟩ : AffinePoint) = ⟨x', y'⟩ :=
      AffinePoint.eq_of_isOdd (equation_iff_onCurve.mp h.1) (equation_iff_onCurve.mp h'.1)
        heq.1 heq.2
    rw [AffinePoint.mk.injEq] at hpoint
    obtain ⟨rfl, rfl⟩ := hpoint
    rfl

instance : Finite CurveGroup := Finite.of_injective Point.mark Point.mark_injective

theorem natCard_curveGroup_le : Nat.card CurveGroup ≤ 2 * fieldSize + 1 := by
  have h := Nat.card_le_card_of_injective Point.mark Point.mark_injective
  have hcard : Nat.card (Option (FieldElement × Bool)) = fieldSize * 2 + 1 := by
    rw [Finite.card_option, Nat.card_prod, Nat.card_fin, Nat.card_eq_fintype_card,
      Fintype.card_bool]
  omega

/-- No point but the neutral one is its own negative. -/
theorem eq_zero_of_add_self {g : CurveGroup} (h : g + g = 0) : g = 0 := by
  cases g with
  | zero => rfl
  | some x y hxy =>
      exfalso
      have hneg : Point.ofGroup (.some x y hxy) = Point.ofGroup (-.some x y hxy) :=
        congrArg Point.ofGroup (eq_neg_of_add_eq_zero_left h)
      have hy : y = -y := by
        rw [WeierstrassCurve.Affine.Point.neg_some, Point.ofGroup_some, Point.ofGroup_some,
          negY_weierstrass] at hneg
        simpa using hneg
      have htwo : 2 * y = 0 := by linear_combination hy
      rcases mul_eq_zero.mp htwo with h2 | h2
      · exact FieldElement.two_ne_zero h2
      · exact AffinePoint.y_ne_zero (equation_iff_onCurve.mp hxy.1) h2

/-- The number of points of the curve. -/
theorem natCard_curveGroup : Nat.card CurveGroup = order := by
  have hdvd : order ∣ Nat.card CurveGroup :=
    addOrderOf_generator ▸ addOrderOf_dvd_natCard generatorElement
  obtain ⟨c, hc⟩ := hdvd
  have hpos : 0 < Nat.card CurveGroup := Nat.card_pos
  have hle := natCard_curveGroup_le
  have hbound : 2 * fieldSize + 1 < order * 3 := by decide
  have hlt : c < 3 := by
    by_contra hge
    have : order * 3 ≤ order * c := Nat.mul_le_mul_left _ (by omega)
    omega
  -- Were there twice as many points, one of them would be of order two.
  interval_cases c
  · omega
  · omega
  · exfalso
    have := Fact.mk Nat.prime_two
    obtain ⟨g, hg⟩ := exists_prime_addOrderOf_dvd_card' (G := CurveGroup) 2 ⟨order, by omega⟩
    have hself : g + g = 0 := by
      rw [← two_nsmul, ← hg]
      exact addOrderOf_nsmul_eq_zero g
    rw [eq_zero_of_add_self hself, addOrderOf_zero] at hg
    omega

theorem order_smul (g : CurveGroup) : order • g = 0 := by
  rw [← natCard_curveGroup]
  exact card_nsmul_eq_zero'

/-- Every point of the curve is a multiple of the generator. -/
theorem exists_smul_generator (g : CurveGroup) : ∃ k : ℕ, k • generatorElement = g := by
  have hcard : Nat.card (AddSubgroup.zmultiples generatorElement) = Nat.card CurveGroup := by
    rw [Nat.card_zmultiples, addOrderOf_generator, natCard_curveGroup]
  have htop := AddSubgroup.eq_top_of_card_eq _ hcard
  have hmem : g ∈ AddSubgroup.zmultiples generatorElement := htop ▸ AddSubgroup.mem_top g
  rwa [← mem_multiples_iff_mem_zmultiples] at hmem

theorem mod_order_smul (k : ℕ) (g : CurveGroup) : (k % order) • g = k • g := by
  conv_rhs => rw [← Nat.mod_add_div k order, add_smul, mul_comm, mul_smul, order_smul,
    smul_zero, add_zero]

noncomputable instance : Module Scalar CurveGroup where
  smul a g := a.val • g
  one_smul g := one_smul ℕ g
  mul_smul a b g := by
    change (a * b).val • g = a.val • b.val • g
    rw [Fin.val_mul, mod_order_smul, mul_smul]
  smul_zero a := smul_zero a.val
  smul_add a g h := smul_add a.val g h
  add_smul a b g := by
    change (a + b).val • g = a.val • g + b.val • g
    rw [Fin.val_add, mod_order_smul, add_smul]
  zero_smul g := zero_smul ℕ g

theorem val_smul (a : Scalar) (g : CurveGroup) : a.val • g = a • g := rfl

theorem smul_generator_ne_zero {a : Scalar} (h : a ≠ 0) : a • generatorElement ≠ 0 :=
  smul_ne_zero h (WeierstrassCurve.Affine.Point.some_ne_zero _)

end Keyring.Curve
