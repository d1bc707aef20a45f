import Keyring.Proofs.Curve.Scalar

/-!
The inverse of a scalar and the products on the way to it.

The run of square and multiply is repeated with a record of its products. A product of
scalars that are not zero is not zero, since the order is prime, and a product with zero
fails; so a run that does not fail has made no product that is zero. The run for the
inverse does not fail.
-/

namespace Keyring.Curve.Scalar

open scoped PrimeField

variable {base power : Scalar} {bits : Bits}

def powerStepProducts (base : Scalar) :
    Option Scalar → Bool → Option (Option Scalar × List Scalar)
  | none, false => some (none, [])
  | none, true => some (some base, [])
  | some power, bit => do
    let square ← multiply? power power
    if bit then
      let product ← multiply? square base
      some (some product, [square, product])
    else some (some square, [square])

/-- `powerAlong` with the products that it makes, in their order. There are none of a run that
fails. -/
def powerAlongProducts (base : Scalar) :
    Option Scalar → Bits → Option (Option Scalar × List Scalar)
  | power, [] => some (power, [])
  | power, bit :: rest => do
    let (next, made) ← powerStepProducts base power bit
    let (last, later) ← powerAlongProducts base next rest
    some (last, made ++ later)

/-- The record changes nothing about a step. -/
theorem map_fst_powerStepProducts (base : Scalar) (power : Option Scalar) (bit : Bool) :
    (powerStepProducts base power bit).map Prod.fst = powerStep base power bit := by
  cases power with
  | none => cases bit <;> rfl
  | some power =>
      cases hsquare : multiply? power power with
      | none => simp [powerStepProducts, powerStep, hsquare]
      | some square =>
          cases bit with
          | false => simp [powerStepProducts, powerStep, hsquare]
          | true =>
              cases hproduct : multiply? square base <;>
                simp [powerStepProducts, powerStep, hsquare, hproduct]

/-- The record changes nothing about a run. -/
theorem bind_fst_powerAlongProducts (base : Scalar) (power : Option Scalar) (bits : Bits) :
    (powerAlongProducts base power bits).bind Prod.fst = powerAlong base power bits := by
  induction bits generalizing power with
  | nil => rfl
  | cons bit rest ih =>
      rw [powerAlong, ← map_fst_powerStepProducts, powerAlongProducts]
      cases powerStepProducts base power bit with
      | none => rfl
      | some made =>
          obtain ⟨next, products⟩ := made
          have hrest := ih next
          simp only [Option.bind_eq_bind, Option.bind_some, Option.map_some, ← hrest]
          cases powerAlongProducts base next rest <;> rfl

theorem ne_zero_of_multiply? {a b product : Scalar} (h : multiply? a b = some product) :
    product ≠ 0 := by
  rw [multiply?, Option.ite_none_left_eq_some, not_or] at h
  obtain ⟨⟨ha, hb⟩, hproduct⟩ := h
  rw [← Option.some.inj hproduct]
  exact mul_ne_zero ha hb

theorem ne_zero_of_powerStepProducts {power next : Option Scalar} {bit : Bool}
    {products : List Scalar} (h : powerStepProducts base power bit = some (next, products)) :
    ∀ product ∈ products, product ≠ 0 := by
  cases power with
  | none => cases bit <;> cases h <;> simp
  | some power =>
      obtain ⟨square, hsquare, h⟩ := Option.bind_eq_some_iff.mp h
      cases bit with
      | false =>
          cases h
          simpa using ne_zero_of_multiply? hsquare
      | true =>
          obtain ⟨product, hproduct, h⟩ := Option.bind_eq_some_iff.mp h
          cases h
          simpa using ⟨ne_zero_of_multiply? hsquare, ne_zero_of_multiply? hproduct⟩

/-- A run that does not fail makes no product that is zero. -/
theorem ne_zero_of_powerAlongProducts {power last : Option Scalar} {products : List Scalar}
    (h : powerAlongProducts base power bits = some (last, products)) :
    ∀ product ∈ products, product ≠ 0 := by
  induction bits generalizing power products with
  | nil =>
      cases h
      simp
  | cons bit rest ih =>
      obtain ⟨⟨next, made⟩, hstep, h⟩ := Option.bind_eq_some_iff.mp h
      obtain ⟨⟨final, later⟩, hrest, h⟩ := Option.bind_eq_some_iff.mp h
      cases h
      intro product hproduct
      rcases List.mem_append.mp hproduct with hmade | hlater
      · exact ne_zero_of_powerStepProducts hstep product hmade
      · exact ih hrest product hlater

theorem val_pow (a : Scalar) (n : ℕ) : (a ^ n).val = a.val ^ n % order := by
  induction n with
  | zero =>
      rw [pow_zero, pow_zero]
      rfl
  | succ n ih => rw [pow_succ, pow_succ, Fin.val_mul, ih, Nat.mod_mul_mod]

theorem length_inverseExponent : inverseExponent.length = 32 := by decide

/-- The inverse of every scalar but zero is found. It is the power by the order less two,
modulo the order, and its product with the scalar is one. None of the products along the 256
bits of that exponent is zero, and no byte of the exponent is below zero where the two are
taken off. -/
theorem inverse_is_power_without_zero_products {a : Scalar} (h : 0 < a.val) :
    (∃ inverse products, invert? a = some inverse ∧
      inverse.val = a.val ^ (order - 2) % order ∧ multiply? a inverse = some 1 ∧
      powerAlongProducts a none (Bits.ofBytes inverseExponent) =
        some (some inverse, products) ∧
      ∀ product ∈ products, product ≠ 0) ∧
    (∀ power bits, (powerAlongProducts a power bits).bind Prod.fst = powerAlong a power bits) ∧
    (Bits.ofBytes inverseExponent).length = 256 ∧
    Bytes.toNat inverseExponent = order - 2 ∧
    ∃ front last, orderBytes.bytes = front ++ [last] ∧ 2 ≤ last ∧
      inverseExponent = front ++ [last - 2] := by
  have hne : a ≠ 0 := by
    rintro rfl
    exact absurd h (by decide)
  refine ⟨?_, ?_, ?_, ?_, ?_⟩
  · -- A run that ends with a value has not failed, so there is a record of it.
    have hfound := invert?_of_ne_zero hne
    have hrun := bind_fst_powerAlongProducts a none (Bits.ofBytes inverseExponent)
    rw [show powerAlong a none (Bits.ofBytes inverseExponent) = some a⁻¹ from hfound] at hrun
    obtain ⟨⟨last, products⟩, hproducts, rfl⟩ := Option.bind_eq_some_iff.mp hrun
    have hone : multiply? a a⁻¹ = some 1 := by
      rw [multiply?_of_ne_zero hne (inv_ne_zero hne), mul_inv_cancel₀ hne]
    exact ⟨a⁻¹, products, hfound, val_pow a (order - 2), hone, hproducts,
      ne_zero_of_powerAlongProducts hproducts⟩
  · intro power bits
    exact bind_fst_powerAlongProducts a power bits
  · rw [Bits.length_ofBytes, length_inverseExponent]
  · exact toNat_inverseExponent
  · exact ⟨orderBytes.bytes.take 31, 0x41, by decide, by decide, by decide⟩

/-- The inverse of two is the half of the order, rounded up. -/
theorem inverse_is_power_without_zero_products_two :
    0 < (2 : Scalar).val ∧ ∃ inverse, invert? 2 = some inverse ∧
      inverse.val = (order + 1) / 2 ∧
      multiply? 2 inverse = some 1 := by
  have hpos : 0 < (2 : Scalar).val := by decide
  have hvalue : invert? 2 = some (Fin.ofNat order ((order + 1) / 2)) := by decide +kernel
  obtain ⟨⟨inverse, -, hfound, -, hone, -⟩, -⟩ := inverse_is_power_without_zero_products hpos
  obtain rfl := Option.some.inj (hvalue.symm.trans hfound)
  exact ⟨hpos, _, hfound, by decide, hone⟩

end Keyring.Curve.Scalar
