import Keyring.Curve.Encoding
import Keyring.Curve.Scalar
import Keyring.Proofs.Curve.Primality
import Mathlib.FieldTheory.Finite.Basic
import Mathlib.Tactic.LinearCombination

/-!
The two fields behind the curve: the field of the coordinates and the field of
the scalars.

Both are the numbers modulo a prime, with inverses by Fermat's little theorem.
The instances are scoped, so that only a module that opens `PrimeField` computes
with them.
-/

namespace Keyring.Curve

@[reducible] noncomputable def primeField (n : ℕ) [NeZero n] (hn : n.Prime) (htwo : 2 < n) :
    Field (Fin n) :=
  letI := Fin.instCommRing n
  { Fin.instCommRing n with
    inv := fun a => a ^ (n - 2)
    div := fun a b => a * b ^ (n - 2)
    exists_pair_ne := ⟨⟨0, by omega⟩, ⟨1, by omega⟩, by simp⟩
    mul_inv_cancel := by
      intro a ha
      have := Fact.mk hn
      have hne : ZMod.finEquiv n a ≠ 0 := by simpa using ha
      have hone := ZMod.pow_card_sub_one_eq_one hne
      rw [← map_pow, ← map_one (ZMod.finEquiv n)] at hone
      rw [← pow_succ', show n - 2 + 1 = n - 1 by omega]
      exact (ZMod.finEquiv n).injective hone
    inv_zero := zero_pow (by omega)
    nnqsmul := _
    nnqsmul_def := fun _ _ => rfl
    qsmul := _
    qsmul_def := fun _ _ => rfl }

namespace PrimeField

noncomputable scoped instance : Field FieldElement :=
  primeField fieldSize fieldSize_prime (by decide)

noncomputable scoped instance : Field Scalar :=
  primeField order order_prime (by decide)

end PrimeField

open scoped PrimeField

namespace FieldElement

theorem power_eq_pow (x : FieldElement) (n : ℕ) : x.power n = x ^ n := by
  induction n using Nat.strong_induction_on generalizing x with
  | _ n ih =>
      rw [power]
      split
      · rename_i h
        rw [h, pow_zero]
      · rename_i h
        have hhalf := ih (n / 2) (by omega) (x * x)
        have hdouble : (x * x) ^ (n / 2) = x ^ (2 * (n / 2)) := by
          rw [pow_mul, pow_two]
        simp only [hhalf, hdouble]
        split
        · rename_i hodd
          rw [← pow_succ']
          congr 1
          omega
        · congr 1
          omega

theorem inverse_eq_inv (x : FieldElement) : x.inverse = x⁻¹ :=
  power_eq_pow x (fieldSize - 2)

theorem two_ne_zero : (2 : FieldElement) ≠ 0 := by decide

/-- Of an element and its negative exactly one is odd. -/
theorem isOdd_neg {x : FieldElement} (hx : x ≠ 0) : (-x).isOdd = !x.isOdd := by
  have hpos : 0 < x.val := Nat.pos_of_ne_zero fun h => hx (Fin.ext h)
  have hlt := x.isLt
  have hodd : fieldSize % 2 = 1 := by decide
  have hneg : (-x).val = fieldSize - x.val := by
    rw [Fin.val_neg', Nat.mod_eq_of_lt (by omega)]
  simp only [isOdd, hneg]
  rcases Nat.mod_two_eq_zero_or_one x.val with h | h
  · have : (fieldSize - x.val) % 2 = 1 := by omega
    simp [h, this]
  · have : (fieldSize - x.val) % 2 = 0 := by omega
    simp [h, this]

/-- The root of a square is one of the two elements that it is the square of. -/
theorem root_mul_self (y : FieldElement) : root (y * y) = y ∨ root (y * y) = -y := by
  have hcard : y ^ fieldSize = y := by
    by_cases hy : y = 0
    · rw [hy]
      exact zero_pow (by decide)
    · have h := mul_inv_cancel₀ hy
      change y * y ^ (fieldSize - 2) = 1 at h
      calc
        y ^ fieldSize = y * (y * y ^ (fieldSize - 2)) := by
          rw [← pow_succ', ← pow_succ', show fieldSize - 2 + 1 + 1 = fieldSize by decide]
        _ = y := by rw [h, mul_one]
  have hsquare : root (y * y) * root (y * y) = y * y := by
    rw [root, power_eq_pow, ← pow_two, ← pow_two, ← pow_mul, ← pow_mul,
      show 2 * ((fieldSize + 1) / 4 * 2) = fieldSize + 1 by decide, pow_succ, hcard, pow_two]
  have hzero : (root (y * y) - y) * (root (y * y) + y) = 0 := by
    linear_combination hsquare
  rcases mul_eq_zero.mp hzero with h | h
  · exact .inl (sub_eq_zero.mp h)
  · exact .inr (eq_neg_of_add_eq_zero_left h)

end FieldElement

/-- The curve has no point with `y = 0`: the negative of seven is not a cube, as
its power by a third of the order of the multiplicative group shows. -/
theorem rightSide_ne_zero (x : FieldElement) : rightSide x ≠ 0 := by
  intro h
  have hcube : x ^ 3 = -7 := by
    rw [rightSide] at h
    linear_combination h
  have hx : x ≠ 0 := by
    rintro rfl
    exact absurd h (by decide)
  have hone : (-7 : FieldElement) ^ ((fieldSize - 1) / 3) = 1 := by
    have hfermat := mul_inv_cancel₀ hx
    change x * x ^ (fieldSize - 2) = 1 at hfermat
    rw [← hcube, ← pow_mul, show 3 * ((fieldSize - 1) / 3) = fieldSize - 2 + 1 by decide,
      pow_succ', hfermat]
  have hbits : Bits.toNat (Bits.ofNat 256 ((fieldSize - 1) / 3)) = (fieldSize - 1) / 3 :=
    Bits.toNat_ofNat_of_lt (by decide)
  rw [← hbits, ← Bits.repeated_mul] at hone
  exact absurd hone (by decide +kernel)

end Keyring.Curve
