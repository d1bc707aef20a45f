import Keyring.Curve.Point
import Keyring.Proofs.Bytes.Bits
import Mathlib.Data.List.Prime
import Mathlib.NumberTheory.LucasPrimality
import Mathlib.Tactic.NormNum.Prime

/-!
The size of the field and the order of the group are prime.

Lucas's test proves a number `n` prime from a base whose order modulo `n` is
exactly `n - 1`. It asks for the prime factors of `n - 1`, and the large ones
among these are proved prime by the same test.
-/

namespace Keyring.Curve

def powerMod (n base exponent : ℕ) : ℕ :=
  Bits.repeated (fun a b => a * b % n) base 1 (Bits.ofNat 256 exponent)

theorem powerMod_eq (n base : ℕ) {exponent : ℕ} (h : exponent < 2 ^ 256) :
    (powerMod n base exponent : ZMod n) = (base : ZMod n) ^ exponent := by
  have hrun : (powerMod n base exponent : ZMod n) =
      (base : ZMod n) ^ Bits.toNat (Bits.ofNat 256 exponent) :=
    Bits.repeated_stands (fun (value : ℕ) k => (value : ZMod n) = (base : ZMod n) ^ k)
      (fun ha hb => by rw [ZMod.natCast_mod, Nat.cast_mul, ha, hb, pow_add])
      (pow_one _).symm (by simp) _
  rwa [Bits.toNat_ofNat_of_lt h] at hrun

/-- A base whose powers show that a number with the given factors below it is
prime. -/
def LucasWitness (n base : ℕ) (factors : List ℕ) : Prop :=
  n < 2 ^ 256 ∧ 1 < n ∧ factors.prod = n - 1 ∧ powerMod n base (n - 1) = 1 ∧
    ∀ q ∈ factors, powerMod n base ((n - 1) / q) % n ≠ 1

instance (n base : ℕ) (factors : List ℕ) : Decidable (LucasWitness n base factors) :=
  inferInstanceAs (Decidable (_ ∧ _))

theorem prime_of_lucasWitness {n : ℕ} (base : ℕ) (factors : List ℕ)
    (hprime : factors.Forall Nat.Prime) (h : LucasWitness n base factors) : n.Prime := by
  obtain ⟨hn, hone, hprod, hfull, hpart⟩ := h
  refine lucas_primality n (base : ZMod n) ?_ ?_
  · rw [← powerMod_eq n base (by omega), hfull, Nat.cast_one]
  · intro q hq hdvd
    rw [← hprod] at hdvd
    obtain ⟨f, hf, hqf⟩ := (Prime.dvd_prod_iff hq.prime).mp hdvd
    have hfprime : f.Prime := List.forall_iff_forall_mem.mp hprime f hf
    obtain rfl : q = f := (Nat.prime_dvd_prime_iff_eq hq hfprime).mp hqf
    have hlt : (n - 1) / q < 2 ^ 256 := lt_of_le_of_lt (Nat.div_le_self _ _) (by omega)
    rw [← powerMod_eq n base hlt]
    intro heq
    have hmod : powerMod n base ((n - 1) / q) % n = 1 % n :=
      (ZMod.natCast_eq_natCast_iff' _ 1 n).mp (by rw [heq, Nat.cast_one])
    exact hpart q hf (by rw [hmod, Nat.mod_eq_of_lt hone])

theorem fieldSize_prime : fieldSize.Prime := by
  have h₁ : Nat.Prime 173378833005251801 :=
    prime_of_lucasWitness 6
      [2, 2, 2, 5, 5, 2621, 24809, 13331831]
      (by norm_num [List.Forall]) (by decide +kernel)
  have h₂ : Nat.Prime 22149492674086928081353 :=
    prime_of_lucasWitness 5
      [2, 2, 2, 3, 5323, 173378833005251801]
      (by simp only [List.Forall, h₁, and_true]; norm_num) (by decide +kernel)
  have h₃ : Nat.Prime 132896956044521568488119 :=
    prime_of_lucasWitness 6
      [2, 3, 22149492674086928081353]
      (by simp only [List.Forall, h₂, and_true]; norm_num) (by decide +kernel)
  have h₄ : Nat.Prime 107590001 :=
    prime_of_lucasWitness 3
      [2, 2, 2, 2, 5, 5, 5, 5, 7, 29, 53]
      (by norm_num [List.Forall]) (by decide +kernel)
  have h₅ : Nat.Prime 255515944373312847190720520512484175977 :=
    prime_of_lucasWitness 3
      [2, 2, 2, 7, 7, 11, 1627, 2657, 4423, 41201, 96557, 7240687, 107590001]
      (by simp only [List.Forall, h₄, and_true]; norm_num) (by decide +kernel)
  have h₆ :
      Nat.Prime 205115282021455665897114700593932402728804164701536103180137503955397371 :=
    prime_of_lucasWitness 10
      [2, 3, 5, 29, 29, 31, 7723, 132896956044521568488119,
        255515944373312847190720520512484175977]
      (by simp only [List.Forall, h₃, h₅, and_true]; norm_num) (by decide +kernel)
  exact prime_of_lucasWitness 3
    [2, 3, 7, 13441, 205115282021455665897114700593932402728804164701536103180137503955397371]
    (by simp only [List.Forall, h₆, and_true]; norm_num) (by decide +kernel)

theorem order_prime : order.Prime := by
  have h₁ : Nat.Prime 107361793816595537 :=
    prime_of_lucasWitness 3
      [2, 2, 2, 2, 16699, 85831, 4681609]
      (by norm_num [List.Forall]) (by decide +kernel)
  have h₂ : Nat.Prime 174723607534414371449 :=
    prime_of_lucasWitness 3
      [2, 2, 2, 17, 59, 4051, 120233, 44706919]
      (by norm_num [List.Forall]) (by decide +kernel)
  have h₃ : Nat.Prime 545358713 :=
    prime_of_lucasWitness 5
      [2, 2, 2, 41, 59, 28181]
      (by norm_num [List.Forall]) (by decide +kernel)
  have h₄ : Nat.Prime 297159362677 :=
    prime_of_lucasWitness 2
      [2, 2, 3, 3, 11, 461, 1627771]
      (by norm_num [List.Forall]) (by decide +kernel)
  have h₅ : Nat.Prime 29047611873442575647497758179 :=
    prime_of_lucasWitness 2
      [2, 293, 305873, 545358713, 297159362677]
      (by simp only [List.Forall, h₃, h₄, and_true]; norm_num) (by decide +kernel)
  have h₆ : Nat.Prime 341948486974166000522343609283189 :=
    prime_of_lucasWitness 2
      [2, 2, 3, 3, 3, 109, 29047611873442575647497758179]
      (by simp only [List.Forall, h₅, and_true]; norm_num) (by decide +kernel)
  exact prime_of_lucasWitness 7
    [2, 2, 2, 2, 2, 2, 3, 149, 631, 107361793816595537, 174723607534414371449,
      341948486974166000522343609283189]
    (by simp only [List.Forall, h₁, h₂, h₆, and_true]; norm_num) (by decide +kernel)

end Keyring.Curve
