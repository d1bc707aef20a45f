import Keyring.Proofs.Armor.Checksum
import Mathlib.Algebra.Field.ZMod
import Mathlib.Algebra.Polynomial.Div
import Mathlib.Data.Nat.Size

/-!
The checksum of envelopes as a remainder of polynomials over the field with two elements.

The binary digits of a number are the coefficients of a polynomial, so that exclusive or
is the sum. Moving the register multiplies its polynomial by `X`, and takes the generator
off if that makes the degree twenty-four. So what a sequence of bits leaves in the register
differs by a multiple of the generator from the polynomial of all bits, in front of them the
one of the register; and as the register stays below the degree of the generator, it holds
the remainder.
-/

namespace Keyring.Armor

open Polynomial Word

/-! ### Digits as coefficients -/

noncomputable def digitPolynomial (n : ℕ) : (ZMod 2)[X] :=
  ∑ i ∈ Finset.range n.size, if n.testBit i then X ^ i else 0

theorem coeff_digitPolynomial (n i : ℕ) :
    (digitPolynomial n).coeff i = if n.testBit i then 1 else 0 := by
  have hterm : ∀ j, (if n.testBit j then (X : (ZMod 2)[X]) ^ j else 0).coeff i =
      if i = j then (if n.testBit i then 1 else 0) else 0 := by
    intro j
    by_cases hij : i = j
    · subst hij
      split <;> simp
    · split <;> simp [coeff_X_pow, hij]
  rw [digitPolynomial, finsetSum_coeff, Finset.sum_congr rfl fun j _ => hterm j,
    Finset.sum_ite_eq]
  split
  · rfl
  · rename_i hi
    rw [Finset.mem_range, not_lt, Nat.size_le] at hi
    rw [Nat.testBit_lt_two_pow hi]
    rfl

theorem digitPolynomial_inj {m n : ℕ} : digitPolynomial m = digitPolynomial n ↔ m = n := by
  constructor
  · intro h
    apply Nat.eq_of_testBit_eq
    intro i
    have hcoeff := congrArg (fun p : (ZMod 2)[X] => p.coeff i) h
    simp only [coeff_digitPolynomial] at hcoeff
    cases hm : m.testBit i <;> cases hn : n.testBit i <;> simp [hm, hn] at hcoeff ⊢
  · rintro rfl
    rfl

@[simp] theorem digitPolynomial_zero : digitPolynomial 0 = 0 := by
  ext i
  simp [coeff_digitPolynomial]

@[simp] theorem digitPolynomial_one : digitPolynomial 1 = 1 := by
  simp [digitPolynomial]

theorem digitPolynomial_xor (m n : ℕ) :
    digitPolynomial (m ^^^ n) = digitPolynomial m + digitPolynomial n := by
  ext i
  rw [coeff_add, coeff_digitPolynomial, coeff_digitPolynomial, coeff_digitPolynomial,
    Nat.testBit_xor]
  -- Two ones add up to zero.
  cases m.testBit i <;> cases n.testBit i <;> decide

theorem digitPolynomial_mul_two_pow (n k : ℕ) :
    digitPolynomial (n * 2 ^ k) = digitPolynomial n * X ^ k := by
  ext i
  rw [coeff_mul_X_pow', coeff_digitPolynomial, coeff_digitPolynomial, mul_comm,
    Nat.testBit_two_pow_mul]
  by_cases h : k ≤ i <;> simp [h]

theorem digitPolynomial_two_mul (n : ℕ) : digitPolynomial (2 * n) = X * digitPolynomial n := by
  have h := digitPolynomial_mul_two_pow n 1
  rwa [pow_one, pow_one, mul_comm n, mul_comm (digitPolynomial n)] at h

/-- Of two numbers of which one starts where the other ends, the digits make one polynomial. -/
theorem digitPolynomial_mul_two_pow_add {k n : ℕ} (h : n < 2 ^ k) (m : ℕ) :
    digitPolynomial (m * 2 ^ k + n) = digitPolynomial m * X ^ k + digitPolynomial n := by
  rw [← two_pow_mul_xor h, digitPolynomial_xor, digitPolynomial_mul_two_pow]

theorem degree_digitPolynomial_lt {n k : ℕ} (h : n < 2 ^ k) :
    (digitPolynomial n).degree < k := by
  rw [degree_lt_iff_coeff_zero]
  intro i hi
  have hbit : n.testBit i = false :=
    Nat.testBit_lt_two_pow (h.trans_le (Nat.pow_le_pow_right (by omega) hi))
  simp [coeff_digitPolynomial, hbit]

/-! ### The generator -/

noncomputable def generator : (ZMod 2)[X] :=
  X ^ 24 + digitPolynomial 0x864cfb

theorem degree_lower : (digitPolynomial 0x864cfb).degree < (24 : ℕ) :=
  degree_digitPolynomial_lt (by decide)

theorem monic_generator : generator.Monic :=
  monic_X_pow_add degree_lower

theorem degree_generator : generator.degree = (24 : ℕ) := by
  rw [generator, degree_add_eq_left_of_degree_lt, degree_X_pow]
  rw [degree_X_pow]
  exact degree_lower

/-- The constant that is taken off has the bit that leaves the register as its topmost one. -/
theorem digitPolynomial_checksumPolynomial : digitPolynomial 0x01864cfb = generator := by
  have hsplit : 0x01864cfb = 1 * 2 ^ 24 + 0x864cfb := by decide
  rw [hsplit, digitPolynomial_mul_two_pow_add (by decide), digitPolynomial_one,
    one_mul, generator]

/-- What is below the degree of the generator and differs by a multiple of it from a
polynomial is the remainder of that polynomial. -/
theorem eq_modByMonic_generator_iff {n : ℕ} (h : n < 2 ^ 24) {p : (ZMod 2)[X]} :
    digitPolynomial n = p %ₘ generator ↔ generator ∣ digitPolynomial n - p := by
  have hself : digitPolynomial n %ₘ generator = digitPolynomial n := by
    rw [modByMonic_eq_self_iff monic_generator, degree_generator]
    exact degree_digitPolynomial_lt h
  rw [← modByMonic_eq_zero_iff_dvd monic_generator, sub_modByMonic, hself, sub_eq_zero]

/-! ### What the register holds -/

section Register

variable {register : UInt32}

/-- Moving the register multiplies its polynomial by `X`, up to the generator. -/
theorem generator_dvd_shiftBit (h : IsRegister register) :
    generator ∣ digitPolynomial (shiftBit register).toNat -
      X * digitPolynomial register.toNat := by
  rcases Nat.lt_or_ge register.toNat (2 ^ 23) with hlt | hle
  · rw [toNat_shiftBit_of_lt hlt, digitPolynomial_two_mul, sub_self]
    exact dvd_zero generator
  · rw [toNat_shiftBit_of_le h hle, digitPolynomial_xor, digitPolynomial_two_mul,
      digitPolynomial_checksumPolynomial, add_sub_cancel_left]

theorem generator_dvd_takeBit (h : IsRegister register) (bit : Bool) :
    generator ∣ digitPolynomial (takeBit register bit).toNat -
      (digitPolynomial register.toNat * X + digitPolynomial bit.toNat * X ^ 24) := by
  have hbit : Bits.toNat [bit] = bit.toNat := by simp [Bits.toNat_cons]
  have hadded : digitPolynomial (register ^^^ topWord [bit]).toNat =
      digitPolynomial register.toNat + digitPolynomial bit.toNat * X ^ 23 := by
    rw [UInt32.toNat_xor, toNat_topWord (by simp), digitPolynomial_xor, hbit,
      List.length_singleton, digitPolynomial_mul_two_pow]
  have hregister : IsRegister (register ^^^ topWord [bit]) := isRegister_add h (by simp)
  have hmove := generator_dvd_shiftBit hregister
  rw [hadded] at hmove
  rw [takeBit]
  convert hmove using 2
  ring

/-- What bits leave in the register is congruent to their polynomial, with the register in
front of them and room for a remainder behind. -/
theorem generator_dvd_foldl_takeBit (h : IsRegister register) (bits : Bits) :
    generator ∣ digitPolynomial (bits.foldl takeBit register).toNat -
      (digitPolynomial register.toNat * X ^ bits.length +
        digitPolynomial (Bits.toNat bits) * X ^ 24) := by
  induction bits generalizing register with
  | nil => simp
  | cons bit rest ih =>
      -- What the first bit leaves is multiplied by `X` once more for each bit behind it.
      have hrest := ih (isRegister_takeBit h bit)
      have hfirst := Dvd.dvd.mul_right (generator_dvd_takeBit h bit) (X ^ rest.length)
      rw [List.foldl_cons, List.length_cons, Bits.toNat_cons,
        digitPolynomial_mul_two_pow_add (Bits.toNat_lt rest)]
      convert dvd_add hrest hfirst using 1
      ring

def registerAt (front : Bytes) (b : UInt8) (moves : ℕ) : UInt32 :=
  Nat.repeat shiftBit moves (front.foldl takeByte checksumStart ^^^ b.toUInt32 <<< 16)

theorem registerAt_last (front : Bytes) (b : UInt8) :
    registerAt front b 8 = (front ++ [b]).foldl takeByte checksumStart := by
  rw [List.foldl_append]
  rfl

theorem isRegister_registerAt (front : Bytes) (b : UInt8) (moves : ℕ) :
    IsRegister (registerAt front b moves) := by
  induction moves with
  | zero =>
      rw [registerAt, toUInt32_shiftLeft_eq_topWord]
      exact isRegister_add (isRegister_foldl_takeByte front) (by simp)
  | succ moves ih => exact isRegister_shiftBit ih

end Register

/-- The checksum is a remainder of polynomials over the field with two elements: the bits of
the data are the coefficients, behind those of the start and in front of twenty-four zeros.
No other word has the digits of that remainder. The register never grows beyond twenty-four
bits, so no bit is lost when it is moved, and the mask at the end takes nothing off. -/
theorem checksum_is_polynomial_remainder (data : Bytes) :
    (∀ word : UInt32, crc24 data = word ↔ digitPolynomial word.toNat =
      (digitPolynomial 0xb704ce * X ^ (8 * data.length) +
        digitPolynomial (Bits.toNat (Bits.ofBytes data)) * X ^ 24) %ₘ
          (X ^ 24 + digitPolynomial 0x864cfb)) ∧
    (∀ front b back, data = front ++ b :: back →
      registerAt front b 8 = (front ++ [b]).foldl takeByte checksumStart ∧
      ∀ moves ≤ 8, (registerAt front b moves).toNat < 2 ^ 24 ∧
        (registerAt front b moves <<< 1).toNat = 2 * (registerAt front b moves).toNat) ∧
    crc24 data = data.foldl takeByte checksumStart := by
  have hremainder : digitPolynomial (crc24 data).toNat =
      (digitPolynomial 0xb704ce * X ^ (8 * data.length) +
        digitPolynomial (Bits.toNat (Bits.ofBytes data)) * X ^ 24) %ₘ generator := by
    have hstart : checksumStart.toNat = 0xb704ce := by decide
    rw [eq_modByMonic_generator_iff (isRegister_crc24 data), crc24_eq, ← Bits.length_ofBytes,
      ← hstart]
    exact generator_dvd_foldl_takeBit isRegister_checksumStart (Bits.ofBytes data)
  refine ⟨?_, ?_, ?_⟩
  · intro word
    rw [← generator, ← hremainder, digitPolynomial_inj, UInt32.toNat_inj, eq_comm]
  · intro front b back _
    refine ⟨registerAt_last front b, ?_⟩
    intro moves _
    have h := isRegister_registerAt front b moves
    exact ⟨h, toNat_shifted_of_lt (h.trans (by decide))⟩
  · exact crc24_eq_foldl data

/-- The digits from one to nine, and the register in the middle of the second of them. -/
theorem checksum_is_polynomial_remainder_digits :
    digitPolynomial 0x21cf02 =
        (digitPolynomial 0xb704ce * X ^ 72 + digitPolynomial 0x313233343536373839 * X ^ 24) %ₘ
          (X ^ 24 + digitPolynomial 0x864cfb) ∧
      (registerAt [0x31] 0x32 5).toNat < 2 ^ 24 := by
  obtain ⟨hword, hmoves, -⟩ := checksum_is_polynomial_remainder
    [0x31, 0x32, 0x33, 0x34, 0x35, 0x36, 0x37, 0x38, 0x39]
  have hcrc : crc24 [0x31, 0x32, 0x33, 0x34, 0x35, 0x36, 0x37, 0x38, 0x39] = 0x21cf02 := by
    decide +kernel
  have hbits : Bits.toNat (Bits.ofBytes
      [0x31, 0x32, 0x33, 0x34, 0x35, 0x36, 0x37, 0x38, 0x39]) = 0x313233343536373839 := by
    decide +kernel
  have hremainder := (hword 0x21cf02).mp hcrc
  rw [hbits] at hremainder
  exact ⟨hremainder, ((hmoves [0x31] 0x32 _ rfl).2 5 (by decide)).1⟩

end Keyring.Armor
