import Mathlib.Data.Nat.Bitwise
import Mathlib.Data.Nat.Notation

/-!
Exclusive or of words, by which checksums are computed.
-/

namespace Keyring.Word

theorem and_xor_distrib_right (a b c : UInt32) :
    (a ^^^ b) &&& c = (a &&& c) ^^^ (b &&& c) := by
  rw [← UInt32.toNat_inj, UInt32.toNat_and, UInt32.toNat_xor, Nat.and_xor_distrib_right,
    UInt32.toNat_xor, UInt32.toNat_and, UInt32.toNat_and]

/-- Of two numbers of which one starts where the other ends, exclusive or is the sum. -/
theorem two_pow_mul_xor {i b : ℕ} (h : b < 2 ^ i) (a : ℕ) :
    a * 2 ^ i ^^^ b = a * 2 ^ i + b := by
  apply Nat.eq_of_testBit_eq
  intro j
  rw [mul_comm, Nat.testBit_two_pow_mul_add _ h, Nat.testBit_xor, Nat.testBit_two_pow_mul]
  split
  · rename_i hj
    simp [Nat.not_le.mpr hj]
  · rename_i hj
    have hlow : b.testBit j = false :=
      Nat.testBit_lt_two_pow (h.trans_le (Nat.pow_le_pow_right (by omega) (by omega)))
    simp [not_lt.mp hj, hlow]

end Keyring.Word
