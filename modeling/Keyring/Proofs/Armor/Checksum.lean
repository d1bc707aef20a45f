import Keyring.Armor.Checksum
import Keyring.Proofs.Bytes.Bits
import Keyring.Proofs.Bytes.Word

/-!
Bursts of changed bits never leave the checksum as it is.

The register takes in one bit at a time. It is moved by a linear step that loses
nothing, since the lowest bit of the polynomial is set. Twenty-four bits are the same
as one number that is added to the register before it is moved as many times. So
different bits, as long as they fit into the register, leave it in different states,
and whatever is read behind them keeps these apart.
-/

namespace Keyring.Armor

open Word

/-! ### One move -/

/-- The numbers that the register goes through, up to twenty-four bits. -/
def IsRegister (register : UInt32) : Prop :=
  register.toNat < 2 ^ 24

variable {register other : UInt32}

theorem isRegister_xor (h : IsRegister register) (hother : IsRegister other) :
    IsRegister (register ^^^ other) := by
  rw [IsRegister, UInt32.toNat_xor]
  exact Nat.xor_lt_two_pow h hother

theorem toNat_shifted_of_lt (h : register.toNat < 2 ^ 31) :
    (register <<< 1).toNat = 2 * register.toNat := by
  rw [UInt32.toNat_shiftLeft, Nat.shiftLeft_eq, mul_comm]
  exact Nat.mod_eq_of_lt (by simp; omega)

theorem and_leaving_bit (word : UInt32) :
    word &&& 0x01000000 = 0 ∨ word &&& 0x01000000 = 0x01000000 := by
  rw [← UInt32.toNat_inj, ← UInt32.toNat_inj, UInt32.toNat_and]
  change word.toNat &&& 2 ^ 24 = 0 ∨ word.toNat &&& 2 ^ 24 = 2 ^ 24
  rw [Nat.and_two_pow]
  cases word.toNat.testBit 24 <;> simp

/-- Moving the register is linear. -/
theorem shiftBit_xor (register other : UInt32) :
    shiftBit (register ^^^ other) = shiftBit register ^^^ shiftBit other := by
  simp only [shiftBit, UInt32.shiftLeft_xor, and_xor_distrib_right]
  -- The polynomial is taken off for each of the two bits that leaves, and twice is not at all.
  rcases and_leaving_bit (register <<< 1) with h | h <;>
    rcases and_leaving_bit (other <<< 1) with h' | h' <;> rw [h, h']
  · rfl
  · exact UInt32.xor_assoc _ _ _
  · change register <<< 1 ^^^ other <<< 1 ^^^ checksumPolynomial =
      register <<< 1 ^^^ checksumPolynomial ^^^ other <<< 1
    ac_rfl
  · change register <<< 1 ^^^ other <<< 1 =
      register <<< 1 ^^^ checksumPolynomial ^^^ (other <<< 1 ^^^ checksumPolynomial)
    rw [UInt32.xor_comm (other <<< 1) checksumPolynomial, UInt32.xor_assoc,
      ← UInt32.xor_assoc checksumPolynomial, UInt32.xor_self, UInt32.zero_xor]

/-- As long as no bit leaves the register it is doubled. -/
theorem toNat_shiftBit_of_lt (h : register.toNat < 2 ^ 23) :
    (shiftBit register).toNat = 2 * register.toNat := by
  have hshifted := toNat_shifted_of_lt (h.trans (by decide))
  have hbit : register <<< 1 &&& 0x01000000 = 0 := by
    rw [← UInt32.toNat_inj, UInt32.toNat_and, hshifted]
    change 2 * register.toNat &&& 2 ^ 24 = 0
    rw [Nat.and_two_pow, Nat.testBit_lt_two_pow (by omega)]
    rfl
  rw [shiftBit]
  simp only [hbit, if_true, hshifted]

theorem toNat_shiftBit_of_le (h : IsRegister register) (hle : 2 ^ 23 ≤ register.toNat) :
    (shiftBit register).toNat = 2 * register.toNat ^^^ 0x01864cfb := by
  have hshifted := toNat_shifted_of_lt (h.trans (by decide))
  have hbit : ¬register <<< 1 &&& 0x01000000 = 0 := by
    rw [← UInt32.toNat_inj, UInt32.toNat_and, hshifted]
    change ¬2 * register.toNat &&& 2 ^ 24 = 0
    have htop : (2 * register.toNat).testBit 24 = true := by
      rw [IsRegister] at h
      rw [Nat.testBit_eq_decide_div_mod_eq, decide_eq_true_eq]
      omega
    rw [Nat.and_two_pow, htop]
    decide
  rw [shiftBit]
  simp only [hbit, if_false, UInt32.toNat_xor, hshifted]
  rfl

theorem isRegister_shiftBit (h : IsRegister register) : IsRegister (shiftBit register) := by
  rw [IsRegister] at h ⊢
  rcases Nat.lt_or_ge register.toNat (2 ^ 23) with hlt | hle
  · rw [toNat_shiftBit_of_lt hlt]
    omega
  · obtain ⟨low, hlow, hregister⟩ : ∃ low < 2 ^ 24, 2 * register.toNat = 1 * 2 ^ 24 + low :=
      ⟨2 * register.toNat - 2 ^ 24, by omega, by omega⟩
    -- The bit that leaves is the topmost one of the polynomial.
    have hpolynomial : 0x01864cfb = 1 * 2 ^ 24 + 0x864cfb := by decide
    rw [toNat_shiftBit_of_le h hle, hregister, hpolynomial, ← two_pow_mul_xor hlow,
      ← two_pow_mul_xor (i := 24) (by decide), Nat.xor_comm (1 * 2 ^ 24) low, Nat.xor_assoc,
      ← Nat.xor_assoc (1 * 2 ^ 24), Nat.xor_self, Nat.zero_xor]
    exact Nat.xor_lt_two_pow hlow (by decide)

/-- No register but zero is moved to zero. What the polynomial is taken off from is even,
and the polynomial is odd. -/
theorem eq_zero_of_shiftBit (h : IsRegister register) (hzero : shiftBit register = 0) :
    register = 0 := by
  rw [← UInt32.toNat_inj] at hzero ⊢
  change _ = 0 at hzero
  change _ = 0
  rcases Nat.lt_or_ge register.toNat (2 ^ 23) with hlt | hle
  · rw [toNat_shiftBit_of_lt hlt] at hzero
    omega
  · rw [toNat_shiftBit_of_le h hle, Nat.xor_eq_zero_iff] at hzero
    omega

theorem shiftBit_inj (h : IsRegister register) (hother : IsRegister other) :
    shiftBit register = shiftBit other ↔ register = other := by
  constructor
  · intro hshift
    rw [← UInt32.xor_eq_zero_iff, ← shiftBit_xor] at hshift
    exact UInt32.xor_eq_zero_iff.mp (eq_zero_of_shiftBit (isRegister_xor h hother) hshift)
  · rintro rfl
    rfl

theorem iterate_shiftBit_inj (h : IsRegister register) (hother : IsRegister other)
    (count : ℕ) :
    shiftBit^[count] register = shiftBit^[count] other ↔ register = other := by
  induction count generalizing register other with
  | zero => rfl
  | succ count ih =>
      rw [Function.iterate_succ_apply, Function.iterate_succ_apply,
        ih (isRegister_shiftBit h) (isRegister_shiftBit hother), shiftBit_inj h hother]

/-! ### Bits -/

def topWord (bits : Bits) : UInt32 :=
  UInt32.ofNat (Bits.toNat bits * 2 ^ (24 - bits.length))

def takeBit (register : UInt32) (bit : Bool) : UInt32 :=
  shiftBit (register ^^^ topWord [bit])

variable {bits others : Bits}

theorem toNat_top_lt {width : ℕ} (h : bits.length ≤ width) :
    Bits.toNat bits * 2 ^ (width - bits.length) < 2 ^ width := by
  calc Bits.toNat bits * 2 ^ (width - bits.length)
      < 2 ^ bits.length * 2 ^ (width - bits.length) :=
        Nat.mul_lt_mul_of_pos_right (Bits.toNat_lt bits) (Nat.two_pow_pos _)
    _ = 2 ^ width := by rw [← pow_add, Nat.add_sub_cancel' h]

theorem toNat_topWord (h : bits.length ≤ 24) :
    (topWord bits).toNat = Bits.toNat bits * 2 ^ (24 - bits.length) := by
  have hlt := toNat_top_lt h
  exact UInt32.toNat_ofNat_of_lt' (by simp only [UInt32.size]; omega)

theorem isRegister_topWord (h : bits.length ≤ 24) : IsRegister (topWord bits) := by
  rw [IsRegister, toNat_topWord h]
  exact toNat_top_lt h

theorem topWord_inj (h : bits.length ≤ 24) (hlength : bits.length = others.length) :
    topWord bits = topWord others ↔ bits = others := by
  constructor
  · intro hword
    rw [← UInt32.toNat_inj, toNat_topWord h, toNat_topWord (hlength ▸ h), hlength] at hword
    exact Bits.eq_of_toNat_eq hlength (Nat.eq_of_mul_eq_mul_right (Nat.two_pow_pos _) hword)
  · rintro rfl
    rfl

theorem topWord_cons (bit : Bool) (h : bits.length < 24) :
    topWord (bit :: bits) = topWord [bit] ^^^ topWord (false :: bits) := by
  have hrest : Bits.toNat bits * 2 ^ (23 - bits.length) < 2 ^ 23 := toNat_top_lt (by omega)
  have hfirst : 2 ^ bits.length * 2 ^ (23 - bits.length) = 2 ^ 23 := by
    rw [← pow_add, Nat.add_sub_cancel' (by omega)]
  rw [← UInt32.toNat_inj, UInt32.toNat_xor, toNat_topWord (by simp; omega),
    toNat_topWord (by simp), toNat_topWord (by simp; omega)]
  simp only [Bits.toNat_cons, List.length_cons, List.length_nil, Bits.toNat_nil,
    Bool.toNat_false, zero_mul, zero_add, add_zero, pow_zero, mul_one, Nat.reduceSubDiff,
    add_mul, mul_assoc, hfirst]
  exact (two_pow_mul_xor hrest _).symm

/-- Bits move up in the register as it is moved. -/
theorem shiftBit_topWord (h : bits.length < 24) :
    shiftBit (topWord (false :: bits)) = topWord bits := by
  have hword : (topWord (false :: bits)).toNat = Bits.toNat bits * 2 ^ (23 - bits.length) := by
    rw [toNat_topWord (by simp; omega), Bits.toNat_cons, Bool.toNat_false, zero_mul, zero_add,
      List.length_cons, show 24 - (bits.length + 1) = 23 - bits.length by omega]
  have htop := toNat_top_lt h.le
  have hdouble : 2 ^ (24 - bits.length) = 2 * 2 ^ (23 - bits.length) := by
    rw [← pow_succ']
    congr 1
    omega
  rw [hdouble] at htop
  rw [← UInt32.toNat_inj, toNat_shiftBit_of_lt (by rw [hword]; linarith), hword,
    toNat_topWord h.le, hdouble]
  ring

/-- Bits that fit into the register may be put there at once. -/
theorem foldl_takeBit_eq (h : bits.length ≤ 24) :
    bits.foldl takeBit register = shiftBit^[bits.length] (register ^^^ topWord bits) := by
  induction bits generalizing register with
  | nil =>
      change register = register ^^^ 0
      rw [UInt32.xor_zero]
  | cons bit bits ih =>
      rw [List.length_cons] at h
      have hmove : takeBit register bit ^^^ topWord bits =
          shiftBit (register ^^^ topWord (bit :: bits)) := by
        rw [takeBit, ← shiftBit_topWord h, ← shiftBit_xor, topWord_cons bit h,
          UInt32.xor_assoc]
      rw [List.foldl_cons, ih (by omega), List.length_cons, Function.iterate_succ_apply, hmove]

theorem isRegister_add (h : IsRegister register) (hbits : bits.length ≤ 24) :
    IsRegister (register ^^^ topWord bits) :=
  isRegister_xor h (isRegister_topWord hbits)

theorem isRegister_takeBit (h : IsRegister register) (bit : Bool) :
    IsRegister (takeBit register bit) :=
  isRegister_shiftBit (isRegister_add h (by simp))

theorem isRegister_foldl (h : IsRegister register) (bits : Bits) :
    IsRegister (bits.foldl takeBit register) := by
  induction bits generalizing register with
  | nil => exact h
  | cons bit bits ih => exact ih (isRegister_takeBit h bit)

theorem takeBit_inj (h : IsRegister register) (hother : IsRegister other) (bit : Bool) :
    takeBit register bit = takeBit other bit ↔ register = other := by
  rw [takeBit, takeBit, shiftBit_inj (isRegister_add h (by simp))
    (isRegister_add hother (by simp)), UInt32.xor_left_inj]

/-- Reading the same bits keeps registers apart. -/
theorem foldl_takeBit_inj (h : IsRegister register) (hother : IsRegister other) (bits : Bits) :
    bits.foldl takeBit register = bits.foldl takeBit other ↔ register = other := by
  induction bits generalizing register other with
  | nil => rfl
  | cons bit bits ih =>
      rw [List.foldl_cons, List.foldl_cons,
        ih (isRegister_takeBit h bit) (isRegister_takeBit hother bit), takeBit_inj h hother]

/-- Two sequences of bits that differ in a burst that fits into the register leave it in
different states. -/
theorem foldl_takeBit_burst (h : IsRegister register) (front back : Bits)
    (hlength : bits.length = others.length) (hbits : bits.length ≤ 24) :
    (front ++ bits ++ back).foldl takeBit register =
      (front ++ others ++ back).foldl takeBit register ↔ bits = others := by
  obtain ⟨start, hstart, hfold⟩ : ∃ start, IsRegister start ∧
      front.foldl takeBit register = start :=
    ⟨_, isRegister_foldl h front, rfl⟩
  have hothers : others.length ≤ 24 := hlength ▸ hbits
  rw [List.foldl_append, List.foldl_append, List.foldl_append, List.foldl_append, hfold,
    foldl_takeBit_inj (isRegister_foldl hstart bits) (isRegister_foldl hstart others),
    foldl_takeBit_eq hbits, foldl_takeBit_eq hothers, hlength,
    iterate_shiftBit_inj (isRegister_add hstart hbits) (isRegister_add hstart hothers),
    UInt32.xor_right_inj, topWord_inj hbits hlength]

/-! ### Bytes -/

theorem repeat_eq_iterate {α : Type} (f : α → α) (count : ℕ) (a : α) :
    Nat.repeat f count a = f^[count] a := by
  induction count with
  | zero => rfl
  | succ count ih => rw [Nat.repeat, ih, Function.iterate_succ_apply']

/-- A byte is put at the top of the register. -/
theorem toUInt32_shiftLeft_eq_topWord (b : UInt8) :
    b.toUInt32 <<< 16 = topWord (Bits.ofNat 8 b.toNat) := by
  have hb := b.toNat_lt
  rw [← UInt32.toNat_inj, toNat_topWord (by simp), Bits.length_ofNat,
    Bits.toNat_ofNat_of_lt hb, UInt32.toNat_shiftLeft, UInt8.toNat_toUInt32, Nat.shiftLeft_eq]
  exact Nat.mod_eq_of_lt (by simp; omega)

theorem takeByte_eq (register : UInt32) (b : UInt8) :
    takeByte register b = (Bits.ofNat 8 b.toNat).foldl takeBit register := by
  rw [takeByte, repeat_eq_iterate, foldl_takeBit_eq (by simp), toUInt32_shiftLeft_eq_topWord,
    Bits.length_ofNat]

theorem foldl_takeByte (register : UInt32) (data : Bytes) :
    data.foldl takeByte register = (Bits.ofBytes data).foldl takeBit register := by
  induction data generalizing register with
  | nil => rfl
  | cons b data ih =>
      rw [List.foldl_cons, ih, takeByte_eq, Bits.ofBytes, Bits.ofBytes, List.flatMap_cons,
        List.foldl_append]

theorem isRegister_checksumStart : IsRegister checksumStart := by
  rw [IsRegister]
  decide

theorem isRegister_foldl_takeByte (data : Bytes) :
    IsRegister (data.foldl takeByte checksumStart) := by
  rw [foldl_takeByte]
  exact isRegister_foldl isRegister_checksumStart _

/-- Nothing stands above the twenty-four bits of the register that the mask could take off. -/
theorem crc24_eq_foldl (data : Bytes) : crc24 data = data.foldl takeByte checksumStart := by
  rw [crc24, ← UInt32.toNat_inj, UInt32.toNat_and]
  change _ &&& (2 ^ 24 - 1) = _
  rw [Nat.and_two_pow_sub_one_eq_mod, Nat.mod_eq_of_lt (isRegister_foldl_takeByte data)]

/-- The checksum is what the bits leave in the register. -/
theorem crc24_eq (data : Bytes) :
    crc24 data = (Bits.ofBytes data).foldl takeBit checksumStart := by
  rw [crc24_eq_foldl, foldl_takeByte]

theorem isRegister_crc24 (data : Bytes) : IsRegister (crc24 data) := by
  rw [crc24_eq_foldl]
  exact isRegister_foldl_takeByte data

theorem checksumBlock_inj {data other : Bytes} :
    checksumBlock data = checksumBlock other ↔ crc24 data = crc24 other := by
  rw [checksumBlock, checksumBlock, ← Block.toNat_inj,
    Block.toNat_ofNat_of_lt (isRegister_crc24 data),
    Block.toNat_ofNat_of_lt (isRegister_crc24 other), UInt32.toNat_inj]

end Keyring.Armor
