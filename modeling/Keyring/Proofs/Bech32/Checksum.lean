import Keyring.Bech32.Checksum
import Keyring.Proofs.Bytes.Word
import Keyring.Proofs.Regroup

/-!
Each text has exactly one checksum.

Taking in a coefficient is linear over exclusive or. So the remainder with six
values at the end is the remainder with six zeros there, plus what the six values
leave on their own. They leave the number that they spell, as there is room for
six of them before anything is shifted out. Hence one choice of the six values,
and no other, gives the remainder of a right checksum.
-/

namespace Keyring.Bech32

open Word

/-! ### Linearity -/

theorem and_one_eq_zero_or_one (word : UInt32) : word &&& 1 = 0 ∨ word &&& 1 = 1 := by
  rw [← UInt32.toNat_inj, ← UInt32.toNat_inj, UInt32.toNat_and]
  change word.toNat &&& 1 = 0 ∨ word.toNat &&& 1 = 1
  rw [Nat.and_one_is_mod]
  exact Nat.mod_two_eq_zero_or_one word.toNat

theorem addGenerators_xor (s t : UInt32) (bit : ℕ) (generators : List UInt32) (v w : UInt32) :
    addGenerators (s ^^^ t) bit generators (v ^^^ w) =
      addGenerators s bit generators v ^^^ addGenerators t bit generators w := by
  induction generators generalizing bit v w with
  | nil => rfl
  | cons g rest ih =>
      have hadd :
          (if (s ^^^ t) >>> UInt32.ofNat bit &&& 1 = 1 then v ^^^ w ^^^ g else v ^^^ w) =
          (if s >>> UInt32.ofNat bit &&& 1 = 1 then v ^^^ g else v) ^^^
            (if t >>> UInt32.ofNat bit &&& 1 = 1 then w ^^^ g else w) := by
        rw [UInt32.shiftRight_xor, and_xor_distrib_right]
        -- The generator is added for each bit of the two that is set, and twice is not at all.
        rcases and_one_eq_zero_or_one (s >>> UInt32.ofNat bit) with hs | hs <;>
          rcases and_one_eq_zero_or_one (t >>> UInt32.ofNat bit) with ht | ht <;> rw [hs, ht]
        · rfl
        · exact UInt32.xor_assoc v w g
        · change v ^^^ w ^^^ g = v ^^^ g ^^^ w
          ac_rfl
        · change v ^^^ w = v ^^^ g ^^^ (w ^^^ g)
          rw [UInt32.xor_comm w g, UInt32.xor_assoc, ← UInt32.xor_assoc g, UInt32.xor_self,
            UInt32.zero_xor]
      rw [addGenerators, addGenerators, addGenerators, hadd, ih]

theorem shiftIn_xor (a b : UInt32) (v w : UInt8) :
    shiftIn (a ^^^ b) (v ^^^ w) = shiftIn a v ^^^ shiftIn b w := by
  have hword : ((a ^^^ b) &&& 0x1ffffff) <<< 5 ^^^ (v ^^^ w).toUInt32 =
      ((a &&& 0x1ffffff) <<< 5 ^^^ v.toUInt32) ^^^
        ((b &&& 0x1ffffff) <<< 5 ^^^ w.toUInt32) := by
    rw [and_xor_distrib_right, UInt32.shiftLeft_xor, UInt8.toUInt32_xor]
    ac_rfl
  rw [shiftIn, shiftIn, shiftIn, UInt32.shiftRight_xor, hword, addGenerators_xor]

/-- What values leave of a sum is the sum of what they leave of one part and what
zeros leave of the other. -/
theorem foldl_shiftIn_xor (a b : UInt32) (values : Bytes) :
    values.foldl shiftIn (a ^^^ b) =
      (List.replicate values.length 0).foldl shiftIn a ^^^ values.foldl shiftIn b := by
  induction values generalizing a b with
  | nil => rfl
  | cons v rest ih =>
      have hstep : shiftIn (a ^^^ b) v = shiftIn a 0 ^^^ shiftIn b v := by
        rw [← shiftIn_xor, UInt8.zero_xor]
      rw [List.foldl_cons, hstep, ih, List.length_cons, List.replicate_succ, List.foldl_cons,
        List.foldl_cons]

/-! ### Thirty bits -/

theorem addGenerators_lt (top : UInt32) (bit : ℕ) {generators : List UInt32} {word : UInt32}
    (hgenerators : ∀ g ∈ generators, g.toNat < 2 ^ 30) (hword : word.toNat < 2 ^ 30) :
    (addGenerators top bit generators word).toNat < 2 ^ 30 := by
  induction generators generalizing bit word with
  | nil => exact hword
  | cons g rest ih =>
      rw [List.forall_mem_cons] at hgenerators
      rw [addGenerators]
      refine ih _ hgenerators.2 ?_
      split
      · rw [UInt32.toNat_xor]
        exact Nat.xor_lt_two_pow hword hgenerators.1
      · exact hword

theorem toNat_shifted (r : UInt32) :
    ((r &&& 0x1ffffff) <<< 5).toNat = r.toNat % 2 ^ 25 * 2 ^ 5 := by
  have hmask : (r &&& 0x1ffffff).toNat = r.toNat % 2 ^ 25 := by
    rw [UInt32.toNat_and]
    exact Nat.and_two_pow_sub_one_eq_mod r.toNat 25
  have hlt := Nat.mod_lt r.toNat (Nat.two_pow_pos 25)
  rw [UInt32.toNat_shiftLeft, hmask, Nat.shiftLeft_eq]
  exact Nat.mod_eq_of_lt (by simp; omega)

theorem generator_lt : ∀ g ∈ generator, g.toNat < 2 ^ 30 := by
  have hall : generator.all (fun g => g.toNat < 2 ^ 30) = true := by decide
  exact fun g hg => of_decide_eq_true (List.all_eq_true.mp hall g hg)

theorem shiftIn_lt (r : UInt32) (v : UInt8) : (shiftIn r v).toNat < 2 ^ 30 := by
  refine addGenerators_lt _ _ generator_lt ?_
  rw [UInt32.toNat_xor, toNat_shifted, UInt8.toNat_toUInt32]
  have hv := v.toNat_lt
  have hr := Nat.mod_lt r.toNat (Nat.two_pow_pos 25)
  exact Nat.xor_lt_two_pow (by omega) (by omega)

theorem foldl_shiftIn_lt {r : UInt32} (h : r.toNat < 2 ^ 30) (values : Bytes) :
    (values.foldl shiftIn r).toNat < 2 ^ 30 := by
  induction values generalizing r with
  | nil => exact h
  | cons v rest ih => exact ih (shiftIn_lt r v)

/-! ### Six values -/

/-- While nothing is shifted out, the remainder is the number that was read. -/
theorem toNat_shiftIn_of_lt {r : UInt32} {v : UInt8} (hr : r.toNat < 2 ^ 25)
    (hv : v.toNat < 2 ^ 5) :
    (shiftIn r v).toNat = r.toNat * 2 ^ 5 + v.toNat := by
  have htop : r >>> 25 = 0 := by
    rw [← UInt32.toNat_inj, UInt32.toNat_shiftRight, Nat.shiftRight_eq_div_pow]
    exact Nat.div_eq_of_lt hr
  have hnone : ∀ word, addGenerators 0 0 generator word = word := fun word => rfl
  rw [shiftIn, htop, hnone, UInt32.toNat_xor, toNat_shifted, UInt8.toNat_toUInt32,
    Nat.mod_eq_of_lt hr, two_pow_mul_xor hv]

/-- Up to six values leave the number that they spell. -/
theorem toNat_foldl_shiftIn {values : Bytes} (h : GroupWidth.quintet.Fits values)
    (hlength : values.length ≤ checksumLength) :
    (values.foldl shiftIn 0).toNat = Bits.toNat (GroupWidth.quintet.spell values) := by
  induction values using List.reverseRecOn with
  | nil => rfl
  | append_singleton values v ih =>
      rw [GroupWidth.fits_append, GroupWidth.fits_cons] at h
      rw [List.length_append, List.length_singleton, checksumLength] at hlength
      have hvalue := ih h.1 (by rw [checksumLength]; omega)
      have hsmall : (values.foldl shiftIn 0).toNat < 2 ^ 25 := by
        have hbits := Bits.toNat_lt (GroupWidth.quintet.spell values)
        rw [GroupWidth.length_spell] at hbits
        rw [hvalue]
        exact hbits.trans_le (Nat.pow_le_pow_right (by omega)
          (Nat.mul_le_mul_left 5 (show values.length ≤ 5 by omega)))
      rw [List.foldl_append, List.foldl_cons, List.foldl_nil, toNat_shiftIn_of_lt hsmall h.2.1,
        hvalue, GroupWidth.toNat_spell_concat h.2.1]
      rfl

def digits (word : UInt32) : Bytes :=
  [25, 20, 15, 10, 5, 0].map fun shift : UInt32 => ((word >>> shift) &&& 0x1f).toUInt8

theorem toNat_digit (word : UInt32) {shift : UInt32} (h : shift.toNat < 32) :
    (((word >>> shift) &&& 0x1f).toUInt8).toNat = word.toNat / 2 ^ shift.toNat % 2 ^ 5 := by
  have hmask : ∀ value : ℕ, value &&& 0x1f = value % 2 ^ 5 :=
    fun value => Nat.and_two_pow_sub_one_eq_mod value 5
  rw [UInt32.toNat_toUInt8, UInt32.toNat_and, UInt32.toNat_shiftRight, Nat.mod_eq_of_lt h,
    Nat.shiftRight_eq_div_pow]
  change (_ &&& 0x1f) % 2 ^ 8 = _
  rw [hmask]
  omega

theorem fits_digits (word : UInt32) : GroupWidth.quintet.Fits (digits word) := by
  intro v hv
  obtain ⟨shift, hshift, rfl⟩ := List.mem_map.mp hv
  have hall : [25, 20, 15, 10, 5, 0].all (fun shift : UInt32 => shift.toNat < 32) = true := by
    decide
  rw [toNat_digit word (of_decide_eq_true (List.all_eq_true.mp hall shift hshift))]
  exact Nat.mod_lt _ (Nat.two_pow_pos 5)

theorem toNat_spell_digits {word : UInt32} (h : word.toNat < 2 ^ 30) :
    Bits.toNat (GroupWidth.quintet.spell (digits word)) = word.toNat := by
  rw [GroupWidth.toNat_spell (fits_digits word)]
  simp only [digits, List.map_cons, List.map_nil, List.foldl_cons, List.foldl_nil]
  rw [toNat_digit word (by decide), toNat_digit word (by decide), toNat_digit word (by decide),
    toNat_digit word (by decide), toNat_digit word (by decide), toNat_digit word (by decide)]
  change (((((0 * 2 ^ 5 + word.toNat / 2 ^ 25 % 2 ^ 5) * 2 ^ 5 +
    word.toNat / 2 ^ 20 % 2 ^ 5) * 2 ^ 5 + word.toNat / 2 ^ 15 % 2 ^ 5) * 2 ^ 5 +
      word.toNat / 2 ^ 10 % 2 ^ 5) * 2 ^ 5 + word.toNat / 2 ^ 5 % 2 ^ 5) * 2 ^ 5 +
        word.toNat / 2 ^ 0 % 2 ^ 5 = word.toNat
  omega

/-! ### The checksum -/

def checksumWord (hrp values : Bytes) : UInt32 :=
  remainder (expandPrefix hrp ++ values ++ List.replicate checksumLength 0) ^^^ residue

theorem checksum_eq (hrp values : Bytes) :
    checksum hrp values = digits (checksumWord hrp values) :=
  rfl

theorem checksumWord_lt (hrp values : Bytes) : (checksumWord hrp values).toNat < 2 ^ 30 := by
  rw [checksumWord, UInt32.toNat_xor]
  exact Nat.xor_lt_two_pow (foldl_shiftIn_lt (by decide) _) (by decide)

theorem fits_checksum (hrp values : Bytes) : GroupWidth.quintet.Fits (checksum hrp values) :=
  fits_digits _

theorem length_checksum (hrp values : Bytes) : (checksum hrp values).length = checksumLength :=
  rfl

theorem remainder_append_eq_foldl (front back : Bytes) :
    remainder (front ++ back) = back.foldl shiftIn (remainder front) :=
  List.foldl_append

theorem remainder_append (values six : Bytes) :
    remainder (values ++ six) =
      remainder (values ++ List.replicate six.length 0) ^^^ six.foldl shiftIn 0 := by
  rw [remainder_append_eq_foldl, remainder_append_eq_foldl, ← foldl_shiftIn_xor,
    UInt32.xor_zero]

/-- Values and six more verify exactly if the six are the checksum. -/
theorem verifies_append_iff {hrp values six : Bytes} (hsix : GroupWidth.quintet.Fits six)
    (hlength : six.length = checksumLength) :
    verifies hrp (values ++ six) = true ↔ six = checksum hrp values := by
  have hremainder : remainder (expandPrefix hrp ++ (values ++ six)) ^^^ residue =
      checksumWord hrp values ^^^ six.foldl shiftIn 0 := by
    rw [← List.append_assoc, remainder_append, hlength, checksumWord]
    ac_rfl
  have hword := toNat_spell_digits (checksumWord_lt hrp values)
  have hvalue := toNat_foldl_shiftIn hsix hlength.le
  calc verifies hrp (values ++ six) = true
      ↔ checksumWord hrp values = six.foldl shiftIn 0 := by
        rw [verifies, decide_eq_true_eq, ← UInt32.xor_eq_zero_iff, hremainder,
          UInt32.xor_eq_zero_iff]
    _ ↔ Bits.toNat (GroupWidth.quintet.spell six) =
          Bits.toNat (GroupWidth.quintet.spell (checksum hrp values)) := by
        rw [checksum_eq, hword, ← hvalue, UInt32.toNat_inj, eq_comm]
    _ ↔ six = checksum hrp values :=
        GroupWidth.toNat_spell_inj hsix (fits_checksum hrp values) hlength

/-! ### Bursts -/

theorem addGenerators_eq_xor (top word : UInt32) :
    addGenerators top 0 generator word = addGenerators top 0 generator 0 ^^^ word := by
  have hsum := addGenerators_xor top 0 0 generator 0 word
  rw [UInt32.xor_zero, UInt32.zero_xor] at hsum
  exact hsum

/-- What is added for a top coefficient has zeros in its lowest coefficient only if that
top coefficient is zero. -/
theorem eq_zero_of_addGenerators {top : UInt32} (h : top.toNat < 2 ^ 5)
    (hlow : (addGenerators top 0 generator 0).toNat % 2 ^ 5 = 0) : top = 0 := by
  have hall : ∀ i : Fin (2 ^ 5),
      (addGenerators (UInt32.ofNat i) 0 generator 0).toNat % 2 ^ 5 = 0 →
      UInt32.ofNat i = 0 := by
    decide
  have htop := hall ⟨top.toNat, h⟩
  rw [UInt32.ofNat_toNat] at htop
  exact htop hlow

/-- No remainder but zero is moved to zero. What is shifted leaves the lowest coefficient
free, so a top coefficient that is shifted out shows there. -/
theorem eq_zero_of_shiftIn {r : UInt32} (h : r.toNat < 2 ^ 30)
    (hzero : shiftIn r 0 = 0) : r = 0 := by
  have htop : (r >>> 25).toNat = r.toNat / 2 ^ 25 := by
    rw [UInt32.toNat_shiftRight, Nat.shiftRight_eq_div_pow]
    rfl
  have hshifted : addGenerators (r >>> 25) 0 generator 0 = (r &&& 0x1ffffff) <<< 5 := by
    rw [shiftIn, addGenerators_eq_xor, UInt32.xor_eq_zero_iff] at hzero
    rw [hzero]
    exact UInt32.xor_zero
  -- No sum of generators but that of none has its five lowest bits clear.
  have hsmall : r.toNat < 2 ^ 25 := by
    have hnone : r >>> 25 = 0 := by
      apply eq_zero_of_addGenerators
      · omega
      · rw [hshifted, toNat_shifted, Nat.mul_mod_left]
    rw [hnone] at htop
    change 0 = r.toNat / 2 ^ 25 at htop
    omega
  have hvalue := toNat_shiftIn_of_lt hsmall (show (0 : UInt8).toNat < 2 ^ 5 by decide)
  rw [hzero] at hvalue
  change 0 = r.toNat * 2 ^ 5 + 0 at hvalue
  rw [← UInt32.toNat_inj]
  change r.toNat = 0
  omega

/-- Reading the same values keeps remainders apart. -/
theorem foldl_shiftIn_inj {r s : UInt32} (hr : r.toNat < 2 ^ 30) (hs : s.toNat < 2 ^ 30)
    (values : Bytes) : values.foldl shiftIn r = values.foldl shiftIn s ↔ r = s := by
  induction values generalizing r s with
  | nil => rfl
  | cons v rest ih =>
      rw [List.foldl_cons, List.foldl_cons, ih (shiftIn_lt r v) (shiftIn_lt s v)]
      constructor
      · intro h
        have hzero : shiftIn (r ^^^ s) 0 = 0 := by
          rw [← UInt8.xor_self, shiftIn_xor, h, UInt32.xor_self]
        have hlt : (r ^^^ s).toNat < 2 ^ 30 := by
          rw [UInt32.toNat_xor]
          exact Nat.xor_lt_two_pow hr hs
        exact UInt32.xor_eq_zero_iff.mp (eq_zero_of_shiftIn hlt hzero)
      · intro h
        rw [h]

/-- Up to six values are told from as many others by what they leave. -/
theorem foldl_shiftIn_eq_iff (r : UInt32) {values others : Bytes}
    (hvalues : GroupWidth.quintet.Fits values) (hothers : GroupWidth.quintet.Fits others)
    (hlength : values.length = others.length) (hshort : others.length ≤ checksumLength) :
    values.foldl shiftIn r = others.foldl shiftIn r ↔ values = others := by
  have hvalue := toNat_foldl_shiftIn hvalues (hlength.le.trans hshort)
  have hother := toNat_foldl_shiftIn hothers hshort
  rw [← UInt32.xor_zero (a := r), foldl_shiftIn_xor, foldl_shiftIn_xor, hlength,
    UInt32.xor_right_inj, ← UInt32.toNat_inj, hvalue, hother,
    GroupWidth.toNat_spell_inj hvalues hothers hlength]

/-- Sequences that differ in a run of at most six values have different remainders. -/
theorem remainder_burst_iff (front back : Bytes) {values others : Bytes}
    (hvalues : GroupWidth.quintet.Fits values) (hothers : GroupWidth.quintet.Fits others)
    (hlength : values.length = others.length) (hshort : others.length ≤ checksumLength) :
    remainder (front ++ values ++ back) = remainder (front ++ others ++ back) ↔
      values = others := by
  have hlt : ∀ run : Bytes, (remainder (front ++ run)).toNat < 2 ^ 30 :=
    fun run => foldl_shiftIn_lt (by decide) (front ++ run)
  calc remainder (front ++ values ++ back) = remainder (front ++ others ++ back)
      ↔ back.foldl shiftIn (remainder (front ++ values)) =
          back.foldl shiftIn (remainder (front ++ others)) := by
        rw [remainder_append_eq_foldl _ back, remainder_append_eq_foldl _ back]
    _ ↔ values.foldl shiftIn (remainder front) = others.foldl shiftIn (remainder front) := by
        rw [foldl_shiftIn_inj (hlt values) (hlt others), remainder_append_eq_foldl,
          remainder_append_eq_foldl]
    _ ↔ values = others := foldl_shiftIn_eq_iff _ hvalues hothers hlength hshort

end Keyring.Bech32
