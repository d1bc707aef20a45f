import Keyring.Bytes.Arithmetic
import Mathlib.Tactic.Ring
import Mathlib.Tactic.Linarith

/-!
The numbers that byte strings and blocks stand for.

`Bytes.toNat` and `Bytes.ofNat` are inverse to each other up to the length that
is kept; among byte strings of one length the number determines the string. The
digit by digit functions on blocks are exact: comparison is the order of the
numbers, and sum and difference are those of the numbers wherever they fit.
-/

namespace Keyring

namespace Bytes

theorem foldl_toNat (value : ℕ) (bytes : Bytes) :
    bytes.foldl (fun value b => value * 256 + b.toNat) value =
      value * 256 ^ bytes.length + toNat bytes := by
  induction bytes generalizing value with
  | nil => simp [toNat]
  | cons b rest ih =>
      simp only [toNat, List.foldl_cons, List.length_cons]
      rw [ih, ih (0 * 256 + b.toNat)]
      ring

@[simp] theorem toNat_nil : toNat [] = 0 := rfl

theorem toNat_cons (b : UInt8) (rest : Bytes) :
    toNat (b :: rest) = b.toNat * 256 ^ rest.length + toNat rest := by
  have h := foldl_toNat (0 * 256 + b.toNat) rest
  simpa [toNat] using h

theorem toNat_append (left right : Bytes) :
    toNat (left ++ right) = toNat left * 256 ^ right.length + toNat right := by
  rw [toNat, List.foldl_append, foldl_toNat]
  rfl

/-- A byte string stands for a number with no more digits than it has bytes. -/
theorem toNat_lt (bytes : Bytes) : toNat bytes < 256 ^ bytes.length := by
  induction bytes with
  | nil => simp
  | cons b rest ih =>
      rw [toNat_cons, List.length_cons, pow_succ]
      have hb : b.toNat + 1 ≤ 256 := b.toNat_lt
      calc
        b.toNat * 256 ^ rest.length + toNat rest <
            b.toNat * 256 ^ rest.length + 256 ^ rest.length := Nat.add_lt_add_left ih _
        _ = (b.toNat + 1) * 256 ^ rest.length := by ring
        _ ≤ 256 * 256 ^ rest.length := Nat.mul_le_mul_right _ hb
        _ = 256 ^ rest.length * 256 := by ring

/-- Writing a number in too few bytes keeps its low digits. -/
theorem toNat_ofNat (count value : ℕ) : toNat (ofNat count value) = value % 256 ^ count := by
  induction count with
  | zero => simp [ofNat, Nat.mod_one]
  | succ count ih =>
      have hdigit : (UInt8.ofNat (value >>> (8 * count))).toNat =
          value / 256 ^ count % 256 := by
        rw [UInt8.toNat_ofNat', Nat.shiftRight_eq_div_pow, pow_mul]
        norm_num
      rw [ofNat, toNat_cons, length_ofNat, hdigit, ih, Nat.mod_pow_succ]
      ring

theorem toNat_ofNat_of_lt {count value : ℕ} (h : value < 256 ^ count) :
    toNat (ofNat count value) = value := by
  rw [toNat_ofNat, Nat.mod_eq_of_lt h]

/-- Two digit strings of one length agree if their first digits and the numbers
behind them do. -/
theorem digit_eq_of_add_eq {base a b m n : ℕ} (hm : m < base) (hn : n < base)
    (h : a * base + m = b * base + n) : a = b ∧ m = n := by
  have ha : (a * base + m) / base = a := by
    rw [mul_comm, Nat.mul_add_div (by omega), Nat.div_eq_of_lt hm, add_zero]
  have hb : (b * base + n) / base = b := by
    rw [mul_comm, Nat.mul_add_div (by omega), Nat.div_eq_of_lt hn, add_zero]
  have hab : a = b := by rw [← ha, h, hb]
  subst hab
  exact ⟨rfl, by omega⟩

/-- Among byte strings of one length the number determines the string. -/
theorem eq_of_toNat_eq {left right : Bytes} (hlen : left.length = right.length)
    (h : toNat left = toNat right) : left = right := by
  induction left generalizing right with
  | nil => exact (List.length_eq_zero_iff.mp hlen.symm).symm
  | cons a as ih =>
      cases right with
      | nil => simp at hlen
      | cons b bs =>
          have hlen' : as.length = bs.length := by simpa using hlen
          rw [toNat_cons, toNat_cons, hlen'] at h
          obtain ⟨hab, hrest⟩ :=
            digit_eq_of_add_eq (hlen' ▸ toNat_lt as) (toNat_lt bs) h
          rw [UInt8.toNat_inj.mp hab, ih hlen' hrest]

/-- Dictionary order of equally long byte strings is the order of the numbers. -/
theorem less_iff {left right : Bytes} (hlen : left.length = right.length) :
    less left right = true ↔ toNat left < toNat right := by
  induction left generalizing right with
  | nil =>
      rw [List.length_eq_zero_iff.mp hlen.symm]
      simp [less]
  | cons a as ih =>
      cases right with
      | nil => simp at hlen
      | cons b bs =>
          have hlen' : as.length = bs.length := by simpa using hlen
          have has : toNat as < 256 ^ bs.length := hlen' ▸ toNat_lt as
          have hbs : toNat bs < 256 ^ bs.length := toNat_lt bs
          simp only [less, Bool.or_eq_true, Bool.and_eq_true, decide_eq_true_eq, ih hlen',
            toNat_cons, hlen', UInt8.lt_iff_toNat_lt, ← UInt8.toNat_inj]
          rcases lt_trichotomy a.toNat b.toNat with hab | hab | hab
          · have : (a.toNat + 1) * 256 ^ bs.length ≤ b.toNat * 256 ^ bs.length :=
              Nat.mul_le_mul_right _ hab
            simp only [hab, true_or, true_iff]
            linarith
          · simp [hab]
          · have : (b.toNat + 1) * 256 ^ bs.length ≤ a.toNat * 256 ^ bs.length :=
              Nat.mul_le_mul_right _ hab
            simp only [hab.not_gt, hab.ne', false_and, or_self, false_iff, not_lt]
            linarith

/-! ### Sum and difference

The carry and the borrow are zero or one in every place, so no digit leaves the
range of the words in which it is computed. -/

/-- One place of a sum. -/
theorem toNat_digit_sum (a b : UInt8) {carry : UInt16} (h : carry.toNat ≤ 1) :
    (a.toUInt16 + b.toUInt16 + carry).toNat = a.toNat + b.toNat + carry.toNat := by
  have ha := a.toNat_lt
  have hb := b.toNat_lt
  simp only [UInt16.toNat_add, UInt8.toNat_toUInt16]
  omega

theorem toNat_carry (sum : UInt16) : (sum >>> 8).toNat = sum.toNat / 256 := by
  simp [UInt16.toNat_shiftRight, Nat.shiftRight_eq_div_pow]

theorem addCarry_carry_le {left right : Bytes} (hlen : left.length = right.length) :
    (addCarry left right).2.toNat ≤ 1 := by
  induction left generalizing right with
  | nil => simp [addCarry]
  | cons a as ih =>
      cases right with
      | nil => simp at hlen
      | cons b bs =>
          have hcarry := ih (show as.length = bs.length by simpa using hlen)
          have ha := a.toNat_lt
          have hb := b.toNat_lt
          simp only [addCarry, toNat_carry, toNat_digit_sum a b hcarry]
          omega

/-- The digits of the sum and the carry out of it make up the whole sum. -/
theorem toNat_addCarry {left right : Bytes} (hlen : left.length = right.length) :
    toNat (addCarry left right).1 + (addCarry left right).2.toNat * 256 ^ left.length =
      toNat left + toNat right := by
  induction left generalizing right with
  | nil =>
      rw [List.length_eq_zero_iff.mp hlen.symm]
      simp [addCarry]
  | cons a as ih =>
      cases right with
      | nil => simp at hlen
      | cons b bs =>
          have hlen' : as.length = bs.length := by simpa using hlen
          have hrest := ih hlen'
          have hdigit : ((a.toUInt16 + b.toUInt16 + (addCarry as bs).2).toUInt8).toNat +
              ((a.toUInt16 + b.toUInt16 + (addCarry as bs).2) >>> 8).toNat * 256 =
              a.toNat + b.toNat + (addCarry as bs).2.toNat := by
            rw [toNat_carry, UInt16.toNat_toUInt8,
              toNat_digit_sum a b (addCarry_carry_le hlen')]
            exact Nat.mod_add_div' _ 256
          simp only [addCarry, toNat_cons, length_addCarry _ _ hlen',
            List.length_cons, pow_succ]
          calc
            _ = ((a.toUInt16 + b.toUInt16 + (addCarry as bs).2).toUInt8.toNat +
                ((a.toUInt16 + b.toUInt16 + (addCarry as bs).2) >>> 8).toNat * 256) *
                256 ^ as.length + toNat (addCarry as bs).1 := by ring
            _ = (a.toNat + b.toNat) * 256 ^ as.length + (toNat (addCarry as bs).1 +
                (addCarry as bs).2.toNat * 256 ^ as.length) := by rw [hdigit]; ring
            _ = _ := by rw [hrest, hlen']; ring

/-- A byte as a signed word. -/
theorem toInt_toInt16 (b : UInt8) : b.toUInt16.toInt16.toInt = b.toNat := by
  have hb := b.toNat_lt
  rw [Int16.toInt, UInt16.toBitVec_toInt16, BitVec.toInt_eq_toNat_of_lt] <;>
    simp only [UInt16.toNat_toBitVec, UInt8.toNat_toUInt16]
  omega

/-- A signed word in the range of bytes as a byte. -/
theorem toNat_toUInt8_of_lt {word : Int16} (hpos : 0 ≤ word.toInt) (hlt : word.toInt < 256) :
    (word.toUInt16.toUInt8.toNat : ℤ) = word.toInt := by
  have hword : (word.toUInt16.toNat : ℤ) = word.toInt := by
    have hcond := BitVec.toInt_eq_toNat_cond word.toBitVec
    have hbound := word.toUInt16.toNat_lt
    change word.toInt = _ at hcond
    change _ = ((if 2 * word.toUInt16.toNat < 2 ^ 16 then (word.toUInt16.toNat : ℤ)
      else (word.toUInt16.toNat : ℤ) - (2 ^ 16 : ℕ))) at hcond
    split at hcond <;> omega
  rw [UInt16.toNat_toUInt8]
  omega

/-- One place of a difference, before it is lifted into the range of digits. -/
theorem toInt_digit_difference (a b : UInt8) {borrow : Int16}
    (h : borrow = 0 ∨ borrow = 1) :
    (a.toUInt16.toInt16 - b.toUInt16.toInt16 - borrow).toInt =
      a.toNat - b.toNat - borrow.toInt := by
  have ha := a.toNat_lt
  have hb := b.toNat_lt
  simp only [Int16.toInt_sub, toInt_toInt16]
  rcases h with rfl | rfl <;> simp [Int.bmod] <;> omega

theorem toInt_borrow {borrow : Int16} (h : borrow = 0 ∨ borrow = 1) :
    borrow.toInt = 0 ∨ borrow.toInt = 1 := by
  rcases h with rfl | rfl <;> simp

/-- One place of a difference that is below zero, when it is lifted. -/
theorem toInt_digit_lifted (a b : UInt8) {borrow : Int16} (h : borrow = 0 ∨ borrow = 1)
    (hneg : a.toUInt16.toInt16 - b.toUInt16.toInt16 - borrow < 0) :
    (a.toUInt16.toInt16 - b.toUInt16.toInt16 - borrow + 256).toInt =
      a.toNat - b.toNat - borrow.toInt + 256 := by
  have hb := b.toNat_lt
  have hborrow := toInt_borrow h
  rw [Int16.lt_iff_toInt_lt, toInt_digit_difference a b h, Int16.toInt_zero] at hneg
  rw [Int16.toInt_add, toInt_digit_difference a b h]
  simp [Int.bmod]
  omega

theorem subtractBorrow_borrow (left right : Bytes) :
    (subtractBorrow left right).2 = 0 ∨ (subtractBorrow left right).2 = 1 := by
  cases left with
  | nil => simp [subtractBorrow]
  | cons a as =>
      cases right with
      | nil => simp [subtractBorrow]
      | cons b bs =>
          simp only [subtractBorrow]
          split <;> simp

/-- The digit that a place of a difference leaves. -/
theorem toNat_digit_difference (a b : UInt8) {borrow : Int16} (h : borrow = 0 ∨ borrow = 1)
    (hpos : ¬a.toUInt16.toInt16 - b.toUInt16.toInt16 - borrow < 0) :
    ((a.toUInt16.toInt16 - b.toUInt16.toInt16 - borrow).toUInt16.toUInt8.toNat : ℤ) =
      a.toNat - b.toNat - borrow.toInt := by
  have ha := a.toNat_lt
  have hborrow := toInt_borrow h
  have hdigit := toInt_digit_difference a b h
  rw [Int16.lt_iff_toInt_lt, hdigit, Int16.toInt_zero] at hpos
  rw [toNat_toUInt8_of_lt (by omega) (by omega), hdigit]

/-- The digit that a place of a difference leaves if it has to borrow. -/
theorem toNat_digit_lifted (a b : UInt8) {borrow : Int16} (h : borrow = 0 ∨ borrow = 1)
    (hneg : a.toUInt16.toInt16 - b.toUInt16.toInt16 - borrow < 0) :
    ((a.toUInt16.toInt16 - b.toUInt16.toInt16 - borrow + 256).toUInt16.toUInt8.toNat : ℤ) =
      a.toNat - b.toNat - borrow.toInt + 256 := by
  have hb := b.toNat_lt
  have hborrow := toInt_borrow h
  have hlifted := toInt_digit_lifted a b h hneg
  rw [Int16.lt_iff_toInt_lt, toInt_digit_difference a b h, Int16.toInt_zero] at hneg
  rw [toNat_toUInt8_of_lt (by omega) (by omega), hlifted]

/-- The digits of the difference, and the borrow out of it, which is one if the
second number is the larger one. -/
theorem toNat_subtractBorrow {left right : Bytes} (hlen : left.length = right.length) :
    (toNat (subtractBorrow left right).1 : ℤ) =
      toNat left - toNat right + (subtractBorrow left right).2.toInt * 256 ^ left.length := by
  induction left generalizing right with
  | nil =>
      rw [List.length_eq_zero_iff.mp hlen.symm]
      simp [subtractBorrow]
  | cons a as ih =>
      cases right with
      | nil => simp at hlen
      | cons b bs =>
          have hlen' : as.length = bs.length := by simpa using hlen
          -- The places behind borrow at most one, so one lift makes the digit a byte again.
          have hborrow := subtractBorrow_borrow as bs
          simp only [subtractBorrow]
          split
          · rename_i hneg
            rw [toNat_cons, toNat_cons, toNat_cons, length_subtractBorrow _ _ hlen', ← hlen',
              List.length_cons, pow_succ]
            push_cast
            rw [toNat_digit_lifted a b hborrow hneg, ih hlen']
            ring
          · rename_i hpos
            rw [toNat_cons, toNat_cons, toNat_cons, length_subtractBorrow _ _ hlen', ← hlen',
              List.length_cons, pow_succ]
            push_cast
            rw [toNat_digit_difference a b hborrow hpos, ih hlen']
            ring

end Bytes

namespace Block

variable {n : ℕ}

theorem toNat_lt (block : Block n) : block.toNat < 256 ^ n := by
  have h := Bytes.toNat_lt block.bytes
  rwa [block.length_bytes] at h

@[ext] theorem ext {left right : Block n} (h : left.bytes = right.bytes) : left = right := by
  cases left
  cases right
  simpa using h

theorem ofBytes?_eq_some_iff {bytes : Bytes} {block : Block n} :
    ofBytes? n bytes = some block ↔ bytes = block.bytes := by
  rw [ofBytes?]
  split
  · rw [Option.some.injEq, Block.ext_iff]
  · rename_i h
    simp only [reduceCtorEq, false_iff]
    rintro rfl
    exact h block.length_bytes

theorem ofBytes?_eq_none_iff {bytes : Bytes} : ofBytes? n bytes = none ↔ bytes.length ≠ n := by
  rw [ofBytes?]
  split <;> simp_all

@[simp] theorem ofBytes?_bytes (block : Block n) : ofBytes? n block.bytes = some block :=
  ofBytes?_eq_some_iff.mpr rfl

theorem toNat_inj {left right : Block n} : left.toNat = right.toNat ↔ left = right := by
  constructor
  · intro h
    exact ext (Bytes.eq_of_toNat_eq (by simp) h)
  · rintro rfl
    rfl

theorem toNat_ofNat (n value : ℕ) : (ofNat n value).toNat = value % 256 ^ n :=
  Bytes.toNat_ofNat n value

theorem toNat_ofNat_of_lt {value : ℕ} (h : value < 256 ^ n) : (ofNat n value).toNat = value :=
  Bytes.toNat_ofNat_of_lt h

@[simp] theorem ofNat_toNat (block : Block n) : ofNat n block.toNat = block := by
  rw [← toNat_inj, toNat_ofNat_of_lt block.toNat_lt]

@[simp] theorem toNat_zero : (zero n).toNat = 0 := by
  have h : ∀ count : ℕ, Bytes.toNat (List.replicate count 0) = 0 := by
    intro count
    induction count with
    | zero => rfl
    | succ count ih => simp [List.replicate_succ, Bytes.toNat_cons, ih]
  exact h n

theorem eq_zero_iff {block : Block n} : block = zero n ↔ block.toNat = 0 := by
  rw [← toNat_inj, toNat_zero]

theorem less_iff {left right : Block n} :
    left.less right = true ↔ left.toNat < right.toNat :=
  Bytes.less_iff (by simp)

/-- The sum is refused exactly when it does not fit. -/
theorem add?_eq_some_iff {left right sum : Block n} :
    left.add? right = some sum ↔ sum.toNat = left.toNat + right.toNat := by
  have hlen : left.bytes.length = right.bytes.length := by simp
  have hvalue := Bytes.toNat_addCarry hlen
  have hcarry := Bytes.addCarry_carry_le hlen
  have hlt := Bytes.toNat_lt (left.bytes.addCarry right.bytes).1
  rw [Bytes.length_addCarry _ _ hlen, left.length_bytes] at hlt
  rw [left.length_bytes] at hvalue
  have hsum := sum.toNat_lt
  simp only [add?]
  split
  · rename_i hzero
    rw [hzero, UInt16.toNat_zero, zero_mul, add_zero] at hvalue
    rw [Option.some_inj, ← toNat_inj]
    exact ⟨fun h => h ▸ hvalue, fun h => hvalue.trans h.symm⟩
  · rename_i hzero
    have hone : (left.bytes.addCarry right.bytes).2.toNat = 1 := by
      have : (left.bytes.addCarry right.bytes).2.toNat ≠ 0 := by
        simpa [← UInt16.toNat_inj] using hzero
      omega
    rw [hone, one_mul] at hvalue
    simp only [reduceCtorEq, false_iff]
    intro h
    change _ = Bytes.toNat left.bytes + Bytes.toNat right.bytes at h
    omega

/-- A sum is found exactly if it fits. -/
theorem exists_add?_iff {left right : Block n} :
    (∃ sum, left.add? right = some sum) ↔ left.toNat + right.toNat < 256 ^ n := by
  constructor
  · rintro ⟨sum, h⟩
    rw [add?_eq_some_iff] at h
    exact h ▸ sum.toNat_lt
  · intro h
    exact ⟨ofNat n (left.toNat + right.toNat),
      add?_eq_some_iff.mpr (toNat_ofNat_of_lt h)⟩

/-- Nothing is borrowed beyond the first digits exactly if the first number is not the smaller
one. -/
theorem subtractBorrow_borrow_eq_zero_iff {left right : Block n} :
    (left.bytes.subtractBorrow right.bytes).2 = 0 ↔ right.toNat ≤ left.toNat := by
  have hlen : left.bytes.length = right.bytes.length := by simp
  have hvalue := Bytes.toNat_subtractBorrow hlen
  have hlt := Bytes.toNat_lt (left.bytes.subtractBorrow right.bytes).1
  rw [Bytes.length_subtractBorrow _ _ hlen, left.length_bytes] at hlt
  rw [left.length_bytes] at hvalue
  have hlt' : (Bytes.toNat (left.bytes.subtractBorrow right.bytes).1 : ℤ) < 256 ^ n := by
    exact_mod_cast hlt
  change _ ↔ Bytes.toNat right.bytes ≤ Bytes.toNat left.bytes
  rcases Bytes.subtractBorrow_borrow left.bytes right.bytes with hb | hb
  · rw [hb, Int16.toInt_zero, zero_mul, add_zero] at hvalue
    rw [hb]
    simp only [true_iff]
    omega
  · rw [hb, Int16.toInt_one, one_mul] at hvalue
    have hone : (1 : Int16) ≠ 0 := by decide
    rw [hb]
    simp only [hone, false_iff]
    omega

/-- The difference is exact when the first number is not the smaller one. -/
theorem toNat_subtract {left right : Block n} (h : right.toNat ≤ left.toNat) :
    (left.subtract right).toNat = left.toNat - right.toNat := by
  have hlen : left.bytes.length = right.bytes.length := by simp
  have hvalue := Bytes.toNat_subtractBorrow hlen
  rw [subtractBorrow_borrow_eq_zero_iff.mpr h, Int16.toInt_zero, zero_mul, add_zero] at hvalue
  change Bytes.toNat right.bytes ≤ Bytes.toNat left.bytes at h
  change Bytes.toNat (left.bytes.subtractBorrow right.bytes).1 =
    Bytes.toNat left.bytes - Bytes.toNat right.bytes
  omega

end Block

end Keyring
