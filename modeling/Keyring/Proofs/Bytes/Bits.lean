import Keyring.Bytes.Bits
import Keyring.Proofs.Bytes.Value

/-!
The numbers that sequences of bits stand for, and repetition of an operation
along the bits of a number.

`Bits.repeated` is square and multiply for any operation at all. It is what lets
large powers and large multiples of points be computed in a proof.
-/

namespace Keyring.Bits

theorem foldl_toNat (value : ℕ) (bits : Bits) :
    bits.foldl (fun value bit => 2 * value + bit.toNat) value =
      value * 2 ^ bits.length + toNat bits := by
  induction bits generalizing value with
  | nil => simp [toNat]
  | cons bit rest ih =>
      simp only [toNat, List.foldl_cons, List.length_cons]
      rw [ih, ih (2 * 0 + bit.toNat)]
      ring

@[simp] theorem toNat_nil : toNat [] = 0 := rfl

theorem toNat_cons (bit : Bool) (rest : Bits) :
    toNat (bit :: rest) = bit.toNat * 2 ^ rest.length + toNat rest := by
  have h := foldl_toNat (2 * 0 + bit.toNat) rest
  simpa [toNat] using h

theorem toNat_append (left right : Bits) :
    toNat (left ++ right) = toNat left * 2 ^ right.length + toNat right := by
  rw [toNat, List.foldl_append, foldl_toNat]
  rfl

@[simp] theorem length_ofNat (width value : ℕ) : (ofNat width value).length = width := by
  induction width with
  | zero => rfl
  | succ width ih => simp [ofNat, ih]

/-- Writing a number in too few bits keeps its low bits. -/
theorem toNat_ofNat (width value : ℕ) : toNat (ofNat width value) = value % 2 ^ width := by
  induction width with
  | zero => simp [ofNat, Nat.mod_one]
  | succ width ih =>
      rw [ofNat, toNat_cons, length_ofNat, ih, Nat.toNat_testBit, Nat.mod_pow_succ]
      ring

theorem toNat_ofNat_of_lt {width value : ℕ} (h : value < 2 ^ width) :
    toNat (ofNat width value) = value := by
  rw [toNat_ofNat, Nat.mod_eq_of_lt h]

/-- A sequence of bits stands for a number with no more binary digits than it is
long. -/
theorem toNat_lt (bits : Bits) : toNat bits < 2 ^ bits.length := by
  induction bits with
  | nil => simp
  | cons bit rest ih =>
      have hbit : bit.toNat * 2 ^ rest.length ≤ 1 * 2 ^ rest.length :=
        Nat.mul_le_mul_right _ (Bool.toNat_le bit)
      rw [toNat_cons, List.length_cons, pow_succ]
      omega

/-- Among sequences of one length the number determines the sequence. -/
theorem eq_of_toNat_eq {left right : Bits} (hlen : left.length = right.length)
    (h : toNat left = toNat right) : left = right := by
  induction left generalizing right with
  | nil => exact (List.length_eq_zero_iff.mp hlen.symm).symm
  | cons a as ih =>
      cases right with
      | nil => simp at hlen
      | cons b bs =>
          have hlen' : as.length = bs.length := by simpa using hlen
          rw [toNat_cons, toNat_cons, hlen'] at h
          obtain ⟨hab, hrest⟩ := Bytes.digit_eq_of_add_eq (hlen' ▸ toNat_lt as) (toNat_lt bs) h
          have hbit : a = b := by
            cases a <;> cases b <;> simp at hab ⊢
          rw [hbit, ih hlen' hrest]

@[simp] theorem ofNat_toNat (bits : Bits) : ofNat bits.length (toNat bits) = bits :=
  eq_of_toNat_eq (length_ofNat _ _) (toNat_ofNat_of_lt (toNat_lt bits))

@[simp] theorem toNat_replicate_false (count : ℕ) :
    toNat (List.replicate count false) = 0 := by
  induction count with
  | zero => rfl
  | succ count ih => simp [List.replicate_succ, toNat_cons, ih]

@[simp] theorem length_ofBytes (bytes : Bytes) :
    (ofBytes bytes).length = 8 * bytes.length := by
  induction bytes with
  | nil => rfl
  | cons b rest ih =>
      rw [ofBytes] at ih ⊢
      rw [List.flatMap_cons, List.length_append, length_ofNat, ih, List.length_cons]
      ring

/-- The bits of a byte string stand for the same number as the string. -/
theorem toNat_ofBytes (bytes : Bytes) : toNat (ofBytes bytes) = Bytes.toNat bytes := by
  induction bytes with
  | nil => rfl
  | cons b rest ih =>
      have hlen := length_ofBytes rest
      rw [ofBytes] at ih hlen
      rw [ofBytes, List.flatMap_cons, toNat_append, ih, hlen, toNat_ofNat,
        Nat.mod_eq_of_lt b.toNat_lt, Bytes.toNat_cons, pow_mul]
      norm_num

variable {α : Type}

def repeated (op : α → α → α) (x start : α) (bits : Bits) : α :=
  bits.foldl (fun value bit => if bit then op (op value value) x else op value value) start

/-- If the operation adds the exponents that its arguments stand for, then the
value along the bits of a number stands for that number. -/
theorem repeated_stands {op : α → α → α} {x start : α} (stands : α → ℕ → Prop)
    (hop : ∀ {a b m n}, stands a m → stands b n → stands (op a b) (m + n))
    (hx : stands x 1) (hstart : stands start 0) (bits : Bits) :
    stands (repeated op x start bits) (toNat bits) := by
  have general : ∀ (bits : Bits) (value : α) (n : ℕ), stands value n →
      stands (repeated op x value bits)
        (bits.foldl (fun value bit => 2 * value + bit.toNat) n) := by
    intro bits
    induction bits with
    | nil => exact fun value n h => h
    | cons bit rest ih =>
        intro value n h
        have hsquare : stands (op value value) (2 * n) := by
          rw [two_mul]
          exact hop h h
        cases bit with
        | false => exact ih _ _ hsquare
        | true => exact ih _ _ (hop hsquare hx)
  exact general bits start 0 hstart

theorem repeated_mul [Monoid α] (x : α) (bits : Bits) :
    repeated (· * ·) x 1 bits = x ^ toNat bits :=
  repeated_stands (fun value n => value = x ^ n)
    (fun ha hb => by rw [ha, hb, pow_add]) (pow_one x).symm (pow_zero x).symm bits

end Keyring.Bits
