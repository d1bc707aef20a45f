import Keyring.Proofs.Curve.Field

/-!
Scalars as blocks of bytes, and the inverse of a scalar.

The conditions on blocks are conditions on the numbers that they stand for, a
digest is reduced to its remainder, and raising to the power `order - 2` bit by
bit never fails on a scalar that is not zero.
-/

namespace Keyring.Curve

open scoped PrimeField

@[simp] theorem toNat_orderBytes : orderBytes.toNat = order := by decide

@[simp] theorem toNat_halfOrderBytes : halfOrderBytes.toNat = order / 2 := by decide

@[simp] theorem toNat_fieldSizeBytes : fieldSizeBytes.toNat = fieldSize := by decide

namespace Scalar

theorem isUsable_iff {block : Block 32} :
    isUsable block = true ↔ 0 < block.toNat ∧ block.toNat < order := by
  rw [isUsable, Bool.and_eq_true, decide_eq_true_eq, Block.less_iff, toNat_orderBytes, Ne,
    Block.eq_zero_iff, Nat.pos_iff_ne_zero]

theorem val_ofBlock (block : Block 32) : (ofBlock block).val = block.toNat % order := rfl

theorem val_ofBlock_of_lt {block : Block 32} (h : block.toNat < order) :
    (ofBlock block).val = block.toNat := by
  rw [val_ofBlock, Nat.mod_eq_of_lt h]

theorem toNat_toBlock (scalar : Scalar) : scalar.toBlock.toNat = scalar.val :=
  Block.toNat_ofNat_of_lt (scalar.isLt.trans (by decide))

@[simp] theorem ofBlock_toBlock (scalar : Scalar) : ofBlock scalar.toBlock = scalar := by
  apply Fin.ext
  rw [val_ofBlock_of_lt, toNat_toBlock]
  rw [toNat_toBlock]
  exact scalar.isLt

theorem ofBlock_eq_zero_iff {block : Block 32} (h : block.toNat < order) :
    ofBlock block = 0 ↔ block.toNat = 0 := by
  rw [← val_ofBlock_of_lt h, ← Fin.val_eq_zero_iff]

theorem ofBlock_ne_zero {block : Block 32} (h : isUsable block = true) :
    ofBlock block ≠ 0 := by
  rw [isUsable_iff] at h
  rw [Ne, ofBlock_eq_zero_iff h.2]
  omega

theorem isUsable_toBlock {scalar : Scalar} : isUsable scalar.toBlock = true ↔ scalar ≠ 0 := by
  rw [isUsable_iff, toNat_toBlock, Ne, ← Fin.val_eq_zero_iff]
  have := scalar.isLt
  omega

theorem ofBlock?_eq_some_iff {block : Block 32} {scalar : Scalar} :
    ofBlock? block = some scalar ↔ isUsable block = true ∧ ofBlock block = scalar := by
  rw [ofBlock?, Option.ite_none_right_eq_some, Option.some.injEq]

theorem ofBlock?_of_isUsable {block : Block 32} (h : isUsable block = true) :
    ofBlock? block = some (ofBlock block) :=
  ofBlock?_eq_some_iff.mpr ⟨h, rfl⟩

theorem ne_zero_of_ofBlock? {block : Block 32} {scalar : Scalar}
    (h : ofBlock? block = some scalar) : scalar ≠ 0 := by
  obtain ⟨husable, rfl⟩ := ofBlock?_eq_some_iff.mp h
  exact ofBlock_ne_zero husable

/-- One subtraction of the order is enough for a digest. -/
theorem toNat_reduce (digest : Digest) : (reduce digest).toNat = digest.toNat % order := by
  have htop : digest.toNat < 2 * order := digest.toNat_lt.trans (by decide)
  rw [reduce]
  split
  · rename_i h
    rw [Block.less_iff, toNat_orderBytes] at h
    rw [Nat.mod_eq_of_lt h]
  · rename_i h
    rw [Block.less_iff, toNat_orderBytes, not_lt] at h
    rw [Block.toNat_subtract (by rwa [toNat_orderBytes]), toNat_orderBytes,
      Nat.mod_eq_sub_mod h, Nat.mod_eq_of_lt (by omega)]

theorem ofBlock_reduce (digest : Digest) : ofBlock (reduce digest) = ofBlock digest := by
  apply Fin.ext
  rw [val_ofBlock, val_ofBlock, toNat_reduce, Nat.mod_mod]

theorem reduce_eq_zero_iff {digest : Digest} :
    reduce digest = Block.zero 32 ↔ ofBlock digest = 0 := by
  have hlt : (reduce digest).toNat < order := by
    rw [toNat_reduce]
    exact Nat.mod_lt _ (by decide)
  rw [Block.eq_zero_iff, ← ofBlock_eq_zero_iff hlt, ofBlock_reduce]

theorem ofBlock?_reduce {digest : Digest} (h : ofBlock digest ≠ 0) :
    ofBlock? (reduce digest) = some (ofBlock digest) := by
  have husable : isUsable (reduce digest) = true := by
    rw [isUsable_iff, Nat.pos_iff_ne_zero, Ne, ← Block.eq_zero_iff, reduce_eq_zero_iff,
      toNat_reduce]
    exact ⟨h, Nat.mod_lt _ (by decide)⟩
  rw [ofBlock?_of_isUsable husable, ofBlock_reduce]

theorem multiply?_of_ne_zero {a b : Scalar} (ha : a ≠ 0) (hb : b ≠ 0) :
    multiply? a b = some (a * b) := by
  rw [multiply?, if_neg (by simp [ha, hb])]

/-! ### The inverse -/

/-- What the value along the bits so far stands for: no value for no set bit,
else the power of the base by the number that the bits make. -/
def StandsForPower (base : Scalar) : Option Scalar → ℕ → Prop
  | none, exponent => exponent = 0
  | some value, exponent => value = base ^ exponent

theorem powerStep_stands {base : Scalar} (hbase : base ≠ 0) {power : Option Scalar}
    {exponent : ℕ} (h : StandsForPower base power exponent) (bit : Bool) :
    ∃ next, powerStep base power bit = some next ∧
      StandsForPower base next (2 * exponent + bit.toNat) := by
  cases power with
  | none =>
      obtain rfl : exponent = 0 := h
      cases bit with
      | false => exact ⟨none, rfl, rfl⟩
      | true => exact ⟨some base, rfl, (pow_one base).symm⟩
  | some value =>
      obtain rfl : value = base ^ exponent := h
      have hvalue : base ^ exponent ≠ 0 := pow_ne_zero _ hbase
      have hsquare : base ^ exponent * base ^ exponent = base ^ (2 * exponent) := by
        rw [two_mul, pow_add]
      cases bit with
      | false =>
          refine ⟨some (base ^ (2 * exponent)), ?_, rfl⟩
          simp [powerStep, multiply?_of_ne_zero hvalue hvalue, hsquare]
      | true =>
          refine ⟨some (base ^ (2 * exponent + 1)), ?_, rfl⟩
          simp [powerStep, multiply?_of_ne_zero hvalue hvalue, hsquare,
            multiply?_of_ne_zero (pow_ne_zero (2 * exponent) hbase) hbase, pow_succ]

theorem powerAlong_stands {base : Scalar} (hbase : base ≠ 0) (bits : Bits)
    {power : Option Scalar} {exponent : ℕ} (h : StandsForPower base power exponent) :
    StandsForPower base (powerAlong base power bits)
      (exponent * 2 ^ bits.length + Bits.toNat bits) := by
  induction bits generalizing power exponent with
  | nil => simpa [powerAlong] using h
  | cons bit rest ih =>
      obtain ⟨next, hstep, hnext⟩ := powerStep_stands hbase h bit
      have hrest := ih hnext
      have hexponent : exponent * 2 ^ (rest.length + 1) + Bits.toNat (bit :: rest) =
          (2 * exponent + bit.toNat) * 2 ^ rest.length + Bits.toNat rest := by
        rw [Bits.toNat_cons]
        ring
      rw [powerAlong, hstep, List.length_cons, hexponent]
      exact hrest

theorem powerAlong_none_stands {base : Scalar} (hbase : base ≠ 0) (bits : Bits) :
    StandsForPower base (powerAlong base none bits) (Bits.toNat bits) := by
  have h := powerAlong_stands hbase bits (show StandsForPower base none 0 from rfl)
  rwa [zero_mul, zero_add] at h

theorem toNat_inverseExponent : Bytes.toNat inverseExponent = order - 2 := by decide

/-- A scalar that is not zero has an inverse, and the power finds it. -/
theorem invert?_of_ne_zero {scalar : Scalar} (h : scalar ≠ 0) :
    scalar.invert? = some scalar⁻¹ := by
  have hrun := powerAlong_none_stands h (Bits.ofBytes inverseExponent)
  rw [Bits.toNat_ofBytes, toNat_inverseExponent] at hrun
  rw [invert?]
  cases hpower : powerAlong scalar none (Bits.ofBytes inverseExponent) with
  | none =>
      rw [hpower] at hrun
      exact absurd hrun (show order - 2 ≠ 0 by decide)
  | some value =>
      rw [hpower] at hrun
      exact congrArg some hrun

end Scalar

end Keyring.Curve
