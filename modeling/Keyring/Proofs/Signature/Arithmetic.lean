import Keyring.Proofs.Signature.Recovery

/-!
The arithmetic on bytes behind signatures is that of the numbers.

Sums and differences are computed place by place in words, from the last place to the
first. The carry and the borrow that enter a place are zero or one, so that each word
holds the number that it stands for, and nothing is borrowed beyond the first place where
the difference is taken at all.
-/

namespace Keyring

open Curve

namespace Bytes

/-- Whether the words for one place of a sum hold the numbers that they stand for. -/
structure SumFits (a b : UInt8) (carry : UInt16) : Prop where
  pair : (a.toUInt16 + b.toUInt16).toNat = a.toNat + b.toNat
  total : (a.toUInt16 + b.toUInt16 + carry).toNat = a.toNat + b.toNat + carry.toNat

/-- Whether the words for one place of a difference hold the numbers that they stand for, the
one that is lifted, too, where one is. -/
structure DifferenceFits (a b : UInt8) (borrow : Int16) : Prop where
  pair : (a.toUInt16.toInt16 - b.toUInt16.toInt16).toInt = a.toNat - b.toNat
  total : (a.toUInt16.toInt16 - b.toUInt16.toInt16 - borrow).toInt =
    a.toNat - b.toNat - borrow.toInt
  lifted : a.toUInt16.toInt16 - b.toUInt16.toInt16 - borrow < 0 →
    (a.toUInt16.toInt16 - b.toUInt16.toInt16 - borrow + 256).toInt =
      a.toNat - b.toNat - borrow.toInt + 256

/-- Whatever the places behind it are, one place of a sum fits. -/
theorem sumFits_addCarry (a b : UInt8) {as bs : Bytes} (h : as.length = bs.length) :
    SumFits a b (addCarry as bs).2 where
  pair := by
    have hpair : (a.toUInt16 + b.toUInt16 + 0).toNat =
        a.toNat + b.toNat + (0 : UInt16).toNat :=
      toNat_digit_sum a b (by decide)
    rwa [UInt16.add_zero, UInt16.toNat_zero, add_zero] at hpair
  total := toNat_digit_sum a b (addCarry_carry_le h)

/-- Whatever the places behind it are, one place of a difference fits. -/
theorem differenceFits_subtractBorrow (a b : UInt8) (as bs : Bytes) :
    DifferenceFits a b (subtractBorrow as bs).2 where
  pair := by
    have hpair : (a.toUInt16.toInt16 - b.toUInt16.toInt16 - 0).toInt =
        a.toNat - b.toNat - (0 : Int16).toInt := toInt_digit_difference a b (.inl rfl)
    rwa [Int16.sub_zero, Int16.toInt_zero, sub_zero] at hpair
  total := toInt_digit_difference a b (subtractBorrow_borrow as bs)
  lifted := toInt_digit_lifted a b (subtractBorrow_borrow as bs)

end Bytes

namespace Signature

/-- The arithmetic on bytes is exact. A digest is reduced to its remainder modulo the order. A
sum is the sum of the numbers, and refused exactly if it has more than 256 bits. The checks on
scalars, on low signatures and on the coordinate of a nonce point are those on the numbers; the
bytes that `s` is compared with are those of half the order, rounded down. In no place of a sum
or of a difference does a word leave its range, and nothing is left to borrow when a digest is
reduced. -/
theorem byte_arithmetic_is_exact :
    (∀ digest : Digest, (Scalar.reduce digest).toNat = digest.toNat % order) ∧
    (∀ left right : Block 32, left.toNat + right.toNat < 2 ^ 256 →
      ∃ sum, left.add? right = some sum ∧ sum.toNat = left.toNat + right.toNat) ∧
    (∀ left right : Block 32, 2 ^ 256 ≤ left.toNat + right.toNat → left.add? right = none) ∧
    (∀ block : Block 32, Scalar.isUsable block = true ↔
      0 < block.toNat ∧ block.toNat < order) ∧
    (∀ signature : Signature, signature.isLow = true ↔ signature.s.toNat ≤ order / 2) ∧
    halfOrderBytes.bytes =
      [0x7f, 0xff, 0xff, 0xff, 0xff, 0xff, 0xff, 0xff,
        0xff, 0xff, 0xff, 0xff, 0xff, 0xff, 0xff, 0xff,
        0x5d, 0x57, 0x6e, 0x73, 0x57, 0xa4, 0x50, 0x1d,
        0xdf, 0xe9, 0x2f, 0x46, 0x68, 0x1b, 0x20, 0xa0] ∧
    (∀ x : Block 32, x.less fieldSizeBytes = true ↔ x.toNat < fieldSize) ∧
    (∀ (signature : Signature) (id : UInt8) (x : Block 32),
      signature.nonceCoordinate? id = some x ↔
        x.toNat = signature.r.toNat + (if id &&& 2 = 0 then 0 else order) ∧
          x.toNat < fieldSize) ∧
    (∀ (left right : Block 32) (i : ℕ) (a b : UInt8),
      left.bytes[i]? = some a → right.bytes[i]? = some b →
        Bytes.SumFits a b
          (Bytes.addCarry (left.bytes.drop (i + 1)) (right.bytes.drop (i + 1))).2 ∧
        Bytes.DifferenceFits a b
          (Bytes.subtractBorrow (left.bytes.drop (i + 1)) (right.bytes.drop (i + 1))).2) ∧
    ∀ digest : Digest, digest.less orderBytes = false →
      (Bytes.subtractBorrow digest.bytes orderBytes.bytes).2 = 0 := by
  refine ⟨?_, ?_, ?_, ?_, ?_, ?_, ?_, ?_, ?_, ?_⟩
  · intro digest
    exact Scalar.toNat_reduce digest
  · intro left right h
    obtain ⟨sum, hsum⟩ := Block.exists_add?_iff.mpr h
    exact ⟨sum, hsum, Block.add?_eq_some_iff.mp hsum⟩
  · intro left right h
    rw [Option.eq_none_iff_forall_ne_some]
    intro sum hsum
    exact absurd (Block.exists_add?_iff.mp ⟨sum, hsum⟩) (not_lt.mpr h)
  · intro block
    exact Scalar.isUsable_iff
  · intro signature
    exact isLow_iff
  · decide
  · intro x
    rw [Block.less_iff, toNat_fieldSizeBytes]
  · intro signature id x
    exact nonceCoordinate?_eq_some_iff
  · intro left right i a b _ _
    exact ⟨Bytes.sumFits_addCarry a b (by simp), Bytes.differenceFits_subtractBorrow a b _ _⟩
  · intro digest h
    rw [← Bool.not_eq_true, Block.less_iff, not_lt] at h
    exact Block.subtractBorrow_borrow_eq_zero_iff.mpr h

/-- The greatest digest, and the two sums next to the greatest one that fits. -/
theorem byte_arithmetic_is_exact_top :
    (Scalar.reduce (Block.ofNat 32 (2 ^ 256 - 1))).toNat = 2 ^ 256 - 1 - order ∧
      (∃ sum, (Block.ofNat 32 (2 ^ 256 - 1 - order)).add? orderBytes = some sum ∧
        sum.toNat = 2 ^ 256 - 1) ∧
      (Block.ofNat 32 (2 ^ 256 - order)).add? orderBytes = none ∧
      Bytes.SumFits 0xff 0x41 (Bytes.addCarry ((Block.ofNat 32 (2 ^ 256 - 1)).bytes.drop 31)
        (orderBytes.bytes.drop 31)).2 ∧
      (Bytes.subtractBorrow (Block.ofNat 32 (2 ^ 256 - 1)).bytes orderBytes.bytes).2 = 0 := by
  obtain ⟨hreduce, hsum, hnone, -, -, -, -, -, hplaces, hborrow⟩ := byte_arithmetic_is_exact
  have htop : (Block.ofNat 32 (2 ^ 256 - 1)).toNat % order = 2 ^ 256 - 1 - order := by decide
  have hfits : (Block.ofNat 32 (2 ^ 256 - 1 - order)).toNat + orderBytes.toNat =
      2 ^ 256 - 1 := by
    decide
  obtain ⟨sum, hfound, hvalue⟩ := hsum _ _ (hfits.trans_lt (by decide))
  exact ⟨(hreduce _).trans htop, ⟨sum, hfound, hvalue.trans hfits⟩, hnone _ _ (by decide),
    (hplaces _ _ 30 0xff 0x41 (by decide) (by decide)).1, hborrow _ (by decide)⟩

end Signature

end Keyring
