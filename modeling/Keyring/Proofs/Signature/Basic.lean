import Keyring.Proofs.Curve.Scalar
import Keyring.Signature.Basic

/-!
What the checks on a signature say about its scalars, and what its bytes are
read back to.

Bytes of the right length are what some pair of blocks and an id are written as,
so that reading them is a matter of the checks alone, and these are made in a
fixed order.
-/

namespace Keyring

open Curve
open scoped PrimeField

namespace Signature

theorem isInRange_iff {signature : Signature} :
    signature.isInRange = true ↔ (0 < signature.r.toNat ∧ signature.r.toNat < order) ∧
      (0 < signature.s.toNat ∧ signature.s.toNat < order) := by
  rw [isInRange, Bool.and_eq_true, Scalar.isUsable_iff, Scalar.isUsable_iff]

theorem r_ne_zero {signature : Signature} (h : signature.isInRange = true) :
    Scalar.ofBlock signature.r ≠ 0 :=
  Scalar.ofBlock_ne_zero (Bool.and_eq_true_iff.mp h).1

theorem s_ne_zero {signature : Signature} (h : signature.isInRange = true) :
    Scalar.ofBlock signature.s ≠ 0 :=
  Scalar.ofBlock_ne_zero (Bool.and_eq_true_iff.mp h).2

theorem isLow_iff {signature : Signature} :
    signature.isLow = true ↔ signature.s.toNat ≤ order / 2 := by
  rw [isLow, Bool.not_eq_true', ← Bool.not_eq_true, Block.less_iff,
    toNat_halfOrderBytes, not_lt]

theorem ofCompact_toCompact (signature : Signature) :
    ofCompact signature.toCompact = signature := by
  cases signature
  simp [ofCompact, toCompact, Block.left, Block.right, Block.append]

theorem toCompact_ofCompact (block : Block compactLength) :
    (ofCompact block).toCompact = block := by
  ext1
  exact List.take_append_drop 32 block.bytes

end Signature

namespace RecoverableSignature

/-! ### Reading bytes -/

section Reading

variable {bytes : Bytes} {recoverable other : RecoverableSignature}

theorem bytes_toBlock (recoverable : RecoverableSignature) :
    recoverable.toBlock.bytes = recoverable.signature.toCompact.bytes ++ [recoverable.id] :=
  rfl

theorem bytes_toBlock_inj :
    recoverable.toBlock.bytes = other.toBlock.bytes ↔ recoverable = other := by
  constructor
  · intro h
    obtain ⟨signature, id⟩ := recoverable
    obtain ⟨signature', id'⟩ := other
    obtain ⟨hcompact, hid⟩ := List.append_inj' h rfl
    obtain rfl : id = id' := (List.cons.inj hid).1
    obtain rfl : signature = signature' := by
      rw [← Signature.ofCompact_toCompact signature, Block.ext hcompact,
        Signature.ofCompact_toCompact]
    rfl
  · rintro rfl
    rfl

/-- Any byte string of the right length is what a pair of blocks and an id are written as, in
range or not. -/
theorem exists_eq_toBlock (h : bytes.length = length) :
    ∃ recoverable : RecoverableSignature, bytes = recoverable.toBlock.bytes := by
  have hlength : bytes.length = Signature.compactLength + 1 := h
  obtain ⟨id, hid⟩ : ∃ id, bytes.drop Signature.compactLength = [id] := by
    rw [← List.length_eq_one_iff, List.length_drop, hlength, Nat.add_sub_cancel_left]
  have htake : (bytes.take Signature.compactLength).length = Signature.compactLength := by
    rw [List.length_take, hlength, Nat.min_eq_left (Nat.le_succ _)]
  have hcompact : (Signature.ofCompact ⟨_, htake⟩).toCompact.bytes =
      bytes.take Signature.compactLength :=
    congrArg Block.bytes (Signature.toCompact_ofCompact ⟨_, htake⟩)
  refine ⟨⟨Signature.ofCompact ⟨_, htake⟩, id⟩, ?_⟩
  rw [bytes_toBlock, hcompact, ← hid, List.take_append_drop]

theorem ofBytes_of_length_ne (h : bytes.length ≠ length) :
    ofBytes bytes = .error (.wrongLength (.exactly length) bytes.length) := by
  rw [ofBytes]
  split
  · rename_i compact id hcompact hid
    rw [Block.ofBytes?_eq_some_iff] at hcompact
    have hbytes : compact.bytes ++ [id] = bytes := by
      rw [← hcompact, ← hid, List.take_append_drop]
    have hlength : (compact.bytes ++ [id]).length = length := by
      rw [List.length_append, compact.length_bytes, length, List.length_singleton]
    exact absurd (hbytes ▸ hlength) h
  · rfl

/-- The checks on bytes of the right length, in their order. -/
theorem ofBytes_toBlock (recoverable : RecoverableSignature) :
    ofBytes recoverable.toBlock.bytes =
      if maxId < recoverable.id then .error (.badRecoveryId recoverable.id)
      else if !recoverable.signature.isInRange then .error .badSignature
      else .ok recoverable := by
  have hlength : recoverable.signature.toCompact.bytes.length = Signature.compactLength :=
    recoverable.signature.toCompact.length_bytes
  have htake : recoverable.toBlock.bytes.take Signature.compactLength =
      recoverable.signature.toCompact.bytes := List.take_left' hlength
  have hdrop : recoverable.toBlock.bytes.drop Signature.compactLength = [recoverable.id] :=
    List.drop_left' hlength
  rw [ofBytes, htake, hdrop, Block.ofBytes?_bytes]
  simp only [Signature.ofCompact_toCompact]

theorem ofBytes_toBlock_eq_ok_iff :
    ofBytes recoverable.toBlock.bytes = .ok other ↔
      recoverable = other ∧ recoverable.id ≤ maxId ∧
        recoverable.signature.isInRange = true := by
  rw [ofBytes_toBlock]
  split
  · rename_i hid
    simp [UInt8.not_le.mpr hid]
  · rename_i hid
    split
    · rename_i hrange
      have hfalse : recoverable.signature.isInRange = false := by simpa using hrange
      simp [hfalse]
    · rename_i hrange
      have htrue : recoverable.signature.isInRange = true := by simpa using hrange
      simp [htrue, UInt8.not_lt.mp hid]

/-- Bytes are read as a signature exactly if they are those that it is written
as, its id is valid and its scalars are in range. -/
theorem ofBytes_eq_ok_iff : ofBytes bytes = .ok recoverable ↔
    bytes = recoverable.toBlock.bytes ∧
    recoverable.id ≤ maxId ∧ recoverable.signature.isInRange = true := by
  by_cases h : bytes.length = length
  · obtain ⟨read, rfl⟩ := exists_eq_toBlock h
    rw [ofBytes_toBlock_eq_ok_iff, bytes_toBlock_inj]
    constructor
    · rintro ⟨rfl, hvalid⟩
      exact ⟨rfl, hvalid⟩
    · rintro ⟨rfl, hvalid⟩
      exact ⟨rfl, hvalid⟩
  · rw [ofBytes_of_length_ne h]
    simp only [reduceCtorEq, false_iff]
    rintro ⟨rfl, -⟩
    exact h recoverable.toBlock.length_bytes

/-! ### The fields of the bytes -/

/-- Whether the first and the second thirty-two bytes stand for numbers from one up to the
order. -/
def ScalarsInRange (bytes : Bytes) : Prop :=
  (0 < Bytes.toNat (bytes.take 32) ∧ Bytes.toNat (bytes.take 32) < order) ∧
    (0 < Bytes.toNat ((bytes.drop 32).take 32) ∧ Bytes.toNat ((bytes.drop 32).take 32) < order)

theorem getLast?_toBlock (recoverable : RecoverableSignature) :
    recoverable.toBlock.bytes.getLast? = some recoverable.id := by
  rw [bytes_toBlock, List.getLast?_concat]

theorem scalarsInRange_toBlock :
    ScalarsInRange recoverable.toBlock.bytes ↔ recoverable.signature.isInRange = true := by
  obtain ⟨⟨r, s⟩, id⟩ := recoverable
  have hbytes : (toBlock ⟨⟨r, s⟩, id⟩).bytes = r.bytes ++ (s.bytes ++ [id]) :=
    List.append_assoc _ _ _
  rw [ScalarsInRange, hbytes, List.take_left' r.length_bytes, List.drop_left' r.length_bytes,
    List.take_left' s.length_bytes, Signature.isInRange_iff]
  rfl

end Reading

/-- Reading accepts exactly the valid encodings, and what is read is written as the same bytes.
There are sixty-five of them, two scalars that are neither zero nor too large, and an id of at
most three. Of all other bytes the length is refused first, then the id, then the scalars. So
every signature with valid parts is read back from its bytes. -/
theorem reading_accepts_exactly_valid_signatures :
    (∀ bytes recoverable, ofBytes bytes = .ok recoverable ↔
      bytes.length = 65 ∧ (∃ id, bytes.getLast? = some id ∧ id ≤ 3) ∧ ScalarsInRange bytes ∧
        recoverable.toBlock.bytes = bytes) ∧
    (∀ bytes : Bytes, bytes.length ≠ 65 →
      ofBytes bytes = .error (.wrongLength (.exactly 65) bytes.length)) ∧
    (∀ bytes id, bytes.length = 65 → bytes.getLast? = some id → 3 < id →
      ofBytes bytes = .error (.badRecoveryId id)) ∧
    (∀ bytes id, bytes.length = 65 → bytes.getLast? = some id → id ≤ 3 →
      ¬ScalarsInRange bytes →
      ofBytes bytes = .error .badSignature) ∧
    ∀ recoverable : RecoverableSignature,
      0 < recoverable.signature.r.toNat → recoverable.signature.r.toNat < order →
      0 < recoverable.signature.s.toNat → recoverable.signature.s.toNat < order →
      recoverable.id ≤ 3 → ofBytes recoverable.toBlock.bytes = .ok recoverable := by
  refine ⟨?_, ?_, ?_, ?_, ?_⟩
  · intro bytes recoverable
    rw [ofBytes_eq_ok_iff]
    constructor
    · rintro ⟨rfl, hid, hrange⟩
      exact ⟨recoverable.toBlock.length_bytes, ⟨_, getLast?_toBlock recoverable, hid⟩,
        scalarsInRange_toBlock.mpr hrange, rfl⟩
    · rintro ⟨-, ⟨id, hlast, hid⟩, hrange, rfl⟩
      rw [getLast?_toBlock, Option.some.injEq] at hlast
      exact ⟨rfl, hlast ▸ hid, scalarsInRange_toBlock.mp hrange⟩
  · intro bytes h
    exact ofBytes_of_length_ne h
  · intro bytes id hlength hlast hid
    obtain ⟨recoverable, rfl⟩ := exists_eq_toBlock hlength
    rw [getLast?_toBlock, Option.some.injEq] at hlast
    subst hlast
    exact (ofBytes_toBlock recoverable).trans (if_pos hid)
  · intro bytes id hlength hlast hid hrange
    obtain ⟨recoverable, rfl⟩ := exists_eq_toBlock hlength
    rw [getLast?_toBlock, Option.some.injEq] at hlast
    subst hlast
    have hout : (!recoverable.signature.isInRange) = true := by
      rwa [scalarsInRange_toBlock, Bool.not_eq_true, ← Bool.not_eq_true'] at hrange
    exact (ofBytes_toBlock recoverable).trans
      ((if_neg (UInt8.not_lt.mpr hid)).trans (if_pos hout))
  · intro recoverable hr hr' hs hs' hid
    exact ofBytes_eq_ok_iff.mpr
      ⟨rfl, hid, Signature.isInRange_iff.mpr ⟨⟨hr, hr'⟩, hs, hs'⟩⟩

/-- The greatest and the smallest scalars with the greatest id, and bytes with more than one
fault: zeros that are too few, zeros that end in an id of four, and zeros only. -/
theorem reading_accepts_exactly_valid_signatures_three :
    ofBytes (toBlock ⟨⟨Block.ofNat 32 (order - 1), Block.ofNat 32 1⟩, 3⟩).bytes =
        .ok ⟨⟨Block.ofNat 32 (order - 1), Block.ofNat 32 1⟩, 3⟩ ∧
      ofBytes (List.replicate 64 0) = .error (.wrongLength (.exactly 65) 64) ∧
      ofBytes (List.replicate 64 0 ++ [4]) = .error (.badRecoveryId 4) ∧
      ofBytes (List.replicate 64 0 ++ [0]) = .error .badSignature := by
  obtain ⟨-, hlength, hid, hscalars, hvalid⟩ := reading_accepts_exactly_valid_signatures
  have hzero : ¬ScalarsInRange (List.replicate 64 0 ++ [0]) := by
    rintro ⟨⟨hpos, -⟩, -⟩
    exact absurd hpos (by decide)
  exact ⟨hvalid _ (by decide) (by decide) (by decide) (by decide) (by decide),
    hlength _ (by decide), hid _ 4 (by decide) (by decide) (by decide),
    hscalars _ 0 (by decide) (by decide) (by decide) hzero⟩

end RecoverableSignature

end Keyring
