import Keyring.Digest.Keyed
import Keyring.Proofs.Bytes.Value

/-!
Which keys a keyed digest can tell apart.

A key becomes one block before it is used: a long one is replaced by its digest, and
zeros follow. So keys of up to one block that hold no zero have blocks of their own, and
longer keys have one block if they have one digest.
-/

namespace Keyring.HashFunction

variable {n : ℕ} {hash : HashFunction n} {key left right : Bytes}

theorem keyBlock_of_le (h : key.length ≤ hash.blockLength) :
    hash.keyBlock key = key ++ List.replicate (hash.blockLength - key.length) 0 := by
  rw [keyBlock, if_neg (not_lt.mpr h)]

theorem keyBlock_of_lt (h : hash.blockLength < key.length) :
    hash.keyBlock key =
      (hash.digest key).bytes ++ List.replicate (hash.blockLength - n) 0 := by
  simp only [keyBlock, if_pos h, Block.length_bytes]

theorem filter_append_zeros (h : 0 ∉ key) (count : ℕ) :
    (key ++ List.replicate count 0).filter (· ≠ 0) = key := by
  have hkey : key.filter (· ≠ 0) = key :=
    List.filter_eq_self.mpr fun b hb => decide_eq_true fun hzero => h (hzero ▸ hb)
  rw [List.filter_append, hkey, List.filter_replicate_of_neg (by simp), List.append_nil]

theorem keyBlock_eq_iff_of_le (hleft : left.length ≤ hash.blockLength)
    (hright : right.length ≤ hash.blockLength) (hleftZero : 0 ∉ left)
    (hrightZero : 0 ∉ right) :
    hash.keyBlock left = hash.keyBlock right ↔ left = right := by
  constructor
  · intro h
    rw [keyBlock_of_le hleft, keyBlock_of_le hright] at h
    rw [← filter_append_zeros hleftZero, h, filter_append_zeros hrightZero]
  · rintro rfl
    rfl

theorem keyBlock_eq_iff_of_lt (hleft : hash.blockLength < left.length)
    (hright : hash.blockLength < right.length) :
    hash.keyBlock left = hash.keyBlock right ↔ hash.digest left = hash.digest right := by
  rw [keyBlock_of_lt hleft, keyBlock_of_lt hright, List.append_left_inj]
  exact ⟨Block.ext, congrArg Block.bytes⟩

/-- A long key has the block of a short one if the short one, with zeros behind it, is the
digest of the long one. -/
theorem keyBlock_eq_iff_of_lt_of_le (hn : n ≤ hash.blockLength)
    (hleft : hash.blockLength < left.length) (hright : right.length ≤ hash.blockLength)
    (hzero : 0 ∉ right) :
    hash.keyBlock left = hash.keyBlock right ↔
      (hash.digest left).bytes = right ++ List.replicate (n - right.length) 0 := by
  rw [keyBlock_of_lt hleft, keyBlock_of_le hright]
  constructor
  · intro h
    have hlength : right.length ≤ n := by
      rw [← filter_append_zeros hzero (hash.blockLength - right.length), ← h,
        List.filter_append, List.filter_replicate_of_neg (by simp), List.append_nil]
      exact (List.length_filter_le _ _).trans (hash.digest left).length_bytes.le
    have hfront := congrArg (List.take n) h
    rw [List.take_left' (hash.digest left).length_bytes, List.take_append,
      List.take_of_length_le hlength, List.take_replicate] at hfront
    rw [hfront, min_eq_left (by omega)]
  · intro h
    have hlength : right.length ≤ n := by
      have hsum := congrArg List.length h
      rw [Block.length_bytes, List.length_append] at hsum
      omega
    rw [h, List.append_assoc, List.replicate_append_replicate]
    congr 2
    omega

end Keyring.HashFunction
