import Keyring.Proofs.Bytes.Value
import Keyring.Seal.Box

/-!
Sealed boxes are opened exactly if they were sealed.

The key stream depends on the length of the message only, which is that of the
ciphertext, so the same stream is taken off that was put on; and the tag in the
box is compared with the only one that sealing writes.
-/

namespace Keyring

theorem Bytes.length_xor {left right : Bytes} (h : left.length = right.length) :
    (left.xor right).length = left.length := by
  rw [xor, List.length_zipWith, h, Nat.min_self]

theorem Bytes.xor_xor {left right : Bytes} (h : left.length = right.length) :
    (left.xor right).xor right = left := by
  induction left generalizing right with
  | nil => rfl
  | cons a left ih =>
      cases right with
      | nil => simp at h
      | cons b right =>
          have hrest := ih (Nat.succ.inj h)
          rw [xor, xor] at hrest ⊢
          rw [List.zipWith_cons_cons, List.zipWith_cons_cons, hrest, UInt8.xor_assoc,
            UInt8.xor_self, UInt8.xor_zero]

namespace Box

theorem length_pads (key : Block 32) (nonce : Nonce) (length : ℕ) :
    (pads key nonce length).2.length = length := by
  rw [pads, List.length_drop, Salsa20.length_stream, Nat.add_sub_cancel_left]

theorem lock_eq (key : Block 32) (nonce : Nonce) (message : Bytes) :
    lock key nonce message = nonce.bytes ++
      ((Poly1305.tag (pads key nonce message.length).1
          (message.xor (pads key nonce message.length).2)).bytes ++
        message.xor (pads key nonce message.length).2) := by
  simp only [lock, List.append_assoc]

/-- A sealed form has the parts of a box exactly if the tag fits the ciphertext
and the message is what the pad for a message of that length makes of it. -/
theorem lock_eq_append_iff {key : Block 32} {nonce : Nonce} {tag : Block 16}
    {message ciphertext : Bytes} :
    lock key nonce message = nonce.bytes ++ (tag.bytes ++ ciphertext) ↔
      Poly1305.tag (pads key nonce ciphertext.length).1 ciphertext = tag ∧
        Bytes.xor ciphertext (pads key nonce ciphertext.length).2 = message := by
  have hlength : message.length = (pads key nonce message.length).2.length :=
    (length_pads key nonce message.length).symm
  rw [lock_eq]
  constructor
  · intro h
    -- Both tags have sixteen bytes, so the ciphertexts begin at the same place.
    obtain ⟨htag, hbody⟩ := List.append_inj (List.append_cancel_left h) (by simp)
    have hlen : ciphertext.length = message.length := by
      rw [← hbody, Bytes.length_xor hlength]
    rw [hlen, ← hbody, Bytes.xor_xor hlength]
    exact ⟨Block.ext htag, rfl⟩
  · rintro ⟨rfl, rfl⟩
    have hcipher : ciphertext.length = (pads key nonce ciphertext.length).2.length :=
      (length_pads key nonce ciphertext.length).symm
    rw [Bytes.length_xor hcipher, Bytes.xor_xor hcipher]

theorem unlock_append (key : Block 32) (nonce : Nonce) (tag : Block 16) (ciphertext : Bytes) :
    unlock key (nonce.bytes ++ (tag.bytes ++ ciphertext)) =
      if Poly1305.tag (pads key nonce ciphertext.length).1 ciphertext = tag then
        .ok (Bytes.xor ciphertext (pads key nonce ciphertext.length).2)
      else .error .decryptionFailed := by
  have htake : (nonce.bytes ++ (tag.bytes ++ ciphertext)).take nonceLength = nonce.bytes :=
    List.take_left' nonce.length_bytes
  have hdrop : (nonce.bytes ++ (tag.bytes ++ ciphertext)).drop nonceLength =
      tag.bytes ++ ciphertext := List.drop_left' nonce.length_bytes
  have htag : (tag.bytes ++ ciphertext).take tagLength = tag.bytes :=
    List.take_left' tag.length_bytes
  have hrest : (tag.bytes ++ ciphertext).drop tagLength = ciphertext :=
    List.drop_left' tag.length_bytes
  rw [unlock]
  simp only [htake, hdrop, htag, hrest, Block.ofBytes?_bytes]

/-- Bytes have the parts of a box, or are too short for them. -/
theorem exists_parts_or_unlock_eq_error (key : Block 32) (sealed : Bytes) :
    (∃ (nonce : Nonce) (tag : Block 16) (ciphertext : Bytes),
      sealed = nonce.bytes ++ (tag.bytes ++ ciphertext)) ∨
      unlock key sealed = .error .decryptionFailed := by
  rw [unlock]
  split
  · rename_i nonce tag hnonce htag
    refine .inl ⟨nonce, tag, (sealed.drop nonceLength).drop tagLength, ?_⟩
    rw [← Block.ofBytes?_eq_some_iff.mp hnonce, ← Block.ofBytes?_eq_some_iff.mp htag,
      List.take_append_drop, List.take_append_drop]
  · exact .inr rfl

/-- A box is opened to a message exactly if it is what sealing the message under
some nonce writes. -/
theorem unlock_eq_ok_iff {key : Block 32} {sealed message : Bytes} :
    unlock key sealed = .ok message ↔ ∃ nonce : Nonce, lock key nonce message = sealed := by
  constructor
  · intro h
    rcases exists_parts_or_unlock_eq_error key sealed with
      ⟨nonce, tag, ciphertext, rfl⟩ | herror
    · rw [unlock_append] at h
      split at h
      · rename_i htag
        exact ⟨nonce, lock_eq_append_iff.mpr ⟨htag, Except.ok.inj h⟩⟩
      · cases h
    · rw [herror] at h
      cases h
  · rintro ⟨nonce, rfl⟩
    obtain ⟨htag, hmessage⟩ := lock_eq_append_iff.mp (lock_eq key nonce message)
    rw [lock_eq, unlock_append, if_pos htag, hmessage]

theorem take_lock (key : Block 32) (nonce : Nonce) (message : Bytes) :
    (lock key nonce message).take nonceLength = nonce.bytes := by
  rw [lock_eq]
  exact List.take_left' nonce.length_bytes

end Box

end Keyring
