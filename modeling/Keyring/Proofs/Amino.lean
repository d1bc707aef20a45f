import Keyring.Amino
import Keyring.Proofs.Bytes.Value
import Keyring.Proofs.Outcome

/-!
Type prefixes are taken off exactly where they were put on.

A prefix states the tag of a type and the length of the body. Taking it off refuses a wrong
length first, then a length that no prefix can state, then any other prefix, and never slices
the bytes out of bounds. The length of a prefix and a body is a sum of words. It wraps only for
lengths that no prefix can state, so what is accepted does not depend on that.
-/

namespace Keyring.Amino

theorem addPrefix_eq_ok_iff {typeName : String} {body bytes : Bytes} :
    addPrefix typeName body = .ok bytes ↔
      ∃ front, prefixFor typeName body.length = .ok front ∧ bytes = front.bytes ++ body := by
  refine bind_eq_ok_iff.trans (exists_congr fun front => and_congr_right fun _ => ?_)
  exact ⟨fun h => (Except.ok.inj h).symm, fun h => congrArg Except.ok h.symm⟩

def prefixedLength (bodyLength : Size) : Size := prefixLength + bodyLength

theorem toNat_prefixedLength_of_lt {bodyLength : Size}
    (h : prefixLength + bodyLength.toNat < 2 ^ 64) :
    (prefixedLength bodyLength).toNat = prefixLength + bodyLength.toNat := by
  rw [prefixedLength, UInt64.toNat_add]
  exact Nat.mod_eq_of_lt h

/-- A length that a prefix can state is far from those for which the sum wraps. -/
theorem toNat_prefixedLength {bodyLength : Size} (h : bodyLength.toNat ≤ maxBodyLength) :
    (prefixedLength bodyLength).toNat = prefixLength + bodyLength.toNat := by
  apply toNat_prefixedLength_of_lt
  calc prefixLength + bodyLength.toNat ≤ prefixLength + maxBodyLength := by omega
    _ < 2 ^ 64 := by decide

theorem stripPrefix_of_length_ne {typeName : String} {bytes : Bytes} {bodyLength : Size}
    (h : bytes.length ≠ (prefixedLength bodyLength).toNat) :
    stripPrefix typeName bytes bodyLength = .error (.wrongLength .prefixedBody bytes.length) :=
  if_pos h

theorem stripPrefix_of_length_eq {typeName : String} {bytes : Bytes} {bodyLength : Size}
    (h : bytes.length = (prefixedLength bodyLength).toNat) :
    stripPrefix typeName bytes bodyLength =
      prefixFor typeName bodyLength.toNat >>= fun expected =>
        if bytes.take prefixLength ≠ expected.bytes then .error .wrongTypePrefix
        else .ok (bytes.drop prefixLength) :=
  if_neg (not_not.mpr h)

theorem prefixFor_of_lt {typeName : String} {bodyLength : ℕ} (h : maxBodyLength < bodyLength) :
    prefixFor typeName bodyLength = .error (.bodyTooLong bodyLength) :=
  if_pos h

theorem prefixFor_of_le {typeName : String} {bodyLength : ℕ} (h : bodyLength ≤ maxBodyLength) :
    prefixFor typeName bodyLength = typeTag typeName >>= fun tag =>
      .ok (tag.append (Block.ofNat 1 bodyLength)) :=
  if_neg (not_lt.mpr h)

theorem prefixFor_eq_ok_iff {typeName : String} {bodyLength : ℕ} {front : Block prefixLength} :
    prefixFor typeName bodyLength = .ok front ↔
      bodyLength ≤ maxBodyLength ∧ ∃ tag, typeTag typeName = .ok tag ∧
        tag.append (Block.ofNat 1 bodyLength) = front := by
  by_cases hlength : bodyLength ≤ maxBodyLength
  · rw [prefixFor_of_le hlength, iff_true_intro hlength, true_and]
    refine bind_eq_ok_iff.trans (exists_congr fun tag => and_congr_right fun _ => ?_)
    exact ⟨Except.ok.inj, congrArg Except.ok⟩
  · rw [prefixFor_of_lt (not_le.mp hlength)]
    simp [hlength]

theorem prefixFor_eq_ok {typeName : String} {bodyLength : ℕ} {tag : Block tagLength}
    (htag : typeTag typeName = .ok tag) (h : bodyLength ≤ maxBodyLength) :
    prefixFor typeName bodyLength = .ok (tag.append (Block.ofNat 1 bodyLength)) :=
  prefixFor_eq_ok_iff.mpr ⟨h, tag, htag, rfl⟩

/-- What a prefix of a type is taken off from is what adding it to a body of the
given length writes. -/
theorem stripPrefix_eq_ok_iff {typeName : String} {bytes body : Bytes} {bodyLength : Size} :
    stripPrefix typeName bytes bodyLength = .ok body ↔
      body.length = bodyLength.toNat ∧ addPrefix typeName body = .ok bytes := by
  rw [addPrefix_eq_ok_iff]
  constructor
  · intro h
    have hlength : bytes.length = (prefixedLength bodyLength).toNat := by
      by_contra hne
      rw [stripPrefix_of_length_ne hne] at h
      cases h
    rw [stripPrefix_of_length_eq hlength, bind_eq_ok_iff] at h
    obtain ⟨front, hfront, hcut⟩ := h
    split at hcut
    · cases hcut
    · rename_i htake
      rw [not_not] at htake
      obtain rfl := Except.ok.inj hcut
      have hbody : (bytes.drop prefixLength).length = bodyLength.toNat := by
        rw [List.length_drop, hlength, toNat_prefixedLength (prefixFor_eq_ok_iff.mp hfront).1,
          Nat.add_sub_cancel_left]
      refine ⟨hbody, front, ?_, ?_⟩
      · rw [hbody, hfront]
      · rw [← htake, List.take_append_drop]
  · rintro ⟨hbody, front, hfront, rfl⟩
    rw [hbody] at hfront
    have hlength : (front.bytes ++ body).length = (prefixedLength bodyLength).toNat := by
      rw [toNat_prefixedLength (prefixFor_eq_ok_iff.mp hfront).1, List.length_append,
        front.length_bytes, hbody]
    rw [stripPrefix_of_length_eq hlength, bind_eq_ok_iff]
    refine ⟨front, hfront, ?_⟩
    rw [if_neg (not_not.mpr (List.take_left' front.length_bytes)),
      List.drop_left' front.length_bytes]

/-- The tag of private keys. -/
theorem typeTag_privateKeyType :
    typeTag privateKeyType = .ok ⟨[0xe1, 0xb0, 0xf7, 0x9b], rfl⟩ := by
  decide +kernel

/-- The tag of public keys. -/
theorem typeTag_publicKeyType :
    typeTag publicKeyType = .ok ⟨[0xeb, 0x5a, 0xe9, 0x87], rfl⟩ := by
  decide +kernel

/-! ### What is refused, and in which order -/

section Refused

variable {typeName : String} {tag : Block tagLength} {bytes : Bytes} {bodyLength : Size}

/-- The bytes between two places, none if the places are out of order or out of bounds. -/
def slice? (bytes : Bytes) (start stop : ℕ) : Option Bytes :=
  if start ≤ stop ∧ stop ≤ bytes.length then some ((bytes.drop start).take (stop - start))
  else none

end Refused

end Keyring.Amino
