import Keyring.Proofs.Signature.Recovery

/-!
The id of a signature: there is at most one for a key, and it turns with the sign of `s`.

The equation `s R = e G + r Q` leaves one nonce point for a key, and an id can be read off the
nonce point: `x` tells its upper bit, and the parity of `y` its lower one. With `-s` in the
place of `s` the equation holds of the opposite point, which has the same `x` and the other
parity, since no point of the curve is its own opposite.
-/

namespace Keyring

open Curve
open scoped PrimeField

namespace Signature

variable {signature other : Signature} {digest : Digest} {id : UInt8}

structure IsOpposite (signature other : Signature) : Prop where
  r_eq : other.r = signature.r
  s_eq : other.s.toNat = order - signature.s.toNat

/-! ### The bits of an id -/

theorem eq_of_le_maxId (h : id ≤ RecoverableSignature.maxId) :
    id = 0 ∨ id = 1 ∨ id = 2 ∨ id = 3 := by
  have hle : id.toNat ≤ 3 := UInt8.le_iff_toNat_le.mp h
  simp only [← UInt8.toNat_inj, UInt8.reduceToNat]
  omega

/-- An id is known by the offset that it asks for and by the parity. -/
theorem id_eq (h : id ≤ RecoverableSignature.maxId) :
    id = (if idOffset id = 0 then 0 else 2) + if idOdd id then 1 else 0 := by
  rcases eq_of_le_maxId h with rfl | rfl | rfl | rfl <;> decide

theorem flip_le (h : id ≤ RecoverableSignature.maxId) :
    id ^^^ 1 ≤ RecoverableSignature.maxId := by
  rcases eq_of_le_maxId h with rfl | rfl | rfl | rfl <;> decide

theorem flip_flip (id : UInt8) : id ^^^ 1 ^^^ 1 = id := by
  rw [UInt8.xor_assoc, UInt8.xor_self, UInt8.xor_zero]

theorem idOffset_flip (h : id ≤ RecoverableSignature.maxId) :
    idOffset (id ^^^ 1) = idOffset id := by
  rcases eq_of_le_maxId h with rfl | rfl | rfl | rfl <;> rfl

theorem idOdd_flip (h : id ≤ RecoverableSignature.maxId) : idOdd (id ^^^ 1) = !idOdd id := by
  rcases eq_of_le_maxId h with rfl | rfl | rfl | rfl <;> rfl

/-! ### One id for a key -/

theorem ChoosesNonce.id_unique {id' : UInt8} {nonce : AffinePoint}
    (h : signature.ChoosesNonce id nonce) (h' : signature.ChoosesNonce id' nonce)
    (hid : id ≤ RecoverableSignature.maxId) (hid' : id' ≤ RecoverableSignature.maxId) :
    id = id' := by
  have hoffset : idOffset id = idOffset id' :=
    Nat.add_left_cancel (h.x_eq.symm.trans h'.x_eq)
  have hodd : idOdd id = idOdd id' := h.isOdd_eq.symm.trans h'.isOdd_eq
  rw [id_eq hid, id_eq hid', hoffset, hodd]

theorem recover?_id_unique {id' : UInt8} {key : AffinePoint}
    (h : signature.recover? id digest = some key)
    (h' : signature.recover? id' digest = some key) : id = id' := by
  obtain ⟨Q, hQ⟩ := Point.exists_ofGroup_eq_affine.mpr (onCurve_of_recover? h)
  obtain ⟨hid, hrange, R, nonce, hR, hnonce, hrelates⟩ := (recover?_eq_some_iff hQ).mp h
  obtain ⟨hid', -, R', nonce', hR', hnonce', hrelates'⟩ := (recover?_eq_some_iff hQ).mp h'
  have hpoint : R = R' := by
    apply smul_right_injective CurveGroup (s_ne_zero hrange)
    exact hrelates.trans hrelates'.symm
  have hsame : nonce = nonce' := by
    apply Point.affine.inj
    rw [← hR, ← hR', hpoint]
  exact hnonce.id_unique (hsame ▸ hnonce') hid hid'

/-- The id that is found for a key is the one that recovers to it. -/
theorem recoveryId_eq_ok_iff {key : AffinePoint} :
    signature.recoveryId key digest = .ok id ↔ signature.recover? id digest = some key := by
  rw [recoveryId]
  constructor
  · intro h
    split at h
    · rename_i found hfound
      cases h
      simpa using List.find?_some hfound
    · cases h
  · intro h
    obtain ⟨hid, -⟩ := exists_of_recover?_eq_some h
    have hmem : id ∈ ([0, 1, 2, 3] : List UInt8) := by simpa using eq_of_le_maxId hid
    cases hfound : ([0, 1, 2, 3] : List UInt8).find?
        (fun id => signature.recover? id digest = some key) with
    | none => exact absurd h (by simpa using List.find?_eq_none.mp hfound id hmem)
    | some found =>
        have hkey : signature.recover? found digest = some key := by
          simpa using List.find?_some hfound
        rw [recover?_id_unique h hkey]

/-! ### The opposite signature -/

namespace IsOpposite

theorem isInRange (h : signature.IsOpposite other) (hrange : signature.isInRange = true) :
    other.isInRange = true := by
  rw [isInRange_iff] at hrange ⊢
  rw [h.r_eq, h.s_eq]
  omega

theorem symm (h : signature.IsOpposite other) (hrange : signature.isInRange = true) :
    other.IsOpposite signature where
  r_eq := h.r_eq.symm
  s_eq := by
    rw [isInRange_iff] at hrange
    rw [h.s_eq]
    omega

theorem ofBlock_s (h : signature.IsOpposite other) (hrange : signature.isInRange = true) :
    Scalar.ofBlock other.s = -Scalar.ofBlock signature.s := by
  have hother := (isInRange_iff.mp (h.isInRange hrange)).2.2
  have hs := (isInRange_iff.mp hrange).2.2
  apply Fin.ext
  rw [Fin.val_neg', Scalar.val_ofBlock_of_lt hother, Scalar.val_ofBlock_of_lt hs, ← h.s_eq,
    Nat.mod_eq_of_lt hother]

/-- Opposite signatures give one key for opposite nonce points. -/
theorem solution_neg (h : signature.IsOpposite other) (hrange : signature.isInRange = true)
    (R : CurveGroup) : other.solution digest (-R) = signature.solution digest R := by
  rw [solution, solution, h.ofBlock_s hrange, h.r_eq, neg_smul, smul_neg, neg_neg]

theorem choosesNonce (h : signature.IsOpposite other) {nonce : AffinePoint}
    (hid : id ≤ RecoverableSignature.maxId) (hnonce : signature.ChoosesNonce id nonce) :
    other.ChoosesNonce (id ^^^ 1) ⟨nonce.x, -nonce.y⟩ where
  onCurve := by
    show -nonce.y * -nonce.y = rightSide nonce.x
    rw [neg_mul_neg]
    exact hnonce.onCurve
  x_eq := by
    rw [idOffset_flip hid, h.r_eq]
    exact hnonce.x_eq
  isOdd_eq := by
    rw [idOdd_flip hid, ← hnonce.isOdd_eq]
    exact FieldElement.isOdd_neg (AffinePoint.y_ne_zero hnonce.onCurve)

theorem recover?_flip_of_some (h : signature.IsOpposite other) {key : AffinePoint}
    (hrecover : signature.recover? id digest = some key) :
    other.recover? (id ^^^ 1) digest = some key := by
  obtain ⟨hid, hrange, nonce, hnonce⟩ := exists_of_recover?_eq_some hrecover
  obtain ⟨R, hR⟩ := Point.exists_ofGroup_eq_affine.mpr hnonce.onCurve
  rw [recover?_of_choosesNonce hid hrange hnonce hR] at hrecover
  rw [recover?_of_choosesNonce (flip_le hid) (h.isInRange hrange) (h.choosesNonce hid hnonce)
    (Point.ofGroup_neg hR), h.solution_neg hrange]
  exact hrecover

/-- What an id recovers from a signature, the id with the other parity recovers from the
opposite one. -/
theorem recover?_flip (h : signature.IsOpposite other) (hrange : signature.isInRange = true) :
    signature.recover? id digest = other.recover? (id ^^^ 1) digest := by
  ext key
  constructor
  · exact h.recover?_flip_of_some
  · intro hother
    have hback := (h.symm hrange).recover?_flip_of_some hother
    rw [flip_flip] at hback
    exact hback

end IsOpposite

/-- There is at most one id under which a signature recovers to a key, that of the signer or
any other, and this is the one that is found. It is found for a signature exactly if the id
with the other parity is found for the opposite signature: every id recovers from the one what
its counterpart recovers from the other. -/
theorem recoveryId_is_unique_and_follows_negation
    (hr : 0 < signature.r.toNat ∧ signature.r.toNat < order)
    (hs : 0 < signature.s.toNat ∧ signature.s.toNat < order)
    (hopposite : signature.IsOpposite other) (digest : Digest) :
    (∀ (key : AffinePoint) (id id' : UInt8), signature.recover? id digest = some key →
      signature.recover? id' digest = some key → id = id') ∧
    (∀ (key : AffinePoint) (id : UInt8), signature.recoveryId key digest = .ok id ↔
      signature.recover? id digest = some key) ∧
    (∀ (key : AffinePoint) (id : UInt8), signature.recoveryId key digest = .ok id ↔
      other.recoveryId key digest = .ok (id ^^^ 1)) ∧
    ∀ id : UInt8, signature.recover? id digest = other.recover? (id ^^^ 1) digest := by
  have hrange : signature.isInRange = true := isInRange_iff.mpr ⟨hr, hs⟩
  refine ⟨?_, ?_, ?_, ?_⟩
  · intro key id id' h h'
    exact recover?_id_unique h h'
  · intro key id
    exact recoveryId_eq_ok_iff
  · intro key id
    rw [recoveryId_eq_ok_iff, recoveryId_eq_ok_iff, hopposite.recover?_flip hrange]
  · intro id
    exact hopposite.recover?_flip hrange

def generatorSignature : Signature :=
  ⟨generator.x.toBlock, generator.x.toBlock⟩

def generatorOpposite : Signature :=
  ⟨generator.x.toBlock, Block.ofNat 32 (order - generator.x.val)⟩

theorem recover?_generatorSignature :
    generatorSignature.recover? 0 (Block.zero 32) = some generator := by
  have hchooses : generatorSignature.ChoosesNonce 0 generator :=
    ⟨by decide, by decide, by decide⟩
  have hrelates :
      generatorSignature.Relates (Block.zero 32) generatorElement generatorElement := by
    have hzero : Scalar.ofBlock (Block.zero 32) = 0 := by decide
    rw [Relates, hzero, zero_smul, zero_add, generatorSignature]
  rw [recover?_eq_some_iff ofGroup_generatorElement]
  exact ⟨by decide, by decide, generatorElement, generator, ofGroup_generatorElement, hchooses,
    hrelates⟩

theorem recoveryId_is_unique_and_follows_negation_generator :
    generatorSignature.recoveryId generator (Block.zero 32) = .ok 0 ∧
      generatorOpposite.recoveryId generator (Block.zero 32) = .ok 1 := by
  have hopposite : generatorSignature.IsOpposite generatorOpposite := ⟨rfl, by decide⟩
  obtain ⟨-, hfound, hflip, -⟩ := recoveryId_is_unique_and_follows_negation
    (by decide) (by decide) hopposite (Block.zero 32)
  have hid := (hfound generator 0).mpr recover?_generatorSignature
  exact ⟨hid, (hflip generator 0).mp hid⟩

end Signature

end Keyring
