import Keyring.Proofs.Curve.Encoding
import Keyring.Proofs.Signature.Basic
import Keyring.Signature.Recovery
import Mathlib.Tactic.Module

/-!
Recovery and verification of signatures, as one equation of points.

A signature `(r, s)` relates a nonce point `R` and a public key `Q` over a digest
`e` when `s R = e G + r Q`. Verification asks whether some nonce point with the
right `x` is related to a given key; recovery asks which key is related to the
nonce point that an id chooses. Since the ids choose exactly the points with the
right `x`, a key verifies a low signature exactly when some id recovers it.
-/

namespace Keyring

open Curve
open scoped PrimeField

theorem Curve.Point.toAffine?_eq_some_iff {p : Point} {point : AffinePoint} :
    p.toAffine? = some point ↔ p = .affine point := by
  cases p <;> simp [Point.toAffine?]

namespace Signature

/-- What an id adds to `r` to make the `x` of the nonce point. -/
def idOffset (id : UInt8) : ℕ := if id &&& 2 = 0 then 0 else order

def idOdd (id : UInt8) : Bool := id &&& 1 = 1

structure ChoosesNonce (signature : Signature) (id : UInt8) (nonce : AffinePoint) : Prop where
  onCurve : nonce.OnCurve
  x_eq : nonce.x.val = signature.r.toNat + idOffset id
  isOdd_eq : nonce.y.isOdd = idOdd id

/-- The equation `s R = e G + r Q` between a nonce point and a key. -/
def Relates (signature : Signature) (digest : Digest) (R Q : CurveGroup) : Prop :=
  Scalar.ofBlock signature.s • R =
    Scalar.ofBlock digest • generatorElement + Scalar.ofBlock signature.r • Q

/-! ### The points that the ids choose -/

theorem and_one_eq (id : UInt8) : id &&& 1 = 0 ∨ id &&& 1 = 1 := by
  rw [← UInt8.toNat_inj, ← UInt8.toNat_inj, UInt8.toNat_and]
  simp only [UInt8.toNat_one, UInt8.toNat_zero, Nat.and_one_is_mod]
  omega

theorem tag_eq (id : UInt8) : 0x02 ||| (id &&& 1) = if idOdd id then 0x03 else 0x02 := by
  rcases and_one_eq id with h | h
  · rw [idOdd, h]
    rfl
  · rw [idOdd, h]
    rfl

theorem nonceCoordinate?_eq_some_iff {signature : Signature} {id : UInt8} {x : Block 32} :
    signature.nonceCoordinate? id = some x ↔
      x.toNat = signature.r.toNat + idOffset id ∧ x.toNat < fieldSize := by
  have hfits : ∀ y : Block 32,
      (if y.less fieldSizeBytes = true then some y else none) = some x ↔
      y = x ∧ x.toNat < fieldSize := by
    intro y
    rw [Option.ite_none_right_eq_some, Block.less_iff, toNat_fieldSizeBytes, Option.some.injEq]
    constructor
    · rintro ⟨hlt, rfl⟩
      exact ⟨rfl, hlt⟩
    · rintro ⟨rfl, hlt⟩
      exact ⟨hlt, rfl⟩
  rw [nonceCoordinate?, idOffset]
  split
  · rw [Option.bind_eq_bind, Option.bind_some, hfits, add_zero, Block.toNat_inj, eq_comm]
  · simp only [Option.bind_eq_bind, Option.bind_eq_some_iff, hfits, Block.add?_eq_some_iff,
      toNat_orderBytes]
    constructor
    · rintro ⟨_, hx, rfl, hlt⟩
      exact ⟨hx, hlt⟩
    · rintro ⟨hx, hlt⟩
      exact ⟨x, hx, rfl, hlt⟩

theorem nonce?_eq_some_iff {signature : Signature} {id : UInt8} {nonce : AffinePoint} :
    (signature.nonceCoordinate? id).bind (AffinePoint.ofCompressed? (0x02 ||| (id &&& 1))) =
      some nonce ↔ signature.ChoosesNonce id nonce := by
  simp only [Option.bind_eq_some_iff, nonceCoordinate?_eq_some_iff,
    AffinePoint.ofCompressed?_eq_some_iff (tag_eq id)]
  constructor
  · rintro ⟨x, ⟨hx, -⟩, hcurve, hval, hodd⟩
    exact ⟨hcurve, hval.trans hx, hodd⟩
  · rintro ⟨hcurve, hx, hodd⟩
    have hblock : nonce.x.toBlock.toNat = nonce.x.val := FieldElement.toNat_toBlock nonce.x
    exact ⟨nonce.x.toBlock, ⟨hblock.trans hx, hblock ▸ nonce.x.isLt⟩, hcurve,
      hblock.symm, hodd⟩

theorem ChoosesNonce.x_mod {signature : Signature} {id : UInt8} {nonce : AffinePoint}
    (h : signature.ChoosesNonce id nonce) (hr : signature.r.toNat < order) :
    nonce.x.val % order = signature.r.toNat := by
  rw [h.x_eq, idOffset]
  split
  · rw [add_zero, Nat.mod_eq_of_lt hr]
  · rw [Nat.add_mod_right, Nat.mod_eq_of_lt hr]

/-- Every point of the curve whose `x` is `r` modulo the order is chosen by an
id: a coordinate is below twice the order. -/
theorem exists_choosesNonce {signature : Signature} {nonce : AffinePoint}
    (hcurve : nonce.OnCurve) (hx : nonce.x.val % order = signature.r.toNat) :
    ∃ id ≤ RecoverableSignature.maxId, signature.ChoosesNonce id nonce := by
  have htop : nonce.x.val < 2 * order := nonce.x.isLt.trans (by decide)
  have hoffset : nonce.x.val =
      signature.r.toNat + if order ≤ nonce.x.val then order else 0 := by
    split
    · rename_i h
      rw [← hx, Nat.mod_eq_sub_mod h, Nat.mod_eq_of_lt (by omega)]
      omega
    · rename_i h
      rw [← hx, Nat.mod_eq_of_lt (not_le.mp h), add_zero]
  -- Each choice of an offset and a parity is made by one of the four ids.
  have hid : ∀ upper odd : Bool, ∃ id ≤ RecoverableSignature.maxId,
      idOffset id = (if upper then order else 0) ∧ idOdd id = odd := by
    intro upper odd
    cases upper <;> cases odd
    · exact ⟨0, by decide, by decide, by decide⟩
    · exact ⟨1, by decide, by decide, by decide⟩
    · exact ⟨2, by decide, by decide, by decide⟩
    · exact ⟨3, by decide, by decide, by decide⟩
  obtain ⟨id, hle, hadd, hodd⟩ := hid (decide (order ≤ nonce.x.val)) nonce.y.isOdd
  refine ⟨id, hle, hcurve, ?_, hodd.symm⟩
  rw [hadd]
  simpa using hoffset

/-! ### Recovery -/

/-- The key that the equation gives for a nonce point: `r⁻¹ (s R - e G)`. -/
noncomputable def solution (signature : Signature) (digest : Digest) (R : CurveGroup) :
    CurveGroup :=
  (Scalar.ofBlock signature.r)⁻¹ •
    (Scalar.ofBlock signature.s • R - Scalar.ofBlock digest • generatorElement)

theorem relates_iff {signature : Signature} {digest : Digest} {R Q : CurveGroup}
    (h : signature.isInRange = true) :
    signature.Relates digest R Q ↔ signature.solution digest R = Q := by
  rw [Relates, solution, inv_smul_eq_iff₀ (r_ne_zero h), sub_eq_iff_eq_add']

theorem recover?_of_choosesNonce {signature : Signature} {id : UInt8} {digest : Digest}
    {nonce : AffinePoint} {R : CurveGroup} (hid : id ≤ RecoverableSignature.maxId)
    (hrange : signature.isInRange = true) (hnonce : signature.ChoosesNonce id nonce)
    (hR : Point.ofGroup R = .affine nonce) :
    signature.recover? id digest =
      (Point.ofGroup (signature.solution digest R)).toAffine? := by
  have hr := r_ne_zero hrange
  have hs := s_ne_zero hrange
  have husable := Bool.and_eq_true_iff.mp hrange
  have hbranch : ¬(RecoverableSignature.maxId < id || !signature.isInRange) = true := by
    simpa [hrange] using hid
  obtain ⟨x, hx, hpoint⟩ := Option.bind_eq_some_iff.mp (nonce?_eq_some_iff.mpr hnonce)
  rw [recover?, if_neg hbranch]
  simp only [Option.bind_eq_bind, hx, hpoint, Option.bind_some,
    Scalar.ofBlock?_of_isUsable husable.1, Scalar.ofBlock?_of_isUsable husable.2,
    Scalar.invert?_of_ne_zero hr, Scalar.multiply?_of_ne_zero hs (inv_ne_zero hr),
    Scalar.reduce_eq_zero_iff, ← hR, Point.multiple_ofGroup, val_smul]
  -- A digest that is zero modulo the order leaves no term for the generator.
  split
  · rename_i he
    rw [solution, he, zero_smul, sub_zero, smul_smul, mul_comm]
  · rename_i he
    have hsum : (Scalar.ofBlock signature.s * (Scalar.ofBlock signature.r)⁻¹) • R +
        (-Scalar.ofBlock digest * (Scalar.ofBlock signature.r)⁻¹) • generatorElement =
          signature.solution digest R := by
      rw [solution]
      module
    rw [Scalar.ofBlock?_reduce he, Option.bind_some,
      Scalar.multiply?_of_ne_zero (neg_ne_zero.mpr he) (inv_ne_zero hr), Option.bind_some,
      generatorMultiple_eq, val_smul, Point.add_ofGroup, hsum]

/-- Nothing is recovered but under a valid id, from scalars in range and from a
nonce point that the id chooses. -/
theorem exists_of_recover?_eq_some {signature : Signature} {id : UInt8} {digest : Digest}
    {key : AffinePoint} (h : signature.recover? id digest = some key) :
    id ≤ RecoverableSignature.maxId ∧ signature.isInRange = true ∧
      ∃ nonce, signature.ChoosesNonce id nonce := by
  rw [recover?] at h
  split at h
  · cases h
  · rename_i hbranch
    simp only [Bool.or_eq_true, decide_eq_true_eq, not_or, Bool.not_eq_true',
      Bool.not_eq_false] at hbranch
    obtain ⟨x, hx, hrest⟩ := Option.bind_eq_some_iff.mp h
    obtain ⟨nonce, hnonce, -⟩ := Option.bind_eq_some_iff.mp hrest
    exact ⟨UInt8.not_lt.mp hbranch.1, hbranch.2, nonce,
      nonce?_eq_some_iff.mp (Option.bind_eq_some_iff.mpr ⟨x, hx, hnonce⟩)⟩

theorem recover?_eq_some_iff {signature : Signature} {id : UInt8} {digest : Digest}
    {key : AffinePoint} {Q : CurveGroup} (hQ : Point.ofGroup Q = .affine key) :
    signature.recover? id digest = some key ↔
      id ≤ RecoverableSignature.maxId ∧ signature.isInRange = true ∧
        ∃ R nonce, Point.ofGroup R = .affine nonce ∧ signature.ChoosesNonce id nonce ∧
          signature.Relates digest R Q := by
  constructor
  · intro h
    obtain ⟨hid, hrange, nonce, hnonce⟩ := exists_of_recover?_eq_some h
    obtain ⟨R, hR⟩ := Point.exists_ofGroup_eq_affine.mpr hnonce.onCurve
    rw [recover?_of_choosesNonce hid hrange hnonce hR, Point.toAffine?_eq_some_iff, ← hQ,
      Point.ofGroup_inj] at h
    exact ⟨hid, hrange, R, nonce, hR, hnonce, (relates_iff hrange).mpr h⟩
  · rintro ⟨hid, hrange, R, nonce, hR, hnonce, hrelates⟩
    rw [recover?_of_choosesNonce hid hrange hnonce hR, (relates_iff hrange).mp hrelates, hQ]
    rfl

/-- A recovered key is a point of the curve. -/
theorem onCurve_of_recover? {signature : Signature} {id : UInt8} {digest : Digest}
    {key : AffinePoint} (h : signature.recover? id digest = some key) : key.OnCurve := by
  obtain ⟨hid, hrange, nonce, hnonce⟩ := exists_of_recover?_eq_some h
  obtain ⟨R, hR⟩ := Point.exists_ofGroup_eq_affine.mpr hnonce.onCurve
  rw [recover?_of_choosesNonce hid hrange hnonce hR, Point.toAffine?_eq_some_iff] at h
  exact Point.exists_ofGroup_eq_affine.mp ⟨_, h⟩

/-! ### Verification -/

/-- The point that verification computes, by the inverse of `s`, is the only nonce point that
the equation allows. -/
theorem relates_iff_nonce_eq {signature : Signature} {digest : Digest} {R Q : CurveGroup}
    {w : Scalar} (h : signature.isInRange = true) (hw : (Scalar.ofBlock signature.s)⁻¹ = w) :
    signature.Relates digest R Q ↔
      (Scalar.ofBlock digest * w) • generatorElement + (Scalar.ofBlock signature.r * w) • Q =
        R := by
  rw [Relates, eq_comm, ← inv_smul_eq_iff₀ (s_ne_zero h), smul_add, smul_smul, smul_smul, hw,
    mul_comm w, mul_comm w]

theorem ofNat_eq_ofBlock_r_iff {signature : Signature} (h : signature.isInRange = true)
    (x : FieldElement) :
    Fin.ofNat order x.val = Scalar.ofBlock signature.r ↔
      x.val % order = signature.r.toNat := by
  rw [Fin.ext_iff, Scalar.val_ofBlock_of_lt (isInRange_iff.mp h).1.2, Fin.val_ofNat]

theorem verifies_iff {signature : Signature} {digest : Digest} {key : AffinePoint}
    {Q : CurveGroup} (hQ : Point.ofGroup Q = .affine key) :
    signature.verifies key digest = true ↔
      signature.isInRange = true ∧ signature.isLow = true ∧
        ∃ R nonce, Point.ofGroup R = .affine nonce ∧
          nonce.x.val % order = signature.r.toNat ∧ signature.Relates digest R Q := by
  rw [verifies]
  split
  · rename_i hchecks
    rw [Bool.and_eq_true] at hchecks
    obtain ⟨hrange, hlow⟩ := hchecks
    -- `s` is not zero, so it has an inverse and only that branch is left.
    have hs := s_ne_zero hrange
    split
    · rename_i hnone
      rw [Scalar.invert?_of_ne_zero hs] at hnone
      cases hnone
    · rename_i w hw
      rw [Scalar.invert?_of_ne_zero hs, Option.some.injEq] at hw
      simp only [generatorMultiple_eq, ← hQ, Point.multiple_ofGroup, val_smul,
        Point.add_ofGroup, hrange, hlow, true_and, relates_iff_nonce_eq hrange hw]
      split
      · rename_i hinfinity
        simp [hinfinity]
      · rename_i nonce hnonce
        rw [decide_eq_true_eq, ofNat_eq_ofBlock_r_iff hrange]
        constructor
        · intro h
          exact ⟨_, nonce, hnonce, h, rfl⟩
        · rintro ⟨_, nonce', hnonce', h, rfl⟩
          rw [hnonce, Point.affine.injEq] at hnonce'
          rwa [hnonce']
  · rename_i hchecks
    simp only [Bool.false_eq_true, false_iff]
    rintro ⟨hrange, hlow, -⟩
    exact hchecks (by rw [hrange, hlow]; rfl)

/-- A key of the curve verifies a low signature exactly when an id recovers it. -/
theorem verifies_iff_exists_recover? {signature : Signature} {digest : Digest}
    {key : AffinePoint} (hkey : key.OnCurve) :
    signature.verifies key digest = true ↔
      signature.isLow = true ∧ ∃ id, signature.recover? id digest = some key := by
  obtain ⟨Q, hQ⟩ := Point.exists_ofGroup_eq_affine.mpr hkey
  rw [verifies_iff hQ]
  constructor
  · rintro ⟨hrange, hlow, R, nonce, hR, hx, hrelates⟩
    have hcurve : nonce.OnCurve := Point.exists_ofGroup_eq_affine.mp ⟨R, hR⟩
    obtain ⟨id, hid, hnonce⟩ := exists_choosesNonce hcurve hx
    exact ⟨hlow, id, (recover?_eq_some_iff hQ).mpr
      ⟨hid, hrange, R, nonce, hR, hnonce, hrelates⟩⟩
  · rintro ⟨hlow, id, hrecover⟩
    obtain ⟨-, hrange, R, nonce, hR, hnonce, hrelates⟩ := (recover?_eq_some_iff hQ).mp hrecover
    exact ⟨hrange, hlow, R, nonce, hR, hnonce.x_mod (isInRange_iff.mp hrange).1.2, hrelates⟩

theorem recover?_eq_none_of_not_isInRange {signature : Signature} (digest : Digest)
    (h : ¬signature.isInRange = true) (id : UInt8) : signature.recover? id digest = none := by
  rw [Option.eq_none_iff_forall_ne_some]
  intro key hrecover
  exact h (exists_of_recover?_eq_some hrecover).2.1

/-- Recovery and verification agree. The keys of the curve that verify a
signature are those that some id recovers, if the signature is low; what is
recovered from a low signature verifies it; and a scalar out of range leaves
nothing to verify or to recover. -/
theorem verification_agrees_with_recovery (signature : Signature) (digest : Digest) :
    (∀ key : AffinePoint, key.OnCurve →
      (signature.verifies key digest = true ↔
        signature.isLow = true ∧ ∃ id, signature.recover? id digest = some key)) ∧
    (∀ id key, signature.isLow = true → signature.recover? id digest = some key →
      key.OnCurve ∧ signature.verifies key digest = true) ∧
    (signature.r.toNat = 0 ∨ order ≤ signature.r.toNat ∨
        signature.s.toNat = 0 ∨ order ≤ signature.s.toNat →
      (∀ key, signature.verifies key digest = false) ∧
        ∀ id, signature.recover? id digest = none) := by
  refine ⟨fun key hkey => verifies_iff_exists_recover? hkey, ?_, ?_⟩
  · intro id key hlow hrecover
    have hkey := onCurve_of_recover? hrecover
    exact ⟨hkey, (verifies_iff_exists_recover? hkey).mpr ⟨hlow, id, hrecover⟩⟩
  · intro hscalar
    have hrange : ¬signature.isInRange = true := by
      rw [isInRange_iff]
      omega
    refine ⟨?_, recover?_eq_none_of_not_isInRange digest hrange⟩
    intro key
    rw [verifies, if_neg (by simp [hrange])]

/-- The `x` of the generator twice is a signature of the digest zero under the
generator, the nonce and the secret both being one; two zeros are no signature. -/
theorem verification_agrees_with_recovery_generator :
    (⟨generator.x.toBlock, generator.x.toBlock⟩ : Signature).verifies generator
        (Block.zero 32) = true ∧
      (⟨Block.zero 32, Block.zero 32⟩ : Signature).verifies generator (Block.zero 32) =
        false := by
  have hrange : (⟨generator.x.toBlock, generator.x.toBlock⟩ : Signature).isInRange = true := by
    decide
  have hlow : (⟨generator.x.toBlock, generator.x.toBlock⟩ : Signature).isLow = true := by
    decide
  have hchooses :
      (⟨generator.x.toBlock, generator.x.toBlock⟩ : Signature).ChoosesNonce 0 generator :=
    ⟨by decide, by decide, by decide⟩
  have hrelates : (⟨generator.x.toBlock, generator.x.toBlock⟩ : Signature).Relates
      (Block.zero 32) generatorElement generatorElement := by
    have hzero : Scalar.ofBlock (Block.zero 32) = 0 := by decide
    rw [Relates, hzero, zero_smul, zero_add]
  have hrecover := (recover?_eq_some_iff ofGroup_generatorElement).mpr ⟨by decide, hrange,
    generatorElement, generator, ofGroup_generatorElement, hchooses, hrelates⟩
  constructor
  · exact ((verification_agrees_with_recovery _ _).1 generator (by decide)).mpr
      ⟨hlow, 0, hrecover⟩
  · exact ((verification_agrees_with_recovery _ _).2.2 (.inl (by decide))).1 generator

end Signature

end Keyring
