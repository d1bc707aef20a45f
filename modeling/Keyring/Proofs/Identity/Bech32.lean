import Keyring.Identity.Address
import Keyring.Proofs.Amino
import Keyring.Proofs.Bech32.Basic

/-!
The bech32 text of an address or of a public key stands for nothing else.

The prefix of the text says which of the two it is and in which role, once the
base prefix is known. It does not say where the base prefix ends, so two base
prefixes may read a text as two roles; but the payload of a key is longer than that
of an address, whatever the base prefixes are.
-/

namespace Keyring

open Text Curve

/-! ### Prefixes -/

theorem afterFront?_eq_some_iff {front text rest : String} :
    afterFront? front text = some rest ↔ text = front ++ rest := by
  rw [afterFront?, ← String.toList_inj, String.toList_append]
  split
  · rename_i hfront
    rw [Option.some.injEq, ← String.toList_inj, String.toList_ofList, ← String.length_toList]
    rw [List.prefix_iff_eq_append] at hfront
    conv_rhs => rw [← hfront, List.append_cancel_left_eq]
  · rename_i hfront
    simp only [reduceCtorEq, false_iff]
    intro htext
    exact hfront (htext ▸ List.prefix_append _ _)

theorem beforeEnd?_eq_some_iff {back text rest : String} :
    beforeEnd? back text = some rest ↔ text = rest ++ back := by
  rw [beforeEnd?, ← String.toList_inj, String.toList_append]
  split
  · rename_i hback
    rw [Option.some.injEq, ← String.toList_inj, String.toList_ofList, ← String.length_toList,
      ← String.length_toList]
    rw [List.suffix_iff_eq_append] at hback
    conv_rhs => rw [← hback, List.append_cancel_right_eq]
  · rename_i hback
    simp only [reduceCtorEq, false_iff]
    intro htext
    exact hback (htext ▸ List.suffix_append _ _)

theorem Role.ofSuffix?_eq_some_iff {suffix : String} {role : Role} :
    ofSuffix? suffix = some role ↔ suffix = role.suffix := by
  constructor
  · intro h
    simpa [eq_comm] using List.find?_some h
  · rintro rfl
    cases role <;> decide

theorem Address.roleOfPrefix?_eq_some_iff {base hrp : String} {role : Role} :
    roleOfPrefix? base hrp = some role ↔ hrp = role.hrp base := by
  simp only [roleOfPrefix?, Option.bind_eq_bind, Option.bind_eq_some_iff,
    afterFront?_eq_some_iff, Role.ofSuffix?_eq_some_iff, Role.hrp, exists_eq_right]

theorem PublicKey.roleOfPrefix?_eq_some_iff {base hrp : String} {role : Role} :
    roleOfPrefix? base hrp = some role ↔ hrp = role.hrp base ++ publicKeySuffix := by
  simp only [roleOfPrefix?, Option.bind_eq_bind, Option.bind_eq_some_iff,
    afterFront?_eq_some_iff, beforeEnd?_eq_some_iff, Role.ofSuffix?_eq_some_iff, Role.hrp,
    exists_eq_right, String.append_assoc]

/-! ### Addresses -/

namespace Address

variable {base text : String}

theorem ofBody_eq_ok_iff {role : Role} {bytes : Bytes} {address : Address} :
    ofBody role bytes = .ok address ↔
      ∃ body : Block addressLength, address = assigned role body ∧ bytes = body.bytes := by
  simp only [← Block.ofBytes?_eq_some_iff]
  rw [ofBody]
  cases Block.ofBytes? addressLength bytes with
  | none => simp
  | some body => simp [eq_comm]

theorem ofBech32_eq_ok_iff {address : Address} :
    ofBech32 base text = .ok address ↔
      ∃ role body, address = assigned role body ∧
        Bech32.decode text = .ok (role.hrp base, body.bytes) := by
  rw [ofBech32, bind_eq_ok_iff]
  constructor
  · rintro ⟨⟨hrp, data⟩, hdecode, h⟩
    simp only at h
    split at h
    · cases h
    · rename_i role hrole
      rw [roleOfPrefix?_eq_some_iff] at hrole
      obtain ⟨body, rfl, rfl⟩ := ofBody_eq_ok_iff.mp h
      exact ⟨role, body, rfl, hrole ▸ hdecode⟩
  · rintro ⟨role, body, rfl, hdecode⟩
    refine ⟨_, hdecode, ?_⟩
    simp only [roleOfPrefix?_eq_some_iff.mpr rfl]
    exact ofBody_eq_ok_iff.mpr ⟨body, rfl, rfl⟩

theorem exists_toBech32 (role : Role) (body : Block addressLength)
    (hvalid : Bech32.IsPrefix (role.hrp base)) (hlower : UpperFree (role.hrp base).toList) :
    ∃ text, (assigned role body).toBech32 base = .ok text ∧
      ofBech32 base text = .ok (assigned role body) := by
  obtain ⟨text, hencode⟩ := Bech32.exists_encode hvalid body.bytes
  have hdecode := Bech32.decode_of_encode hencode
  rw [toLower_eq_self hlower] at hdecode
  exact ⟨text, hencode, ofBech32_eq_ok_iff.mpr ⟨role, body, rfl, hdecode⟩⟩

theorem toBech32_of_ofBech32 {address : Address} (h : ofBech32 base text = .ok address) :
    ¬IsMixedCase text.toList ∧ address.toBech32 base = .ok text.toLower := by
  obtain ⟨role, body, rfl, hdecode⟩ := ofBech32_eq_ok_iff.mp h
  obtain ⟨hcase, -, hencode⟩ := Bech32.decode_eq_ok_iff.mp hdecode
  exact ⟨hcase, hencode⟩

end Address

/-! ### Public keys -/

namespace PublicKey

variable {base text : String}

theorem ofBody_eq_ok_iff {role : Role} {bytes : Bytes} {key : PublicKey} :
    ofBody role bytes = .ok key ↔
      ∃ body : Block compressedLength, key = compressed role body ∧ bytes = body.bytes := by
  simp only [← Block.ofBytes?_eq_some_iff]
  rw [ofBody]
  cases Block.ofBytes? compressedLength bytes with
  | none => simp
  | some body => simp [eq_comm]

theorem ofBech32_eq_ok_iff {key : PublicKey} :
    ofBech32 base text = .ok key ↔
      ∃ role body data, key = compressed role body ∧
        Amino.addPrefix Amino.publicKeyType body.bytes = .ok data ∧
          Bech32.decode text = .ok (role.hrp base ++ publicKeySuffix, data) := by
  rw [ofBech32, bind_eq_ok_iff]
  constructor
  · rintro ⟨⟨hrp, data⟩, hdecode, h⟩
    simp only at h
    split at h
    · cases h
    · rename_i role hrole
      rw [roleOfPrefix?_eq_some_iff] at hrole
      obtain ⟨bytes, hstrip, h⟩ := bind_eq_ok_iff.mp h
      obtain ⟨body, rfl, rfl⟩ := ofBody_eq_ok_iff.mp h
      rw [Amino.stripPrefix_eq_ok_iff] at hstrip
      exact ⟨role, body, data, rfl, hstrip.2, hrole ▸ hdecode⟩
  · rintro ⟨role, body, data, rfl, hdata, hdecode⟩
    refine ⟨_, hdecode, ?_⟩
    simp only [roleOfPrefix?_eq_some_iff.mpr rfl]
    exact bind_eq_ok_iff.mpr ⟨body.bytes,
      Amino.stripPrefix_eq_ok_iff.mpr ⟨body.length_bytes, hdata⟩,
      ofBody_eq_ok_iff.mpr ⟨body, rfl, rfl⟩⟩

theorem length_of_addPrefix {body : Block compressedLength} {data : Bytes}
    (h : Amino.addPrefix Amino.publicKeyType body.bytes = .ok data) :
    data.length = Amino.prefixLength + compressedLength := by
  obtain ⟨front, -, rfl⟩ := Amino.addPrefix_eq_ok_iff.mp h
  rw [List.length_append, front.length_bytes, body.length_bytes]

theorem exists_addPrefix (body : Block compressedLength) :
    ∃ data, Amino.addPrefix Amino.publicKeyType body.bytes = .ok data := by
  have hlength : body.bytes.length ≤ Amino.maxBodyLength := body.length_bytes.le
  have hfront := Amino.prefixFor_eq_ok Amino.typeTag_publicKeyType hlength
  exact ⟨_, Amino.addPrefix_eq_ok_iff.mpr ⟨_, hfront, rfl⟩⟩

theorem toBech32_compressed {role : Role} {body : Block compressedLength} {data : Bytes}
    (h : Amino.addPrefix Amino.publicKeyType body.bytes = .ok data) :
    (compressed role body).toBech32 base =
      Bech32.encode (role.hrp base ++ publicKeySuffix) data := by
  rw [toBech32, h]
  rfl

theorem exists_toBech32 (role : Role) (body : Block compressedLength)
    (hvalid : Bech32.IsPrefix (role.hrp base ++ publicKeySuffix))
    (hlower : UpperFree (role.hrp base ++ publicKeySuffix).toList) :
    ∃ text, (compressed role body).toBech32 base = .ok text ∧
      ofBech32 base text = .ok (compressed role body) := by
  obtain ⟨data, hdata⟩ := exists_addPrefix body
  obtain ⟨text, hencode⟩ := Bech32.exists_encode hvalid data
  have hdecode := Bech32.decode_of_encode hencode
  rw [toLower_eq_self hlower] at hdecode
  exact ⟨text, (toBech32_compressed hdata).trans hencode,
    ofBech32_eq_ok_iff.mpr ⟨role, body, data, rfl, hdata, hdecode⟩⟩

theorem toBech32_of_ofBech32 {key : PublicKey} (h : ofBech32 base text = .ok key) :
    ¬IsMixedCase text.toList ∧ key.toBech32 base = .ok text.toLower := by
  obtain ⟨role, body, data, rfl, hdata, hdecode⟩ := ofBech32_eq_ok_iff.mp h
  obtain ⟨hcase, -, hencode⟩ := Bech32.decode_eq_ok_iff.mp hdecode
  exact ⟨hcase, (toBech32_compressed hdata).trans hencode⟩

end PublicKey

/-! ### Both -/

/-- Under whatever base prefixes, no text is read both to an address and to a key. -/
theorem not_ofBech32_both {text base other : String} {address : Address} {key : PublicKey}
    (haddress : Address.ofBech32 base text = .ok address) :
    PublicKey.ofBech32 other text ≠ .ok key := by
  intro hkey
  obtain ⟨role, body, -, hshort⟩ := Address.ofBech32_eq_ok_iff.mp haddress
  obtain ⟨role', body', data, -, hdata, hlong⟩ := PublicKey.ofBech32_eq_ok_iff.mp hkey
  have hlength := PublicKey.length_of_addPrefix hdata
  rw [hshort, Except.ok.injEq, Prod.mk.injEq] at hlong
  rw [← hlong.2, body.length_bytes] at hlength
  contradiction

/-- The text of an address or of a key is read to that address or key. Whatever is
read is written as the lower form of the text, and a text is read to one of the
two kinds only. -/
theorem bech32_text_identifies :
    (∀ (base : String) (role : Role) (body : Block addressLength),
      Bech32.IsPrefix (role.hrp base) → UpperFree (role.hrp base).toList →
        ∃ text, (Address.assigned role body).toBech32 base = .ok text ∧
          Address.ofBech32 base text = .ok (.assigned role body)) ∧
    (∀ (base : String) (role : Role) (body : Block compressedLength),
      Bech32.IsPrefix (role.hrp base ++ publicKeySuffix) →
        UpperFree (role.hrp base ++ publicKeySuffix).toList →
          ∃ text, (PublicKey.compressed role body).toBech32 base = .ok text ∧
            PublicKey.ofBech32 base text = .ok (.compressed role body)) ∧
    (∀ base text address, Address.ofBech32 base text = .ok address →
      ¬IsMixedCase text.toList ∧ address.toBech32 base = .ok text.toLower) ∧
    (∀ base text key, PublicKey.ofBech32 base text = .ok key →
      ¬IsMixedCase text.toList ∧ key.toBech32 base = .ok text.toLower) ∧
    ∀ text base other address key, Address.ofBech32 base text = .ok address →
      PublicKey.ofBech32 other text ≠ .ok key :=
  ⟨fun _ role body => Address.exists_toBech32 role body,
    fun _ role body => PublicKey.exists_toBech32 role body,
    fun _ _ _ => Address.toBech32_of_ofBech32, fun _ _ _ => PublicKey.toBech32_of_ofBech32,
    fun _ _ _ _ _ => not_ofBech32_both⟩

/-- An address and the key of a validator under one base prefix. -/
theorem bech32_text_identifies_link : ∃ text other : String,
    Address.ofBech32 "link" text = .ok (.assigned .account (Block.zero addressLength)) ∧
    PublicKey.ofBech32 "link" other =
      .ok (.compressed .validatorOperator (Block.zero compressedLength)) ∧
    ¬IsMixedCase text.toList ∧ ¬IsMixedCase other.toList ∧
    PublicKey.ofBech32 "link" text ≠ .ok .empty := by
  obtain ⟨text, -, haddress⟩ := bech32_text_identifies.1 "link" .account
    (Block.zero addressLength) (by decide) (by decide)
  obtain ⟨other, -, hkey⟩ := bech32_text_identifies.2.1 "link" .validatorOperator
    (Block.zero compressedLength) (by decide) (by decide)
  obtain ⟨-, -, hread, hreadKey, hkind⟩ := bech32_text_identifies
  exact ⟨text, other, haddress, hkey, (hread _ _ _ haddress).1, (hreadKey _ _ _ hkey).1,
    hkind _ _ _ _ _ haddress⟩

end Keyring
