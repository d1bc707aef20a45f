import Keyring.Proofs.Identity.Bech32
import Keyring.Settings
import Keyring.Wallet.Basic

/-!
What accepted settings are good for.

Their base prefix holds only characters that may stand in a bech32 prefix, and so
does the suffix of every role and key. Its length is not looked at when the settings
are accepted: it is the one thing that can be wrong with a whole prefix, and it
decides which texts can be written.
-/

namespace Keyring

open Text Curve

def Address.RoundTrips (base : String) (address : Address) : Prop :=
  ∃ text, address.toBech32 base = .ok text ∧ ofBech32 base text = .ok address

def PublicKey.RoundTrips (base : String) (key : PublicKey) : Prop :=
  ∃ text, key.toBech32 base = .ok text ∧ ofBech32 base text = .ok key

theorem Bech32.encode_of_long {hrp : String}
    (h : maxPrefixLength < (Bytes.ofString hrp).length)
    (data : Bytes) : encode hrp data = .error (.malformedBech32 .length) := by
  obtain ⟨values, hvalues⟩ : ∃ values, regroup .byte .quintet .fill data = .ok values :=
    exists_regroup_fill_eq_ok (GroupWidth.fits_byte data)
  have hcheck : checkPrefix hrp = .error .length := by
    simp only [checkPrefix, h, or_true, if_true]
  rw [encode, hvalues]
  change (assemble hrp values).mapError _ = _
  rw [assemble, hcheck]
  rfl

theorem Role.hrp_account (base : String) : Role.account.hrp base = base :=
  String.append_empty

/-! ### Prefixes that can only be too long -/

/-- Whether a text is a bech32 prefix in lower case, if it is not too long. -/
structure IsLowerPrefix (hrp : String) : Prop where
  ne_empty : hrp ≠ ""
  printable : ∀ c ∈ hrp.toList, 33 ≤ c.toNat ∧ c.toNat ≤ 126
  upperFree : UpperFree hrp.toList

namespace IsLowerPrefix

variable {base hrp suffix : String}

theorem append (h : IsLowerPrefix base) (hlower : UpperFree suffix.toList)
    (hprintable : ∀ c ∈ suffix.toList, 33 ≤ c.toNat ∧ c.toNat ≤ 126) :
    IsLowerPrefix (base ++ suffix) := by
  refine ⟨?_, ?_, ?_⟩
  · simp [h.ne_empty]
  · rw [String.toList_append, List.forall_mem_append]
    exact ⟨h.printable, hprintable⟩
  · rw [UpperFree, String.toList_append, List.forall_mem_append]
    exact ⟨h.upperFree, hlower⟩

theorem roleHrp (h : IsLowerPrefix base) (role : Role) : IsLowerPrefix (role.hrp base) := by
  have hprintable : ∀ role : Role,
      role.suffix.toList.all (fun c => 33 ≤ c.toNat && c.toNat ≤ 126) = true := by
    intro role
    cases role <;> decide
  refine h.append ?_ (by simpa using hprintable role)
  cases role <;> decide

theorem keyHrp (h : IsLowerPrefix base) (role : Role) :
    IsLowerPrefix (role.hrp base ++ publicKeySuffix) := by
  have hprintable :
      publicKeySuffix.toList.all (fun c => 33 ≤ c.toNat && c.toNat ≤ 126) = true := by
    decide
  exact (h.roleHrp role).append (by decide) (by simpa using hprintable)

theorem isPrefix (h : IsLowerPrefix hrp) (hle : hrp.length ≤ 83) : Bech32.IsPrefix hrp := by
  have hpos : 1 ≤ hrp.length := by
    rw [Nat.one_le_iff_ne_zero, Ne, String.length_eq_zero_iff]
    exact h.ne_empty
  rw [Bech32.isPrefix_iff, String.length_toList]
  exact ⟨hpos, hle, h.printable, h.upperFree.not_isMixedCase⟩

theorem encode_of_long (h : IsLowerPrefix hrp) (hlong : 83 < hrp.length) (data : Bytes) :
    Bech32.encode hrp data = .error (.malformedBech32 .length) := by
  apply Bech32.encode_of_long
  rw [length_ofString_of_isAscii (Bech32.isAscii_of_printable h.printable),
    String.length_toList]
  exact hlong

/-! ### Texts under a base prefix -/

theorem roundTrips_address (h : IsLowerPrefix base) (role : Role) (body : Block addressLength)
    (hle : (role.hrp base).length ≤ 83) : (Address.assigned role body).RoundTrips base :=
  Address.exists_toBech32 role body ((h.roleHrp role).isPrefix hle) (h.roleHrp role).upperFree

theorem address_of_long (h : IsLowerPrefix base) (role : Role) (body : Block addressLength)
    (hlong : 83 < (role.hrp base).length) :
    (Address.assigned role body).toBech32 base = .error (.malformedBech32 .length) :=
  (h.roleHrp role).encode_of_long hlong body.bytes

theorem roundTrips_publicKey (h : IsLowerPrefix base) (role : Role)
    (body : Block compressedLength) (hle : (role.hrp base ++ publicKeySuffix).length ≤ 83) :
    (PublicKey.compressed role body).RoundTrips base :=
  PublicKey.exists_toBech32 role body ((h.keyHrp role).isPrefix hle) (h.keyHrp role).upperFree

theorem publicKey_of_long (h : IsLowerPrefix base) (role : Role)
    (body : Block compressedLength) (hlong : 83 < (role.hrp base ++ publicKeySuffix).length) :
    (PublicKey.compressed role body).toBech32 base = .error (.malformedBech32 .length) := by
  obtain ⟨data, hdata⟩ := PublicKey.exists_addPrefix body
  rw [PublicKey.toBech32_compressed hdata]
  exact (h.keyHrp role).encode_of_long hlong data

end IsLowerPrefix

namespace Settings

/-! ### Settings in a document -/

theorem isPrefixByte_iff {b : UInt8} :
    isPrefixByte b = true ↔
      (33 ≤ b.toNat ∧ b.toNat ≤ 126) ∧ ¬(65 ≤ b.toNat ∧ b.toNat ≤ 90) ∧ b.toNat ≠ 49 := by
  have hupper : (65 ≤ b.toNat → 90 < b.toNat) ↔ b.toNat < 65 ∨ 90 < b.toNat := by omega
  simp [isPrefixByte, UInt8.le_iff_toNat_le, ← UInt8.toNat_inj, and_assoc, hupper]

theorem validate_eq_ok_iff {settings checked : Settings} :
    settings.validate = .ok checked ↔ settings = checked ∧ settings.hrp ≠ "" ∧
      ∀ b ∈ Bytes.ofString settings.hrp, isPrefixByte b = true := by
  rw [← List.all_eq_true, validate]
  split
  · rename_i h
    rw [Except.ok.injEq, and_iff_left h]
  · rename_i h
    simp only [reduceCtorEq, false_iff]
    rintro ⟨-, hvalid⟩
    exact h hvalid

theorem isLowerPrefix_of_parse {document : String} {settings : Settings}
    (h : parse document = .ok settings) : IsLowerPrefix settings.hrp := by
  rw [parse] at h
  split at h
  · cases h
  · obtain ⟨read, -, hvalidate⟩ := bind_eq_ok_iff.mp h
    obtain ⟨rfl, hne, hbytes⟩ := validate_eq_ok_iff.mp hvalidate
    simp only [isPrefixByte_iff] at hbytes
    have hchars : ∀ c ∈ read.hrp.toList,
        (33 ≤ c.toNat ∧ c.toNat ≤ 126) ∧ ¬(65 ≤ c.toNat ∧ c.toNat ≤ 90) ∧ c.toNat ≠ 49 := by
      rwa [← forall_byte_iff_forall_char
        (P := fun n => (33 ≤ n ∧ n ≤ 126) ∧ ¬(65 ≤ n ∧ n ≤ 90) ∧ n ≠ 49)]
      intro n hn
      omega
    refine ⟨hne, fun c hc => (hchars c hc).1, fun c hc hupper => ?_⟩
    exact (hchars c hc).2.1 (isUpper_iff.mp hupper)

/-- Whether the address of every wallet, every address and every key can be shown under
the settings and is read back. -/
structure IsUsable (settings : Settings) : Prop where
  wallet : ∀ wallet : Wallet, ∃ text, wallet.addressText settings = .ok text ∧
    Address.ofBech32 settings.hrp text = .ok wallet.address
  address : ∀ role body, (Address.assigned role body).RoundTrips settings.hrp
  publicKey : ∀ role body, (PublicKey.compressed role body).RoundTrips settings.hrp

theorem roundTrips_wallet {settings : Settings} (h : IsLowerPrefix settings.hrp)
    (wallet : Wallet) (hle : settings.hrp.length ≤ 83) :
    ∃ text, wallet.addressText settings = .ok text ∧
      Address.ofBech32 settings.hrp text = .ok wallet.address :=
  h.roundTrips_address .account _ (by rwa [Role.hrp_account])

theorem addressText_of_long {settings : Settings} (h : IsLowerPrefix settings.hrp)
    (wallet : Wallet) (hlong : 83 < settings.hrp.length) :
    wallet.addressText settings = .error (.malformedBech32 .length) :=
  h.address_of_long .account _ (by rwa [Role.hrp_account])

/-- The key of a validator has the longest prefix. -/
theorem isUsable_iff {settings : Settings} (h : IsLowerPrefix settings.hrp) :
    settings.IsUsable ↔ settings.hrp.length ≤ 73 := by
  have hkey : ∀ role : Role, (role.hrp settings.hrp ++ publicKeySuffix).length =
      settings.hrp.length + role.suffix.length + 3 := by
    intro role
    rw [String.length_append, Role.hrp, String.length_append]
    rfl
  constructor
  · intro husable
    by_contra hlong
    have hoperator : Role.validatorOperator.suffix.length = 7 := by decide
    obtain ⟨text, htext, -⟩ := husable.publicKey .validatorOperator (Block.zero _)
    rw [h.publicKey_of_long _ _ (by rw [hkey, hoperator]; omega)] at htext
    cases htext
  · intro hle
    have hsuffix : ∀ role : Role, role.suffix.length ≤ 7 := by
      intro role
      cases role <;> decide
    refine ⟨fun wallet => roundTrips_wallet h wallet (by omega), fun role body => ?_,
      fun role body => ?_⟩
    · have := hsuffix role
      exact h.roundTrips_address role body (by rw [Role.hrp, String.length_append]; omega)
    · have := hsuffix role
      exact h.roundTrips_publicKey role body (by rw [hkey]; omega)

/-- Settings that are read from a document need not be usable. All addresses and keys
can be shown under them exactly if the base prefix has at most seventy-three
characters. One of them is shown and read back if the base prefix and its suffixes have
at most eighty-three, which leaves the whole length to the address of a wallet, and
otherwise fails for that length. -/
theorem accepted_settings_usable_iff (document : String) (settings : Settings)
    (h : parse document = .ok settings) :
    (settings.IsUsable ↔ settings.hrp.length ≤ 73) ∧
    (∀ wallet : Wallet,
      (settings.hrp.length ≤ 83 → ∃ text, wallet.addressText settings = .ok text ∧
        Address.ofBech32 settings.hrp text = .ok wallet.address) ∧
      (83 < settings.hrp.length →
        wallet.addressText settings = .error (.malformedBech32 .length))) ∧
    (∀ role body,
      ((role.hrp settings.hrp).length ≤ 83 →
        (Address.assigned role body).RoundTrips settings.hrp) ∧
      (83 < (role.hrp settings.hrp).length →
        (Address.assigned role body).toBech32 settings.hrp =
          .error (.malformedBech32 .length))) ∧
    ∀ role body,
      ((role.hrp settings.hrp ++ publicKeySuffix).length ≤ 83 →
        (PublicKey.compressed role body).RoundTrips settings.hrp) ∧
      (83 < (role.hrp settings.hrp ++ publicKeySuffix).length →
        (PublicKey.compressed role body).toBech32 settings.hrp =
          .error (.malformedBech32 .length)) := by
  have hbase := isLowerPrefix_of_parse h
  exact ⟨isUsable_iff hbase,
    fun wallet => ⟨roundTrips_wallet hbase wallet, addressText_of_long hbase wallet⟩,
    fun role body => ⟨hbase.roundTrips_address role body, hbase.address_of_long role body⟩,
    fun role body => ⟨hbase.roundTrips_publicKey role body, hbase.publicKey_of_long role body⟩⟩

/-- A document with a base prefix of eighty-four letters is accepted, and no wallet is
shown under it. -/
theorem accepted_settings_usable_iff_long : ∃ settings,
    parse ("bech32_hrp = \"aaaaaaaaaaaaaaaaaaaaaaaaaaaaaaaaaaaaaaaaaa" ++
      "aaaaaaaaaaaaaaaaaaaaaaaaaaaaaaaaaaaaaaaaaa\"") = .ok settings ∧
    ¬settings.IsUsable ∧
    ∀ wallet : Wallet, wallet.addressText settings = .error (.malformedBech32 .length) := by
  have hparse : parse ("bech32_hrp = \"aaaaaaaaaaaaaaaaaaaaaaaaaaaaaaaaaaaaaaaaaa" ++
      "aaaaaaaaaaaaaaaaaaaaaaaaaaaaaaaaaaaaaaaaaa\"") =
        .ok ⟨String.ofList (List.replicate 84 'a'), none⟩ := by
    decide +kernel
  have hlength : (String.ofList (List.replicate 84 'a')).length = 84 := by decide +kernel
  obtain ⟨husable, hwallet, -⟩ := accepted_settings_usable_iff _ _ hparse
  refine ⟨_, hparse, ?_, fun wallet => (hwallet wallet).2 ?_⟩
  · rw [husable, hlength]
    decide
  · rw [hlength]
    decide

end Settings

end Keyring
