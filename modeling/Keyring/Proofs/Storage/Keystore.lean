import Keyring.Proofs.Amino
import Keyring.Proofs.Armor.Envelope
import Keyring.Proofs.Bytes.Hex
import Keyring.Proofs.Key.Private
import Keyring.Proofs.Outcome
import Keyring.Proofs.Seal.Box
import Keyring.Proofs.Text.Ascii
import Keyring.Storage.Keystore

/-!
Unlocking a keystore undoes creating it, layer by layer: the sealing key, the
box, the type prefix and the bytes of the private key.
-/

namespace Keyring

open Curve

theorem Bcrypt.sealingKey_eq_ok_iff {passphrase : String} {salt : Bytes} {sealing : Block 32} :
    sealingKey passphrase salt = .ok sealing ↔
      (Bytes.ofString passphrase).length ≤ maxPassphraseLength ∧
        ∃ block : Block saltLength, salt = block.bytes ∧
          sealing =
            Sha256.digest (Bytes.ofString (text (Bytes.ofString passphrase) block)) := by
  rw [sealingKey]
  split
  · rename_i hlong
    simp only [reduceCtorEq, false_iff]
    rintro ⟨hshort, -⟩
    omega
  · rename_i hshort
    rw [not_lt] at hshort
    split
    · rename_i hsalt
      simp only [reduceCtorEq, false_iff]
      rintro ⟨-, block, rfl, -⟩
      simp at hsalt
    · rename_i block hsalt
      obtain rfl := Block.ofBytes?_eq_some_iff.mp hsalt
      rw [Except.ok.injEq]
      constructor
      · rintro rfl
        exact ⟨hshort, block, rfl, rfl⟩
      · rintro ⟨-, other, hbytes, rfl⟩
        rw [Block.ext hbytes]

namespace Keystore

theorem create_eq_ok_iff {key : PrivateKey} {passphrase : String} {salt : Salt}
    {nonce : Box.Nonce} {keystore : Keystore} :
    create key passphrase salt nonce = .ok keystore ↔ ∃ sealing plaintext,
      Bcrypt.sealingKey passphrase salt.bytes = .ok sealing ∧
      Amino.addPrefix Amino.privateKeyType key.secret.bytes = .ok plaintext ∧
      keystore.salt = salt.bytes ∧ keystore.sealedKey = Box.lock sealing nonce plaintext := by
  rw [create, bind_eq_ok_iff]
  simp only [bind_eq_ok_iff]
  constructor
  · rintro ⟨sealing, hsealing, plaintext, hplaintext, h⟩
    cases h
    exact ⟨sealing, plaintext, hsealing, hplaintext, rfl, rfl⟩
  · rintro ⟨sealing, plaintext, hsealing, hplaintext, hsalt, hsealed⟩
    refine ⟨sealing, hsealing, plaintext, hplaintext, ?_⟩
    cases keystore
    simp only at hsalt hsealed
    subst hsalt hsealed
    rfl

theorem unlock_eq_ok_iff_layers {keystore : Keystore} {passphrase : String}
    {key : PrivateKey} :
    keystore.unlock passphrase = .ok key ↔ ∃ sealing plaintext,
      Bcrypt.sealingKey passphrase keystore.salt = .ok sealing ∧
      Box.unlock sealing keystore.sealedKey = .ok plaintext ∧
      Amino.addPrefix Amino.privateKeyType key.secret.bytes = .ok plaintext ∧
      Scalar.isUsable key.secret = true := by
  rw [unlock, bind_eq_ok_iff]
  simp only [bind_eq_ok_iff, Amino.stripPrefix_eq_ok_iff, PrivateKey.ofBytes_eq_ok_iff]
  constructor
  · rintro ⟨sealing, hsealing, plaintext, hplaintext, body, ⟨-, hbody⟩, rfl, husable⟩
    exact ⟨sealing, plaintext, hsealing, hplaintext, hbody, husable⟩
  · rintro ⟨sealing, plaintext, hsealing, hplaintext, hbody, husable⟩
    exact ⟨sealing, hsealing, plaintext, hplaintext, key.secret.bytes,
      ⟨key.secret.length_bytes, hbody⟩, rfl, husable⟩

/-- A keystore is unlocked to a key exactly if it is the one that is created from
the key, under its own salt and the nonce in front of its box. -/
theorem unlock_eq_ok_iff {keystore : Keystore} {passphrase : String} {key : PrivateKey}
    (hkey : Scalar.isUsable key.secret = true) :
    keystore.unlock passphrase = .ok key ↔ ∃ (salt : Salt) (nonce : Box.Nonce),
      keystore.salt = salt.bytes ∧ keystore.sealedKey.take Box.nonceLength = nonce.bytes ∧
        create key passphrase salt nonce = .ok keystore := by
  rw [unlock_eq_ok_iff_layers]
  simp only [create_eq_ok_iff, Box.unlock_eq_ok_iff]
  constructor
  · rintro ⟨sealing, plaintext, hsealing, ⟨nonce, hbox⟩, hplaintext, -⟩
    obtain ⟨-, salt, hsalt, -⟩ := Bcrypt.sealingKey_eq_ok_iff.mp hsealing
    refine ⟨salt, nonce, hsalt, ?_, sealing, plaintext, hsalt ▸ hsealing, hplaintext, hsalt,
      hbox.symm⟩
    rw [← hbox, Box.take_lock]
  · rintro ⟨salt, nonce, hsalt, -, sealing, plaintext, hsealing, hplaintext, -, hbox⟩
    exact ⟨sealing, plaintext, hsalt ▸ hsealing, ⟨nonce, hbox.symm⟩, hplaintext, hkey⟩

theorem passphrase_length_of_create {key : PrivateKey} {passphrase : String} {salt : Salt}
    {nonce : Box.Nonce} {keystore : Keystore}
    (h : create key passphrase salt nonce = .ok keystore) :
    (Bytes.ofString passphrase).length ≤ Bcrypt.maxPassphraseLength := by
  obtain ⟨sealing, plaintext, hsealing, -⟩ := create_eq_ok_iff.mp h
  exact (Bcrypt.sealingKey_eq_ok_iff.mp hsealing).1

theorem unlock_of_create {key : PrivateKey} {passphrase : String} {salt : Salt}
    {nonce : Box.Nonce} {keystore : Keystore} (hkey : Scalar.isUsable key.secret = true)
    (h : create key passphrase salt nonce = .ok keystore) :
    keystore.unlock passphrase = .ok key := by
  obtain ⟨sealing, plaintext, -, -, hsalt, hbox⟩ := create_eq_ok_iff.mp h
  rw [unlock_eq_ok_iff hkey]
  exact ⟨salt, nonce, hsalt, by rw [hbox, Box.take_lock], h⟩

theorem exists_create {passphrase : String} (key : PrivateKey) (salt : Salt)
    (nonce : Box.Nonce) (h : (Bytes.ofString passphrase).length ≤ Bcrypt.maxPassphraseLength) :
    ∃ keystore, create key passphrase salt nonce = .ok keystore := by
  have hsealing := Bcrypt.sealingKey_eq_ok_iff.mpr ⟨h, salt, rfl, rfl⟩
  have hfront := Amino.prefixFor_eq_ok Amino.typeTag_privateKeyType
    (show key.secret.bytes.length ≤ Amino.maxBodyLength by
      rw [key.secret.length_bytes]; decide)
  have hplaintext := Amino.addPrefix_eq_ok_iff.mpr ⟨_, hfront, rfl⟩
  exact ⟨⟨salt.bytes, List.ne_nil_of_length_eq_add_one salt.length_bytes, _⟩,
    create_eq_ok_iff.mpr ⟨_, _, hsealing, hplaintext, rfl, rfl⟩⟩

theorem create_of_lt {passphrase : String} (key : PrivateKey) (salt : Salt) (nonce : Box.Nonce)
    (h : Bcrypt.maxPassphraseLength < (Bytes.ofString passphrase).length) :
    create key passphrase salt nonce =
      .error (.passphraseTooLong (Bytes.ofString passphrase).length) := by
  rw [create, Bcrypt.sealingKey, if_pos h]
  rfl

/-! ### Writing to a writer -/

section Writer

variable {σ : Type} [Writer σ] {keystore : Keystore} {writer next flushed : σ}

theorem exportToWriter_of_error {fault : StorageFault}
    (h : Writer.writeAll writer (Bytes.ofString keystore.exportText) = (next, .error fault)) :
    keystore.exportToWriter writer = (next, .error (.storage fault)) := by
  rw [exportToWriter, h]

theorem exportToWriter_of_ok
    (h : Writer.writeAll writer (Bytes.ofString keystore.exportText) = (next, .ok ()))
    (hflush : Writer.flush next = (flushed, .ok ())) :
    keystore.exportToWriter writer = (flushed, .ok ()) := by
  simp only [exportToWriter, h, hflush]
  rfl

end Writer

/-! ### The text of a keystore -/

theorem isPlain_kdfHeader : Envelope.IsPlain kdfHeader Bcrypt.name :=
  ⟨by decide, by decide, by decide, by decide, by decide⟩

theorem isPlain_saltHeader (salt : Bytes) :
    Envelope.IsPlain saltHeader (String.ofList (Hex.encode salt)) := by
  have hdigits : "0123456789abcdef".toList.all (fun c => !Text.isBlank c) = true := by decide
  have hblank : ∀ c ∈ Hex.encode salt, Text.isBlank c = false := by
    intro c hc
    simpa using List.all_eq_true.mp hdigits c (Hex.mem_encode hc)
  obtain ⟨htrim, hline⟩ := Text.isLine_of_not_isBlank hblank
  refine ⟨by decide, ?_, by decide, ?_, by decide⟩
  · rw [String.toList_ofList]
    exact htrim
  · rw [String.toList_ofList]
    exact hline.1

theorem isPlain_of_mem_headers (keystore : Keystore) :
    ∀ entry ∈ keystore.toEnvelope.headers.entries, Envelope.IsPlain entry.1 entry.2 := by
  intro entry h
  rcases Armor.Headers.mem_insertEntry h with rfl | h
  · exact isPlain_saltHeader keystore.salt
  · rcases Armor.Headers.mem_insertEntry h with rfl | h
    · exact isPlain_kdfHeader
    · cases h

theorem ofEnvelope_toEnvelope (keystore : Keystore) :
    ofEnvelope keystore.toEnvelope = .ok keystore := by
  have hkdf : keystore.toEnvelope.headers.get? kdfHeader = some Bcrypt.name := by
    rw [toEnvelope, Envelope.append, Envelope.withHeader, Envelope.withHeader,
      Armor.Headers.get?_insert, if_neg (by decide), Armor.Headers.get?_insert,
      if_pos rfl, kdf]
  have hsalt : keystore.toEnvelope.headers.get? saltHeader =
      some (String.ofList (Hex.encode keystore.salt)) := by
    rw [toEnvelope, Envelope.append, Envelope.withHeader,
      Armor.Headers.get?_insert, if_pos rfl]
  have hdecode : Hex.decode? (String.ofList (Hex.encode keystore.salt)).toList =
      some keystore.salt := by
    rw [String.toList_ofList, Hex.decode?_encode]
  rw [ofEnvelope, hkdf, hsalt]
  simp only [Option.getD_some, ne_eq, not_true_eq_false, if_false, Option.bind_some, hdecode,
    keystore.salt_ne_nil, dite_false]
  rfl

/-- Every keystore is loaded back from its text. -/
theorem load_exportText (keystore : Keystore) : load keystore.exportText = .ok keystore := by
  have hparse := Envelope.parse_render (isPlain_of_mem_headers keystore)
  exact bind_eq_ok_iff.mpr ⟨keystore.toEnvelope, hparse, ofEnvelope_toEnvelope keystore⟩

theorem length_exportText_ne_zero (keystore : Keystore) :
    (Bytes.ofString keystore.exportText).length ≠ 0 := by
  intro hlength
  have hempty : Bytes.ofString "" = [] := by decide +kernel
  have htext : keystore.exportText = "" :=
    Bytes.ofString_inj.mp ((List.length_eq_zero_iff.mp hlength).trans hempty.symm)
  have hload := load_exportText keystore
  rw [htext] at hload
  cases hload

/-- Two keystores with one text are equal, since the text is loaded to only one of
them. -/
theorem exportText_inj {left right : Keystore} :
    left.exportText = right.exportText ↔ left = right := by
  constructor
  · intro h
    have hleft := load_exportText left
    rw [h, load_exportText right] at hleft
    exact (Except.ok.inj hleft).symm
  · rintro rfl
    rfl

/-- The text of a keystore is a normal form. It is loaded to that keystore, whatever
text the keystore itself comes from; it tells the keystore from every other one;
and what it is loaded to has the same text again. -/
theorem exported_text_is_normal_form :
    (∀ keystore : Keystore, load keystore.exportText = .ok keystore) ∧
    (∀ left right : Keystore, left = right ↔ left.exportText = right.exportText) ∧
    ∀ (keystore : Keystore) (text : String) (reloaded : Keystore),
      text = keystore.exportText → load text = .ok reloaded → reloaded.exportText = text := by
  refine ⟨load_exportText, fun left right => exportText_inj.symm, ?_⟩
  rintro keystore text reloaded rfl hload
  rw [load_exportText, Except.ok.injEq] at hload
  rw [hload]

/-- A keystore with a salt of one byte and no sealed key. -/
theorem exported_text_is_normal_form_short : ∃ text,
    load text = .ok ⟨[0xab], by decide, []⟩ ∧
      ∀ reloaded, load text = .ok reloaded → reloaded.exportText = text := by
  obtain ⟨hload, -, hreload⟩ := exported_text_is_normal_form
  exact ⟨_, hload ⟨[0xab], by decide, []⟩, fun reloaded => hreload _ _ reloaded rfl⟩

/-- Unlocking is the inverse of creating, on every keystore. A passphrase opens it
to a key exactly if it is accepted and the keystore is what creating stores for
that key and passphrase under the salt of the keystore and the nonce in front of
its box. What is created is loaded back from its text and opens to its key. -/
theorem unlocking_inverts_creating (key : PrivateKey) (passphrase : String)
    (hkey : 0 < key.secret.toNat ∧ key.secret.toNat < order) :
    (∀ keystore : Keystore, keystore.unlock passphrase = .ok key ↔
      (Bytes.ofString passphrase).length ≤ 71 ∧
        ∃ (salt : Block 16) (nonce : Block 24), keystore.salt = salt.bytes ∧
          keystore.sealedKey.take 24 = nonce.bytes ∧
            create key passphrase salt nonce = .ok keystore) ∧
    ((Bytes.ofString passphrase).length ≤ 71 → ∀ (salt : Block 16) (nonce : Block 24),
      ∃ keystore, create key passphrase salt nonce = .ok keystore ∧
        load keystore.exportText = .ok keystore ∧ keystore.unlock passphrase = .ok key) := by
  have husable := Scalar.isUsable_iff.mpr hkey
  constructor
  · intro keystore
    rw [unlock_eq_ok_iff husable]
    constructor
    · rintro ⟨salt, nonce, hsalt, hnonce, hcreate⟩
      exact ⟨passphrase_length_of_create hcreate, salt, nonce, hsalt, hnonce, hcreate⟩
    · rintro ⟨-, salt, nonce, hsalt, hnonce, hcreate⟩
      exact ⟨salt, nonce, hsalt, hnonce, hcreate⟩
  · intro hlength salt nonce
    obtain ⟨keystore, hcreate⟩ := exists_create key salt nonce hlength
    exact ⟨keystore, hcreate, load_exportText keystore, unlock_of_create husable hcreate⟩

/-- The key one, under the empty passphrase. -/
theorem unlocking_inverts_creating_one : ∃ keystore,
    create ⟨Block.ofNat 32 1⟩ "" (Block.zero 16) (Block.zero 24) = .ok keystore ∧
      keystore.unlock "" = .ok ⟨Block.ofNat 32 1⟩ := by
  obtain ⟨keystore, hcreate, -, hunlock⟩ :=
    (unlocking_inverts_creating ⟨Block.ofNat 32 1⟩ "" (by decide)).2 (by decide +kernel)
      (Block.zero 16) (Block.zero 24)
  exact ⟨keystore, hcreate, hunlock⟩

end Keystore

end Keyring
