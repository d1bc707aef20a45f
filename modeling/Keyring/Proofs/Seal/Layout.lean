import Keyring.Proofs.Seal.Box
import Mathlib.Data.List.GetD
import Mathlib.Logic.Function.Basic

/-!
Sealed boxes byte by byte.

The key stream of a key and a nonce is one sequence of bytes, whatever the length of the
message. The key of the tag takes the first thirty-two of them and the message those behind.
So sealing spells out as nonce, tag and masked message, and a byte string is opened exactly
if sealing writes it under the nonce that it starts with.
-/

namespace Keyring

namespace Salsa20

def streamByte (key : Block 32) (nonce : Block 24) (place : ℕ) : UInt8 :=
  (streamBlock (deriveKey key (nonce.left (m := 16) (n := 8)))
    (nonce.right (m := 16) (n := 8)) (place / 64)).getD (place % 64) 0

theorem getElem?_streamFrom (key : Block 32) (nonce : Block 8) {blocks counter place : ℕ}
    (h : place < 64 * blocks) :
    (streamFrom key nonce blocks counter)[place]? =
      (streamBlock key nonce (counter + place / 64))[place % 64]? := by
  induction blocks generalizing counter place with
  | zero => omega
  | succ blocks ih =>
      rw [streamFrom]
      by_cases hfirst : place < 64
      · rw [List.getElem?_append_left (by rwa [length_streamBlock]), Nat.div_eq_of_lt hfirst,
          Nat.mod_eq_of_lt hfirst, Nat.add_zero]
      · rw [not_lt] at hfirst
        have hblock : counter + 1 + (place - 64) / 64 = counter + place / 64 := by omega
        have hplace : (place - 64) % 64 = place % 64 := by omega
        rw [List.getElem?_append_right (by rwa [length_streamBlock]), length_streamBlock,
          ih (by omega), hblock, hplace]

/-- The bytes of the key stream do not depend on how many of them are asked for. -/
theorem stream_eq_map_range (key : Block 32) (nonce : Block 24) (count : ℕ) :
    stream key nonce count = (List.range count).map (streamByte key nonce) := by
  apply List.ext_getElem (by simp)
  intro place hplace _
  rw [length_stream] at hplace
  have hin : place < 64 * ((count + 63) / 64) := by omega
  have hbyte : place % 64 < 64 := Nat.mod_lt _ (by decide)
  apply Option.some.inj
  rw [← List.getElem?_eq_getElem, List.getElem_map, List.getElem_range, stream,
    List.getElem?_take_of_lt hplace, getElem?_streamFrom _ _ hin, Nat.zero_add, streamByte,
    List.getD_eq_getElem _ _ (by rwa [length_streamBlock]), List.getElem?_eq_getElem]

end Salsa20

namespace Box

variable {key : Block 32}

def tagKey (key : Block 32) (nonce : Nonce) : Block 32 :=
  ⟨Salsa20.stream key nonce 32, Salsa20.length_stream key nonce 32⟩

def encipher (key : Block 32) (nonce : Nonce) (message : Bytes) : Bytes :=
  message.mapIdx fun place b => b ^^^ Salsa20.streamByte key nonce (32 + place)

theorem pads_eq (key : Block 32) (nonce : Nonce) (length : ℕ) :
    pads key nonce length = (tagKey key nonce,
      (List.range length).map fun place => Salsa20.streamByte key nonce (32 + place)) := by
  simp only [pads, tagKey, Salsa20.stream_eq_map_range, Prod.mk.injEq, Block.mk.injEq]
  rw [List.range_add, List.map_append]
  constructor
  · exact List.take_left' (by simp)
  · rw [List.drop_left' (by simp), List.map_map]
    rfl

theorem length_encipher (key : Block 32) (nonce : Nonce) (message : Bytes) :
    (encipher key nonce message).length = message.length :=
  List.length_mapIdx

theorem xor_pad_eq_encipher (key : Block 32) (nonce : Nonce) (message : Bytes) :
    message.xor (pads key nonce message.length).2 = encipher key nonce message := by
  rw [pads_eq, Bytes.xor, encipher]
  apply List.ext_getElem
  · simp
  · intro place _ _
    simp

/-- A box is the nonce, the tag of the masked message and the masked message. -/
theorem lock_eq_layout (key : Block 32) (nonce : Nonce) (message : Bytes) :
    lock key nonce message = nonce.bytes ++
      ((Poly1305.tag (tagKey key nonce) (encipher key nonce message)).bytes ++
        encipher key nonce message) := by
  rw [lock_eq, xor_pad_eq_encipher, pads_eq]

theorem length_lock (key : Block 32) (nonce : Nonce) (message : Bytes) :
    (lock key nonce message).length = message.length + 40 := by
  rw [lock_eq_layout]
  simp only [List.length_append, Block.length_bytes, length_encipher]
  omega

theorem unlock_lock (key : Block 32) (nonce : Nonce) (message : Bytes) :
    unlock key (lock key nonce message) = .ok message :=
  unlock_eq_ok_iff.mpr ⟨nonce, rfl⟩

/-- No box is that of two messages, or of one message under two nonces. -/
theorem lock_injective (key : Block 32) : Function.Injective2 (lock key) := by
  intro nonce nonce' message message' h
  have hnonce : nonce = nonce' := by
    apply Block.ext
    rw [← take_lock key nonce message, h, take_lock]
  have hmessage := unlock_lock key nonce message
  rw [h, unlock_lock] at hmessage
  exact ⟨hnonce, (Except.ok.inj hmessage).symm⟩

theorem unlock_eq_error_iff {sealed : Bytes} :
    unlock key sealed = .error .decryptionFailed ↔
      ¬∃ (nonce : Nonce) (message : Bytes), sealed = lock key nonce message := by
  constructor
  · rintro h ⟨nonce, message, rfl⟩
    rw [unlock_lock] at h
    cases h
  · intro h
    rcases exists_parts_or_unlock_eq_error key sealed with
      ⟨nonce, tag, ciphertext, rfl⟩ | herror
    · rw [unlock_append, if_neg]
      intro htag
      exact h ⟨nonce, _, (lock_eq_append_iff.mpr ⟨htag, rfl⟩).symm⟩
    · exact herror

/-- Opening inverts sealing, for messages of every length. A box is the nonce, the tag and the
message masked with the key stream from its thirty-third byte on. It opens to the message, is
longer by forty bytes, and is the box of no other message and nonce. A byte string opens to a
message exactly if sealing the message under the nonce in its first bytes gives it back. All
others, and so all that are too short, fail to authenticate. -/
theorem opening_inverts_sealing (key : Block 32) :
    (∀ nonce message, unlock key (lock key nonce message) = .ok message ∧
      (lock key nonce message).length = message.length + 40) ∧
    (∀ nonce message, lock key nonce message = nonce.bytes ++
      ((Poly1305.tag (tagKey key nonce) (encipher key nonce message)).bytes ++
        encipher key nonce message)) ∧
    Function.Injective2 (lock key) ∧
    (∀ sealed message, unlock key sealed = .ok message ↔
      ∃ nonce : Nonce, nonce.bytes = sealed.take 24 ∧ sealed = lock key nonce message) ∧
    (∀ sealed, (¬∃ (nonce : Nonce) (message : Bytes), sealed = lock key nonce message) →
      unlock key sealed = .error .decryptionFailed) ∧
    ∀ sealed : Bytes, sealed.length < 40 → unlock key sealed = .error .decryptionFailed := by
  refine ⟨?_, lock_eq_layout key, lock_injective key, ?_, ?_, ?_⟩
  · intro nonce message
    exact ⟨unlock_lock key nonce message, length_lock key nonce message⟩
  · intro sealed message
    rw [unlock_eq_ok_iff]
    constructor
    · rintro ⟨nonce, rfl⟩
      exact ⟨nonce, (take_lock key nonce message).symm, rfl⟩
    · rintro ⟨nonce, -, hsealed⟩
      exact ⟨nonce, hsealed.symm⟩
  · intro sealed
    exact unlock_eq_error_iff.mpr
  · intro sealed hshort
    rw [unlock_eq_error_iff]
    rintro ⟨nonce, message, rfl⟩
    rw [length_lock] at hshort
    omega

def letterBox : Bytes :=
  Bytes.ofNat 24 2 ++ Bytes.ofNat 17 0xb21e39f8e487a3229b69a58521af668233

/-- The box of a letter, the same bytes with another one at the end, and its nonce alone. -/
theorem opening_inverts_sealing_letter :
    unlock (Block.ofNat 32 1) letterBox = .ok [0x61] ∧
      unlock (Block.ofNat 32 1) (letterBox.set 40 0) = .error .decryptionFailed ∧
      unlock (Block.ofNat 32 1) (letterBox.take 24) = .error .decryptionFailed := by
  obtain ⟨hopens, -, -, hiff, hforeign, hshort⟩ := opening_inverts_sealing (Block.ofNat 32 1)
  have hbox : letterBox = lock (Block.ofNat 32 1) (Block.ofNat 24 2) [0x61] := by
    decide +kernel
  have haltered : ¬∃ (nonce : Nonce) (message : Bytes),
      letterBox.set 40 0 = lock (Block.ofNat 32 1) nonce message := by
    rintro ⟨nonce, message, h⟩
    have hopen := (hopens nonce message).1
    have hfails : unlock (Block.ofNat 32 1) (letterBox.set 40 0) =
        .error .decryptionFailed := by
      decide +kernel
    rw [← h, hfails] at hopen
    cases hopen
  exact ⟨(hiff _ _).mpr ⟨Block.ofNat 24 2, by decide +kernel, hbox⟩, hforeign _ haltered,
    hshort _ (by decide +kernel)⟩

end Box

end Keyring
