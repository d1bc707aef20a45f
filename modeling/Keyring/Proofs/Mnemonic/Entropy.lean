import Keyring.Proofs.Bytes.Groups
import Keyring.Proofs.Mnemonic.WordList

/-!
Phrases and the entropy that they spell. The places of the words, eleven bits each, are the
bits of the entropy and then one bit of its digest for each four bytes. A phrase is a mnemonic
exactly if its words spell some entropy so, and then they spell no other.
-/

namespace Keyring.Mnemonic

def phraseWords (phrase : String) : List String :=
  (Text.words phrase.toList).map String.ofList

def entropyLengths : List ℕ := [16, 20, 24, 28, 32]

structure Spells (words : List String) (entropy : Bytes) : Prop where
  length : entropy.length ∈ entropyLengths
  known : ∀ word ∈ words, word ∈ wordList
  bits : words.flatMap (fun word => Bits.ofNat wordBits (wordList.idxOf word)) =
    Bits.ofBytes entropy ++
      (Bits.ofBytes (Sha256.digest entropy).bytes).take (entropy.length / 4)

variable {entropy other : Bytes} {words : List String} {phrase : String}

/-! ### Lengths -/

theorem mem_entropyLengths_iff {length : ℕ} :
    length ∈ entropyLengths ↔ 4 ∣ length ∧ 16 ≤ length ∧ length ≤ 32 := by
  simp only [entropyLengths, List.mem_cons, List.not_mem_nil, or_false]
  omega

theorem mem_wordCounts_iff {count : ℕ} :
    count ∈ wordCounts ↔ 3 ∣ count ∧ 12 ≤ count ∧ count ≤ 24 := by
  simp only [wordCounts, List.mem_cons, List.not_mem_nil, or_false]
  omega

/-! ### Bits -/

theorem checksum_eq_take (entropy : Bytes) :
    checksum entropy =
      (Bits.ofBytes (Sha256.digest entropy).bytes).take (entropy.length / 4) := by
  have hlength : 8 * entropy.length / entropyBitsPerChecksumBit = entropy.length / 4 := by
    rw [entropyBitsPerChecksumBit]
    omega
  rw [checksum, hlength]

theorem length_checksum (h : entropy.length ∈ entropyLengths) :
    (checksum entropy).length = entropy.length / 4 := by
  rw [mem_entropyLengths_iff] at h
  rw [checksum_eq_take, List.length_take, Bits.length_ofBytes, Block.length_bytes]
  omega

/-- The bits of three words for each four bytes. -/
theorem length_ofBytes_append_checksum (h : entropy.length ∈ entropyLengths) :
    (Bits.ofBytes entropy ++ checksum entropy).length =
      wordBits * (3 * (entropy.length / 4)) := by
  rw [List.length_append, length_checksum h, Bits.length_ofBytes, wordBits]
  rw [mem_entropyLengths_iff] at h
  omega

theorem flatMap_positions (h : entropy.length ∈ entropyLengths) :
    (positions entropy).flatMap (Bits.ofNat wordBits) =
      Bits.ofBytes entropy ++ checksum entropy := by
  refine Bits.flatMap_ofNat_map_toNat_chunks (by decide) ?_
  rw [length_ofBytes_append_checksum h]
  exact Nat.dvd_mul_right _ _

/-! ### Reading entropy -/

/-- Entropy is read off the bits of the words if its checksum is what stands behind it. -/
theorem entropyOf_eq_ok_iff {positions : List ℕ} {count : ℕ}
    (h : positions.length = 3 * count) :
    entropyOf positions = .ok entropy ↔ entropy.length = 4 * count ∧
      positions.flatMap (Bits.ofNat wordBits) = Bits.ofBytes entropy ++ checksum entropy := by
  have hlength : (positions.flatMap (Bits.ofNat wordBits)).length = 33 * count := by
    rw [Bits.length_flatMap_ofNat, h, wordBits]
    omega
  rw [entropyOf]
  generalize positions.flatMap (Bits.ofNat wordBits) = bits at hlength ⊢
  -- Of every 33 bits, 32 are entropy and one is a bit of the checksum.
  have hcut : bits.length / (entropyBitsPerChecksumBit + 1) * entropyBitsPerChecksumBit =
      8 * (4 * count) := by
    rw [hlength, entropyBitsPerChecksumBit]
    omega
  simp only [hcut]
  constructor
  · intro hok
    have hdvd : 8 ∣ (bits.take (8 * (4 * count))).length := by
      rw [List.length_take_of_le (by omega)]
      exact Nat.dvd_mul_right _ _
    have hbytes := Bits.length_toBytes hdvd
    split at hok
    · rename_i hsum
      obtain rfl := Except.ok.inj hok
      rw [List.length_take_of_le (by omega)] at hbytes
      refine ⟨Nat.eq_of_mul_eq_mul_left (by decide) hbytes, ?_⟩
      rw [Bits.ofBytes_toBytes hdvd, ← hsum, List.take_append_drop]
    · cases hok
  · rintro ⟨hentropy, rfl⟩
    have hbytes : (Bits.ofBytes entropy).length = 8 * (4 * count) := by
      rw [Bits.length_ofBytes, hentropy]
    rw [List.take_left' hbytes, List.drop_left' hbytes, Bits.toBytes_ofBytes, if_pos rfl]

theorem entropyOf_eq_error {positions : List ℕ} {defect : MnemonicDefect}
    (h : entropyOf positions = .error defect) : defect = .checksum := by
  rw [entropyOf] at h
  split at h
  · cases h
  · exact (Except.error.inj h).symm

/-! ### Words that spell some entropy -/

theorem flatMap_map_idxOf (words : List String) :
    words.flatMap (fun word => Bits.ofNat wordBits (wordList.idxOf word)) =
      (words.map wordList.idxOf).flatMap (Bits.ofNat wordBits) := by
  rw [List.flatMap_map]

/-- The words of some entropy are the only ones that spell it. -/
theorem spells_iff_eq_ofEntropy (h : entropy.length ∈ entropyLengths) :
    Spells words entropy ↔ words = ofEntropy entropy := by
  constructor
  · intro hspells
    have hbits := hspells.bits
    rw [← checksum_eq_take, flatMap_map_idxOf] at hbits
    have hlt : ∀ position ∈ words.map wordList.idxOf, position < 2 ^ wordBits :=
      List.forall_mem_map.mpr fun word hword => idxOf_lt (hspells.known word hword)
    have hpositions : words.map wordList.idxOf = positions entropy := by
      rw [positions, ← hbits, Bits.map_toNat_chunks_flatMap_ofNat (by decide) hlt]
    rw [ofEntropy, ← hpositions, map_getD_map_idxOf hspells.known]
  · rintro rfl
    refine ⟨h, fun word hword => mem_wordList_of_mem_ofEntropy hword, ?_⟩
    rw [← checksum_eq_take, flatMap_map_idxOf, map_idxOf_ofEntropy, flatMap_positions h]

/-- Three words for each four bytes. -/
theorem Spells.length_words (h : Spells words entropy) :
    words.length = 3 * (entropy.length / 4) := by
  have hlength := congrArg List.length h.bits
  rw [← checksum_eq_take, flatMap_map_idxOf, Bits.length_flatMap_ofNat, List.length_map,
    length_ofBytes_append_checksum h.length] at hlength
  exact Nat.eq_of_mul_eq_mul_left (by decide) hlength

theorem Spells.length_mem_wordCounts (h : Spells words entropy) :
    words.length ∈ wordCounts := by
  have hlength := mem_entropyLengths_iff.mp h.length
  rw [h.length_words, mem_wordCounts_iff]
  omega

theorem spells_iff_entropyOf_eq_ok (hcount : words.length ∈ wordCounts)
    (hknown : ∀ word ∈ words, word ∈ wordList) :
    Spells words entropy ↔ entropyOf (words.map wordList.idxOf) = .ok entropy := by
  obtain ⟨⟨count, hwords⟩, hfew, hmany⟩ := mem_wordCounts_iff.mp hcount
  rw [entropyOf_eq_ok_iff (by rw [List.length_map, hwords]), ← flatMap_map_idxOf,
    checksum_eq_take]
  constructor
  · intro h
    have hlength := mem_entropyLengths_iff.mp h.length
    have hthirds := h.length_words
    exact ⟨by omega, h.bits⟩
  · rintro ⟨hlength, hbits⟩
    exact ⟨mem_entropyLengths_iff.mpr (by omega), hknown, hbits⟩

theorem Spells.entropyOf_eq (h : Spells words entropy) :
    entropyOf (words.map wordList.idxOf) = .ok entropy :=
  (spells_iff_entropyOf_eq_ok h.length_mem_wordCounts h.known).mp h

theorem Spells.unique (h : Spells words entropy) (hother : Spells words other) :
    entropy = other :=
  Except.ok.inj (h.entropyOf_eq.symm.trans hother.entropyOf_eq)

/-! ### Phrases -/

theorem length_phraseWords (phrase : String) :
    (phraseWords phrase).length = (Text.words phrase.toList).length := by
  rw [phraseWords, List.length_map]

theorem phraseWords_generate (entropy : Block 16) :
    phraseWords (generate entropy) = ofEntropy entropy.bytes := by
  rw [phraseWords, toList_generate, Text.words_spaced isWord_of_mem_ofEntropy, List.map_map]
  simp

theorem spells_generate (entropy : Block 16) :
    Spells (phraseWords (generate entropy)) entropy.bytes := by
  refine (spells_iff_eq_ofEntropy ?_).mpr (phraseWords_generate entropy)
  rw [entropy.length_bytes]
  decide

theorem generate_injective : Function.Injective generate := by
  intro entropy other h
  have hother := spells_generate other
  rw [← h] at hother
  exact Block.ext ((spells_generate entropy).unique hother)

/-! ### The order of the checks -/

theorem toEntropy_of_length_notMem (h : (phraseWords phrase).length ∉ wordCounts) :
    toEntropy phrase = .error (.wordCount (phraseWords phrase).length) := by
  rw [length_phraseWords] at h ⊢
  exact if_neg h

theorem toEntropy_of_length_mem (h : (phraseWords phrase).length ∈ wordCounts) :
    toEntropy phrase = lookUp 0 (Text.words phrase.toList) >>= entropyOf := by
  rw [length_phraseWords] at h
  exact if_pos h

theorem toEntropy_of_forall_mem (hcount : (phraseWords phrase).length ∈ wordCounts)
    (hknown : ∀ word ∈ phraseWords phrase, word ∈ wordList) :
    toEntropy phrase = entropyOf ((phraseWords phrase).map wordList.idxOf) := by
  have hlookUp : lookUp 0 (Text.words phrase.toList) = .ok _ :=
    lookUp_eq_ok_iff.mpr ⟨List.forall_mem_map.mp hknown, rfl⟩
  rw [toEntropy_of_length_mem hcount, hlookUp, phraseWords, List.map_map]
  rfl

/-- The entropy of a phrase is what its words spell. -/
theorem toEntropy_eq_ok_iff :
    toEntropy phrase = .ok entropy ↔ Spells (phraseWords phrase) entropy := by
  constructor
  · intro h
    have hcount : (phraseWords phrase).length ∈ wordCounts := by
      by_contra hcount
      rw [toEntropy_of_length_notMem hcount] at h
      cases h
    have hread := h
    rw [toEntropy_of_length_mem hcount, bind_eq_ok_iff] at hread
    obtain ⟨positions, hpositions, -⟩ := hread
    have hknown := List.forall_mem_map.mpr (lookUp_eq_ok_iff.mp hpositions).1
    rw [toEntropy_of_forall_mem hcount hknown] at h
    exact (spells_iff_entropyOf_eq_ok hcount hknown).mpr h
  · intro h
    rw [toEntropy_of_forall_mem h.length_mem_wordCounts h.known, h.entropyOf_eq]

theorem toEntropy_of_notMem {i : ℕ} {word : String}
    (hcount : (phraseWords phrase).length ∈ wordCounts)
    (hi : (phraseWords phrase)[i]? = some word) (hword : word ∉ wordList)
    (hknown : ∀ earlier ∈ (phraseWords phrase).take i, earlier ∈ wordList) :
    toEntropy phrase = .error (.unknownWord i) := by
  rw [phraseWords, List.getElem?_map, Option.map_eq_some_iff] at hi
  obtain ⟨letters, hletters, rfl⟩ := hi
  rw [phraseWords, ← List.map_take] at hknown
  rw [toEntropy_of_length_mem hcount,
    lookUp_of_notMem hletters hword (List.forall_mem_map.mp hknown), Nat.zero_add]
  rfl

theorem toEntropy_of_not_spells (hcount : (phraseWords phrase).length ∈ wordCounts)
    (hknown : ∀ word ∈ phraseWords phrase, word ∈ wordList)
    (h : ¬∃ entropy, Spells (phraseWords phrase) entropy) :
    toEntropy phrase = .error .checksum := by
  cases hread : toEntropy phrase with
  | ok entropy => exact absurd ⟨entropy, toEntropy_eq_ok_iff.mp hread⟩ h
  | error defect =>
      rw [toEntropy_of_forall_mem hcount hknown] at hread
      rw [entropyOf_eq_error hread]

theorem validate_eq_ok_iff :
    validate phrase = .ok () ↔ ∃ entropy, Spells (phraseWords phrase) entropy := by
  simp only [← toEntropy_eq_ok_iff]
  rw [validate]
  cases toEntropy phrase <;> simp

theorem validate_of_toEntropy_eq_error {defect : MnemonicDefect}
    (h : toEntropy phrase = .error defect) :
    validate phrase = .error (.badMnemonic defect) := by
  rw [validate, h]

/-- The phrases that are made here are mnemonics of twelve words, another one for each entropy.
Any phrase is a mnemonic exactly if the number of its words is one of the five, all of them are
in the list and they spell some entropy, which is the only one then. Of these the first that
fails is reported, an unknown word by the place of the first one. -/
theorem generated_and_validated_phrases_agree :
    (∀ entropy : Block 16, (phraseWords (generate entropy)).length = 12 ∧
      Spells (phraseWords (generate entropy)) entropy.bytes ∧
        validate (generate entropy) = .ok ()) ∧
    Function.Injective generate ∧
    (∀ phrase, validate phrase = .ok () ↔
      (phraseWords phrase).length ∈ [12, 15, 18, 21, 24] ∧
        (∀ word ∈ phraseWords phrase, word ∈ wordList) ∧
          ∃ entropy, Spells (phraseWords phrase) entropy) ∧
    (∀ phrase, validate phrase = .ok () → ∃! entropy, Spells (phraseWords phrase) entropy) ∧
    (∀ phrase, (phraseWords phrase).length ∉ [12, 15, 18, 21, 24] →
      validate phrase = .error (.badMnemonic (.wordCount (phraseWords phrase).length))) ∧
    (∀ phrase, (phraseWords phrase).length ∈ [12, 15, 18, 21, 24] → ∀ i word,
      (phraseWords phrase)[i]? = some word → word ∉ wordList →
        (∀ earlier ∈ (phraseWords phrase).take i, earlier ∈ wordList) →
          validate phrase = .error (.badMnemonic (.unknownWord i))) ∧
    ∀ phrase, (phraseWords phrase).length ∈ [12, 15, 18, 21, 24] →
      (∀ word ∈ phraseWords phrase, word ∈ wordList) →
        (¬∃ entropy, Spells (phraseWords phrase) entropy) →
          validate phrase = .error (.badMnemonic .checksum) := by
  refine ⟨?_, generate_injective, ?_, ?_, ?_, ?_, ?_⟩
  · intro entropy
    have hspells := spells_generate entropy
    refine ⟨?_, hspells, validate_eq_ok_iff.mpr ⟨_, hspells⟩⟩
    rw [hspells.length_words, entropy.length_bytes]
  · intro phrase
    rw [validate_eq_ok_iff]
    constructor
    · rintro ⟨entropy, h⟩
      exact ⟨h.length_mem_wordCounts, h.known, entropy, h⟩
    · exact fun h => h.2.2
  · intro phrase hvalid
    obtain ⟨entropy, h⟩ := validate_eq_ok_iff.mp hvalid
    exact ⟨entropy, h, fun other hother => hother.unique h⟩
  · intro phrase hcount
    exact validate_of_toEntropy_eq_error (toEntropy_of_length_notMem hcount)
  · intro phrase hcount i word hi hword hknown
    exact validate_of_toEntropy_eq_error (toEntropy_of_notMem hcount hi hword hknown)
  · intro phrase hcount hknown h
    exact validate_of_toEntropy_eq_error (toEntropy_of_not_spells hcount hknown h)

def firstWords (count : ℕ) : String :=
  " ".intercalate (List.replicate count "abandon")

theorem generated_and_validated_phrases_agree_first :
    validate (generate (Block.zero 16)) = .ok () ∧
      validate (firstWords 13) = .error (.badMnemonic (.wordCount 13)) ∧
        validate (firstWords 11 ++ " abandoned") = .error (.badMnemonic (.unknownWord 11)) ∧
          validate (firstWords 12) = .error (.badMnemonic .checksum) := by
  obtain ⟨hmade, -, hiff, -, hcount, hunknown, hchecksum⟩ :=
    generated_and_validated_phrases_agree
  have hforeign : ¬∃ entropy, Spells (phraseWords (firstWords 12)) entropy := by
    rintro ⟨entropy, h⟩
    have hvalid := (hiff (firstWords 12)).mpr ⟨h.length_mem_wordCounts, h.known, entropy, h⟩
    exact absurd hvalid (by decide +kernel)
  refine ⟨(hmade _).2.2, ?_, ?_, ?_⟩
  · exact hcount (firstWords 13) (by decide +kernel)
  · exact hunknown _ (by decide +kernel) 11 "abandoned" (by decide +kernel) (by decide +kernel)
      (by decide +kernel)
  · exact hchecksum _ (by decide +kernel) (by decide +kernel) hforeign

end Keyring.Mnemonic
