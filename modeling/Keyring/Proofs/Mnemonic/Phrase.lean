import Keyring.Proofs.Digest.Keyed
import Keyring.Proofs.Digest.Paired
import Keyring.Proofs.Mnemonic.Entropy
import Keyring.Wallet.Basic

/-!
Phrases and their words. Whether a phrase is a mnemonic depends on its words alone,
but its seed is made from the key that its text becomes, white space and all. So a phrase
of up to one block has the key of its words only if it is single-spaced, as the phrases
made here are.

That another key is another seed is shown for one phrase with a line feed behind it. This
takes two seeds of 2048 rounds each, which the last part computes in stages.
-/

namespace Keyring.Mnemonic

def respaced (phrase : String) : String :=
  " ".intercalate ((Text.words phrase.toList).map String.ofList)

theorem toList_respaced (phrase : String) :
    (respaced phrase).toList = Text.spaced (Text.words phrase.toList) := by
  rw [respaced, String.toList_intercalate, List.map_map, Text.spaced]
  simp [Function.comp_def]

theorem words_respaced (phrase : String) :
    Text.words (respaced phrase).toList = Text.words phrase.toList := by
  rw [toList_respaced, Text.words_spaced Text.isWord_of_mem_words]

theorem respaced_eq_self_iff {phrase : String} :
    respaced phrase = phrase ↔ Text.IsSingleSpaced phrase.toList := by
  rw [← String.toList_inj, toList_respaced, Text.spaced_words_eq_self_iff]

theorem validate_eq_of_words_eq {phrase other : String}
    (h : Text.words other.toList = Text.words phrase.toList) :
    validate other = validate phrase := by
  rw [validate, validate, toEntropy, toEntropy, h]

/-! ### Phrases that are made -/

/-- The phrases that are made here are single-spaced. -/
theorem isSingleSpaced_generate (entropy : Block 16) :
    Text.IsSingleSpaced (generate entropy).toList := by
  rw [toList_generate]
  exact Text.isSingleSpaced_spaced isWord_of_mem_ofEntropy

/-! ### Keys, seeds and wallets -/

/-- The block that a phrase becomes as a key. Of the text the seed depends on nothing else. -/
def seedKey (phrase : String) : Bytes :=
  Sha512.function.keyBlock (Bytes.ofString phrase)

theorem seed_eq_of_seedKey_eq {phrase other : String} (h : seedKey other = seedKey phrase) :
    seed other = seed phrase := by
  rw [seedKey, seedKey] at h
  rw [seed, seed, HashFunction.stretch, HashFunction.stretch, h]

theorem derive_eq_of_seed_eq {phrase other : String} (h : seed other = seed phrase)
    (account index : UInt32) : (PhraseWallet.mk other).derive account index =
      (PhraseWallet.mk phrase).derive account index := by
  rw [PhraseWallet.derive, PhraseWallet.derive, accountKey, accountKey, h]

/-- A mnemonic consists of letters and white space, so no byte of it is zero. -/
theorem zero_notMem_of_validate {phrase : String} (h : validate phrase = .ok ()) :
    0 ∉ Bytes.ofString phrase := by
  obtain ⟨entropy, hspells⟩ := validate_eq_ok_iff.mp h
  apply Text.zero_notMem_ofString
  intro c hc hzero
  cases hblank : Text.isBlank c with
  | true =>
      rw [Text.isBlank, hzero] at hblank
      cases hblank
  | false =>
      obtain ⟨word, hword, hmem⟩ := Text.exists_mem_words hc hblank
      have hknown := hspells.known _ (List.mem_map_of_mem hword)
      have hletter := letter_of_isLetters (isLetters_of_mem_wordList hknown) c
        (by rwa [String.toList_ofList])
      omega

theorem length_ofString_respaced_le (phrase : String) :
    (Bytes.ofString (respaced phrase)).length ≤ (Bytes.ofString phrase).length := by
  have h := Text.length_spaced_words_le phrase.toList
  rw [Bytes.ofString_eq_flatMap, Bytes.ofString_eq_flatMap, toList_respaced]
  omega

/-- A mnemonic with other white space is one with the same words. It has the same seed and
the same wallets if it becomes the same key. If both have up to 128 bytes, they must be equal
for that; of longer ones the digests must be equal, and the digest of a long one must be a
short one with zeros behind it. So a mnemonic of up to 128 bytes becomes the key of its words,
joined by single spaces, exactly if it is single-spaced. -/
theorem spacing_keeps_seedKey_iff {phrase : String} (hvalid : validate phrase = .ok ()) :
    (∀ other, Text.words other.toList = Text.words phrase.toList →
      validate other = .ok () ∧
      (seedKey other = seedKey phrase → seed other = seed phrase ∧ ∀ account index,
        (PhraseWallet.mk other).derive account index =
          (PhraseWallet.mk phrase).derive account index) ∧
      ((Bytes.ofString other).length ≤ 128 → (Bytes.ofString phrase).length ≤ 128 →
        (seedKey other = seedKey phrase ↔ other = phrase)) ∧
      (128 < (Bytes.ofString other).length → (Bytes.ofString phrase).length ≤ 128 →
        (seedKey other = seedKey phrase ↔ (Sha512.digest (Bytes.ofString other)).bytes =
          Bytes.ofString phrase ++ List.replicate (64 - (Bytes.ofString phrase).length) 0)) ∧
      (128 < (Bytes.ofString other).length → 128 < (Bytes.ofString phrase).length →
        (seedKey other = seedKey phrase ↔
          Sha512.digest (Bytes.ofString other) = Sha512.digest (Bytes.ofString phrase)))) ∧
    validate (respaced phrase) = .ok () ∧
    ((Bytes.ofString phrase).length ≤ 128 →
      (seedKey phrase = seedKey (respaced phrase) ↔ Text.IsSingleSpaced phrase.toList)) := by
  have hzero := zero_notMem_of_validate hvalid
  have hothers : ∀ {other}, Text.words other.toList = Text.words phrase.toList →
      validate other = .ok () := by
    intro other hwords
    rw [validate_eq_of_words_eq hwords, hvalid]
  have hrespaced := hothers (words_respaced phrase)
  refine ⟨?_, hrespaced, ?_⟩
  · intro other hwords
    have hother := zero_notMem_of_validate (hothers hwords)
    refine ⟨hothers hwords, ?_, ?_, ?_, ?_⟩
    · intro hkey
      have hseed := seed_eq_of_seedKey_eq hkey
      exact ⟨hseed, derive_eq_of_seed_eq hseed⟩
    · intro hshort hphrase
      rw [seedKey, seedKey, HashFunction.keyBlock_eq_iff_of_le hshort hphrase hother hzero,
        Bytes.ofString_inj]
    · intro hlong hphrase
      exact HashFunction.keyBlock_eq_iff_of_lt_of_le (by decide) hlong hphrase hzero
    · intro hlong hphrase
      exact HashFunction.keyBlock_eq_iff_of_lt hlong hphrase
  · intro hphrase
    have hshort := (length_ofString_respaced_le phrase).trans hphrase
    rw [seedKey, seedKey, HashFunction.keyBlock_eq_iff_of_le hphrase hshort hzero
      (zero_notMem_of_validate hrespaced), Bytes.ofString_inj, eq_comm, respaced_eq_self_iff]

/-! ### A line feed at the end -/

/-- The mnemonic of sixteen zero bytes. -/
def zeroPhrase : String :=
  "abandon abandon abandon abandon abandon abandon abandon abandon abandon abandon abandon about"

def zeroLine : String :=
  zeroPhrase ++ "\n"

section LineFeed

open Sha512 Sha512.Paired

def disguise (phrase : String) (mask : UInt8) : List UInt64 :=
  wordsOfBytes64 ((function.keyBlock (Bytes.ofString phrase)).map (· ^^^ mask))

theorem keyWords_zeroPhrase :
    KeyWords (function.keyBlock (Bytes.ofString zeroPhrase)) (disguise zeroPhrase 0x36)
      (disguise zeroPhrase 0x5c) := by
  constructor <;> decide +kernel

theorem keyWords_zeroLine :
    KeyWords (function.keyBlock (Bytes.ofString zeroLine)) (disguise zeroLine 0x36)
      (disguise zeroLine 0x5c) := by
  constructor <;> decide +kernel

def saltWords : List UInt64 :=
  [0x6d6e656d6f6e6963, 0x0000000180000000, 0, 0, 0, 0, 0, 0, 0, 0, 0, 0, 0, 0, 0, 1120]

/-- The states after the first disguises of the two phrases. -/
def inner : Paired :=
  ofStates
    ⟨0xc7e1dc57fa37e61d, 0x5dc0ceddaa8a3f8a, 0x45ad7e4bd4530a8e, 0x993f347257b058e9,
     0xf4b88dddeb2a39d3, 0x1019193aaf687faa, 0x85ee62cf0a99a736, 0x0a986e242863d5be⟩
    ⟨0x5eb04f33fee73d18, 0x02328f43d421cdf7, 0x103ff2c197f072a8, 0x0c78890fd4a8f5be,
     0xa9a6b0006a7cccdd, 0x6f9243a630a657de, 0xbbab1ef701c97584, 0xe1b7fdea9db742a5⟩

def outer : Paired :=
  ofStates
    ⟨0xfdbac1202307cad8, 0xe0de309b5d4f7b30, 0x0582751a4fc0ccb1, 0xe75469278ae23df3,
     0x8d065a2e683e4e44, 0x2f511380127cab17, 0xee6e4f82abb89c87, 0xfb071827a4ad1f8b⟩
    ⟨0xe50fdc431163cada, 0xf22b7faf9a9fef1d, 0x7e6cb4e7aa50f1c9, 0x3f856eb4aff44cb0,
     0x1792d6a89fd4ed87, 0x58df037cb502e839, 0x4d6b8292310ebaf7, 0x427033245af1d4a2⟩

def first : Paired :=
  ofStates
    ⟨0x64d8279a3894fed8, 0xd8847f5c3c9a4267, 0x8dc846253fcda331, 0x57df5c148ab9df4a,
     0xc3c9079d364e2a6f, 0x9d24b24c3ae858cd, 0xb0cfb546e01986ce, 0xe10967f2473a2b37⟩
    ⟨0x4fe82ead7a488d8a, 0x43ea6b3deec74f98, 0x52dd87620e14986a, 0xb54fc419d1f2fe81,
     0x840d7030a8be36b5, 0x6301fa22455eb8f5, 0x64ed573161461481, 0x7674fea3adc57500⟩

-- Each stage is a declaration of its own, so that the kernel forgets the terms of one
-- before it evaluates the next.

def stage256 : Stage inner outer first 256 :=
  (Stage.start inner outer first).next 256
    (ofStates
      ⟨0xe5ee0e82fa5a82e7, 0x6feb5bf755fe0500, 0x0eafbec9f2dd4623, 0x87a4a0d90b5219a3,
       0x56784e3251768808, 0x9ae3d095e3e307f0, 0xa9f5fdc83eb6a6b0, 0xbcb98a1ba57b0932⟩
      ⟨0x78b38ca4e7bdd970, 0x4d5e6c86c68af9da, 0xd128270cdce9e97c, 0xb0373b8045aa93ee,
       0x26f1581a8742a5b6, 0x8a148190c53e82b2, 0x312064bcf1324e3d, 0xab9f07c776e3ca0a⟩)
    (pair 0x950715b0aa6b9fef 0x1a6c598516732b6a) (by decide +kernel)

def stage512 : Stage inner outer first 512 :=
  stage256.next 256
    (ofStates
      ⟨0xb779d28b87b32936, 0x36847381858bf08f, 0x7e44e509d34eebaa, 0x75fd48475c07b2de,
       0xb2337c49b1b973c1, 0x380328af7e67200e, 0xd8b43b7f6dbb5f61, 0x7301391dece57735⟩
      ⟨0x4c3aeab40c934722, 0x4a92abb490f7f98d, 0xd1ac8e11e0898638, 0x4dd74253fe7bd303,
       0x209b184d78dfca03, 0xa5d3fde56e3c6182, 0x76281209314b35de, 0x4147d79798ba188b⟩)
    (pair 0x509a8bd0b428d8df 0xa926344746b46d30) (by decide +kernel)

def stage768 : Stage inner outer first 768 :=
  stage512.next 256
    (ofStates
      ⟨0xf75e932dedb8ab88, 0x32e874f118ba5e85, 0xa4a02276c3a01cf5, 0xf19c7494be520f6f,
       0xa74085c551b676c4, 0x7ecce0b966c51465, 0x5768947a7bfa4ae1, 0xd9bf5ec11e2d086c⟩
      ⟨0x78f0bb4382ee4ac1, 0x65518ca8af0b55c2, 0xfaa641c8475c4b6f, 0x03186325a98a9101,
       0xfb085a4dfae1d228, 0xa53587cacb7234cd, 0xd4962fa6a55da25f, 0x6b37e4d885067fcb⟩)
    (pair 0x7be6d58e081071e6 0x3b3723a1f38eab4c) (by decide +kernel)

def stage1024 : Stage inner outer first 1024 :=
  stage768.next 256
    (ofStates
      ⟨0xce293a5449070e1c, 0x89a773b35f5dd1cb, 0x024b557dc20197aa, 0x5fcf1af555f6baf8,
       0xe470d2c727c2b418, 0x6d8652c384dc6ca5, 0x1d8e70ad02316b10, 0x25986d82b26b9719⟩
      ⟨0xfcf8f3d25bbcc01f, 0x525770969dfb3cae, 0xd10f635c09636303, 0x060e5cd059731d4f,
       0xf04457ea3d463fc1, 0x05edff0a6e4d8ed5, 0x51996f322836fdcc, 0x02164efed3dfd6af⟩)
    (pair 0xeb482dc5b44853f8 0x715571d3153ec559) (by decide +kernel)

def stage1280 : Stage inner outer first 1280 :=
  stage1024.next 256
    (ofStates
      ⟨0x30f2eb5107dd4ea1, 0x8be373e9885fb4bc, 0x796df7bcf4758d85, 0xd98caf04c156120d,
       0x4bc9995e8e3e9f71, 0x03ce22cdf92c4e51, 0x4276ea04cab01687, 0xa1f73df2f55716ad⟩
      ⟨0x2966c4d33687d17d, 0xa1f9574144f453ef, 0x7d625a15028141cb, 0xe5a2028035db4d46,
       0xf55faa4f7a58d290, 0xab7b4dad727b27e0, 0x12e230e6f3b036c6, 0x9d4ea89002d0bb94⟩)
    (pair 0xb32657de43b678c5 0x51d0dbb000b28049) (by decide +kernel)

def stage1536 : Stage inner outer first 1536 :=
  stage1280.next 256
    (ofStates
      ⟨0x729c0b08d5aad2bb, 0x012078c813b4b317, 0x2e680ca19d0b4183, 0x627efc0fff2fa3ec,
       0xa2cba71a3de21565, 0x09bd32fb2dd11faa, 0x3a9c954b8d06529e, 0x96da77ccb5dfc764⟩
      ⟨0x03ca191ee8a6d17e, 0x6ed1ad8d50e274c1, 0x1495e2bbb928f6fa, 0x4321a8284d698f44,
       0x819ea85203fec171, 0xabc576c97199c535, 0x84740f0e6ca94c6c, 0x8b1896a3a087aca0⟩)
    (pair 0xa3b8c99aabc45a8d 0xa9ef0b982e8dc885) (by decide +kernel)

def stage1792 : Stage inner outer first 1792 :=
  stage1536.next 256
    (ofStates
      ⟨0x777e7cfbadebfdf4, 0x817ea59137a8346d, 0x6667b0c1f49c3b97, 0x5f71ae323b5768b9,
       0x1391370d3a675c5d, 0xf389c09d40ca8019, 0x088d6fd81fbb1dfe, 0x7b1c3ba20826e6f2⟩
      ⟨0xab85f2af9850bc04, 0x8dea9949cc6574c5, 0xd997606ce33aef57, 0x9818ae0e3146152e,
       0xeb00e24f85e35741, 0xeec1b8f78b1270b6, 0xe32a221274c82ba6, 0xcc2c09aaecdaeee5⟩)
    (pair 0x6a636315a687a294 0x5b959613e9a5a3a5) (by decide +kernel)

def stage2047 : Stage inner outer first 2047 :=
  stage1792.next 255
    (ofStates
      ⟨0xae4de1afa6b2e5ba, 0x8a2e5b3e45d82469, 0xc2b8dd54c85e4d1d, 0xe0b755989ae5676d,
       0xa86b346ad1203947, 0xd3802c8d322f9c23, 0x6e6c495462c0958b, 0x51c511e1d9166d88⟩
      ⟨0x6f78dbbebf774430, 0x72550b840a846e84, 0xd322fe62ca76a404, 0x6a30f27cc8b77b8a,
       0xa0036ea5d96104a2, 0x332f13ae82daf9aa, 0xc49ffab9b4ea582e, 0x21a756a2b7f7512b⟩)
    (pair 0x5eb00bbddcf06908 0x73858aef977b8105) (by decide +kernel)

/-- A line feed behind a mnemonic changes its seed. -/
theorem seed_zeroLine_ne : seed zeroLine ≠ seed zeroPhrase := by
  have hsalt : seedSalt ++ Bytes.ofNat 4 1 ++ HashFunction.completion 128
      (128 + (seedSalt.length + 4)) (Bytes.ofNat 16 (8 * (128 + (seedSalt.length + 4)))) =
      saltWords.flatMap bytesOfWord64 := by
    decide +kernel
  have hinner : (ofStates .initial .initial).compress
      ((disguise zeroPhrase 0x36).zipWith pair (disguise zeroLine 0x36)) = inner := by
    decide +kernel
  have houter : (ofStates .initial .initial).compress
      ((disguise zeroPhrase 0x5c).zipWith pair (disguise zeroLine 0x5c)) = outer := by
    decide +kernel
  have hfirst : keyed inner outer (saltWords.zipWith pair saltWords) = first := by
    decide +kernel
  exact (stretch_ne keyWords_zeroPhrase keyWords_zeroLine rfl hsalt hinner houter hfirst
    stage2047 (by decide +kernel)).symm

end LineFeed

/-- The phrase with a line feed behind it is a mnemonic too, but has neither the key nor the
seed of its words. -/
theorem spacing_keeps_seedKey_iff_line :
    validate zeroLine = .ok () ∧ seedKey zeroLine ≠ seedKey (respaced zeroLine) ∧
      seed zeroLine ≠ seed (respaced zeroLine) := by
  have hphrase : validate zeroPhrase = .ok () := by decide +kernel
  have hwords : Text.words zeroLine.toList = Text.words zeroPhrase.toList := by decide +kernel
  have hrespaced : respaced zeroLine = zeroPhrase := by decide +kernel
  have hlength : (Bytes.ofString zeroLine).length ≤ 128 := by decide +kernel
  have hspaced : ¬Text.IsSingleSpaced zeroLine.toList := by decide +kernel
  obtain ⟨hvalid, -⟩ := (spacing_keeps_seedKey_iff hphrase).1 zeroLine hwords
  obtain ⟨-, -, hkey⟩ := spacing_keeps_seedKey_iff hvalid
  refine ⟨hvalid, mt (hkey hlength).mp hspaced, ?_⟩
  rw [hrespaced]
  exact seed_zeroLine_ne

end Keyring.Mnemonic
