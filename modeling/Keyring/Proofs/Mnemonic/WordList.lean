import Keyring.Mnemonic.Phrase
import Keyring.Proofs.Bytes.Bits
import Keyring.Proofs.Bytes.Chunks
import Keyring.Proofs.Outcome
import Keyring.Proofs.Text.Ascii
import Keyring.Proofs.Text.Words
import Mathlib.Data.List.GetD
import Mathlib.Data.List.Nodup

/-!
The word list. It holds as many words as eleven bits count, in ascending order and so each only
once, and all of them can stand between the spaces of a phrase. So places in the list and words
of it stand for each other.
-/

namespace Keyring.Mnemonic

/-! ### The words of the list -/

theorem length_wordList : wordList.length = 2 ^ wordBits := by decide +kernel

/-- The letters of a word as digits of a number. The weight of a letter depends on its place
only, so that numbers of words are in alphabetical order. -/
def rank (word : String) : ℕ :=
  word.toUTF8.data.toList.foldr (fun b rest => 0x100000000000000 * b.toNat + rest / 0x100) 0

def ascends : (lower : ℕ) → List ℕ → Bool
  | _, [] => true
  | lower, n :: rest => Nat.blt lower n && ascends n rest

theorem pairwise_of_ascends {lower : ℕ} {list : List ℕ} (h : ascends lower list = true) :
    (lower :: list).Pairwise (· < ·) := by
  rw [← List.isChain_iff_pairwise]
  induction list generalizing lower with
  | nil => exact .singleton _
  | cons n rest ih =>
      rw [ascends, Bool.and_eq_true, Nat.blt_eq] at h
      exact .cons_cons h.1 (ih h.2)

theorem nodup_wordList : wordList.Nodup := by
  have hascends : ascends 0 (wordList.map rank) = true := by decide +kernel
  have hpairs := (List.pairwise_cons.mp (pairwise_of_ascends hascends)).2
  exact List.Nodup.of_map rank (hpairs.imp Nat.ne_of_lt)

/-- A word is found where it stands. -/
theorem idxOf_getD {position : ℕ} (h : position < 2 ^ wordBits) :
    wordList.idxOf (wordList.getD position "") = position := by
  rw [← length_wordList] at h
  rw [List.getD_eq_getElem _ _ h, nodup_wordList.idxOf_getElem]

theorem getD_idxOf {word : String} (h : word ∈ wordList) :
    wordList.getD (wordList.idxOf word) "" = word := by
  have hlt := List.idxOf_lt_length_iff.mpr h
  rw [List.getD_eq_getElem _ _ hlt, List.getElem_idxOf hlt]

theorem map_getD_map_idxOf {words : List String} (h : ∀ word ∈ words, word ∈ wordList) :
    (words.map wordList.idxOf).map (fun position => wordList.getD position "") = words := by
  rw [List.map_map]
  calc
    words.map ((fun position => wordList.getD position "") ∘ wordList.idxOf) = words.map id :=
      List.map_congr_left fun word hword => getD_idxOf (h word hword)
    _ = words := List.map_id words

theorem idxOf_lt {word : String} (h : word ∈ wordList) :
    wordList.idxOf word < 2 ^ wordBits := by
  rw [← length_wordList]
  exact List.idxOf_lt_length_iff.mpr h

theorem getD_mem_wordList {position : ℕ} (h : position < 2 ^ wordBits) :
    wordList.getD position "" ∈ wordList := by
  rw [← length_wordList] at h
  rw [List.getD_eq_getElem _ _ h]
  exact List.getElem_mem h

def isLetters (text : String) : Bool :=
  let bytes := text.toUTF8.data.toList
  !bytes.isEmpty && bytes.all fun b => Nat.ble 97 b.toNat && Nat.ble b.toNat 122

theorem letter_of_isLetters {text : String} (h : isLetters text = true) :
    ∀ c ∈ text.toList, 97 ≤ c.toNat ∧ c.toNat ≤ 122 := by
  rw [← Text.forall_byte_iff_forall_char (P := fun n => 97 ≤ n ∧ n ≤ 122) fun n hn => by omega]
  simp only [isLetters, ← Bytes.ofString_eq_data, Bool.and_eq_true, List.all_eq_true,
    Nat.ble_eq] at h
  exact h.2

theorem isWord_of_isLetters {text : String} (h : isLetters text = true) :
    Text.IsWord text.toList := by
  refine ⟨?_, ?_⟩
  · intro hnil
    rw [isLetters, ← Bytes.ofString_eq_data, Bytes.ofString_eq_flatMap, hnil] at h
    cases h
  · intro c hc
    have hletter := letter_of_isLetters h c hc
    simp [Text.isBlank, Text.blankCodePoints]
    omega

theorem isLetters_of_mem_wordList {word : String} (h : word ∈ wordList) :
    isLetters word = true := by
  have hall : wordList.all isLetters = true := by decide +kernel
  exact List.all_eq_true.mp hall word h

theorem isWord_of_mem_wordList {word : String} (h : word ∈ wordList) :
    Text.IsWord word.toList :=
  isWord_of_isLetters (isLetters_of_mem_wordList h)

/-! ### The words of some entropy -/

theorem lt_of_mem_positions {entropy : Bytes} {position : ℕ}
    (h : position ∈ positions entropy) :
    position < 2 ^ wordBits := by
  obtain ⟨group, hgroup, rfl⟩ := List.mem_map.mp h
  exact (Bits.toNat_lt group).trans_le
    (Nat.pow_le_pow_right (by decide) (Bytes.length_le_of_mem_chunks (by decide) hgroup))

theorem mem_wordList_of_mem_ofEntropy {entropy : Bytes} {word : String}
    (h : word ∈ ofEntropy entropy) : word ∈ wordList := by
  obtain ⟨position, hposition, rfl⟩ := List.mem_map.mp h
  exact getD_mem_wordList (lt_of_mem_positions hposition)

theorem map_idxOf_ofEntropy (entropy : Bytes) :
    (ofEntropy entropy).map wordList.idxOf = positions entropy := by
  rw [ofEntropy, List.map_map]
  calc
    (positions entropy).map (wordList.idxOf ∘ fun position => wordList.getD position "") =
        (positions entropy).map id :=
      List.map_congr_left fun position h => idxOf_getD (lt_of_mem_positions h)
    _ = positions entropy := List.map_id _

theorem isWord_of_mem_ofEntropy {entropy : Bytes} :
    ∀ word ∈ (ofEntropy entropy).map String.toList, Text.IsWord word :=
  List.forall_mem_map.mpr fun _ h => isWord_of_mem_wordList (mem_wordList_of_mem_ofEntropy h)

theorem toList_generate (entropy : Block 16) :
    (generate entropy).toList = Text.spaced ((ofEntropy entropy.bytes).map String.toList) :=
  String.toList_intercalate ..

/-! ### Looking words up -/

variable {place : ℕ} {word : List Char} {words rest : List (List Char)}

theorem lookUp_cons_of_mem (h : String.ofList word ∈ wordList) :
    lookUp place (word :: rest) =
      (lookUp (place + 1) rest >>= fun positions =>
        .ok (wordList.idxOf (String.ofList word) :: positions)) := by
  cases hposition : wordList.idxOf? (String.ofList word) with
  | none => exact absurd h (List.idxOf?_eq_none_iff.mp hposition)
  | some position =>
      rw [lookUp, List.idxOf_eq_getD_idxOf?, hposition]
      rfl

theorem lookUp_cons_of_notMem (h : String.ofList word ∉ wordList) :
    lookUp place (word :: rest) = .error (.unknownWord place) := by
  rw [lookUp, List.idxOf?_eq_none_iff.mpr h]

/-- Words are looked up if all are in the list, to where they stand there. -/
theorem lookUp_eq_ok_iff {positions : List ℕ} :
    lookUp place words = .ok positions ↔
      (∀ word ∈ words, String.ofList word ∈ wordList) ∧
        positions = words.map fun word => wordList.idxOf (String.ofList word) := by
  induction words generalizing place positions with
  | nil =>
      rw [lookUp, Except.ok.injEq, eq_comm]
      exact ⟨fun h => ⟨List.forall_mem_nil _, h⟩, fun h => h.2⟩
  | cons word rest ih =>
      rw [List.forall_mem_cons]
      by_cases hword : String.ofList word ∈ wordList
      · rw [lookUp_cons_of_mem hword, bind_eq_ok_iff]
        constructor
        · rintro ⟨behind, hbehind, hpositions⟩
          obtain ⟨hrest, rfl⟩ := ih.mp hbehind
          exact ⟨⟨hword, hrest⟩, (Except.ok.inj hpositions).symm⟩
        · rintro ⟨⟨-, hrest⟩, rfl⟩
          exact ⟨_, ih.mpr ⟨hrest, rfl⟩, rfl⟩
      · rw [lookUp_cons_of_notMem hword]
        constructor
        · rintro ⟨⟩
        · exact fun h => absurd h.1.1 hword

/-- The first other word is reported by its place. -/
theorem lookUp_of_notMem {i : ℕ} (hi : words[i]? = some word)
    (hword : String.ofList word ∉ wordList)
    (hknown : ∀ earlier ∈ words.take i, String.ofList earlier ∈ wordList) :
    lookUp place words = .error (.unknownWord (place + i)) := by
  induction words generalizing place i with
  | nil => cases hi
  | cons first rest ih =>
      cases i with
      | zero =>
          obtain rfl := Option.some.inj hi
          exact lookUp_cons_of_notMem hword
      | succ i =>
          obtain ⟨hfirst, hknown⟩ := List.forall_mem_cons.mp hknown
          rw [lookUp_cons_of_mem hfirst, ih hi hknown, Nat.add_assoc, Nat.add_comm 1]
          rfl

end Keyring.Mnemonic
