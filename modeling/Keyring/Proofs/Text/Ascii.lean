import Keyring.Bytes.Basic
import Mathlib.Data.Nat.Notation

/-!
Characters below 128, which are one byte each, and their letters in two cases.
-/

namespace Keyring

/-! ### Bytes -/

namespace Bytes

theorem toList_loop (array : ByteArray) (start : ℕ) (front : Bytes) :
    ByteArray.toList.loop array start front =
      front.reverse ++ array.data.toList.drop start := by
  fun_induction ByteArray.toList.loop array start front with
  | case1 start front hstart ih =>
      have hlength : start < array.data.toList.length := hstart
      have hfirst : array.get! start = array.data.toList[start] :=
        getElem!_pos array.data start hstart
      rw [ih, List.drop_eq_getElem_cons hlength, List.reverse_cons, List.append_assoc, hfirst]
      rfl
  | case2 start front hstart =>
      have hlength : array.data.toList.length ≤ start := Nat.not_lt.mp hstart
      rw [List.drop_eq_nil_of_le hlength, List.append_nil]

theorem ofString_eq_data (text : String) : ofString text = text.toUTF8.data.toList :=
  toList_loop ..

/-- Texts with the same bytes are equal. -/
theorem ofString_inj {left right : String} :
    ofString left = ofString right ↔ left = right := by
  rw [ofString_eq_data, ofString_eq_data, Array.toList_inj, ← ByteArray.ext_iff,
    String.toUTF8_eq_toByteArray, String.toUTF8_eq_toByteArray, String.toByteArray_inj]

/-- The bytes of a text are those of its characters. -/
theorem ofString_eq_flatMap (text : String) :
    ofString text = text.toList.flatMap String.utf8EncodeChar := by
  obtain ⟨chars, rfl⟩ : ∃ chars, text = String.ofList chars := ⟨_, String.ofList_toList.symm⟩
  rw [String.toList_ofList, ofString_eq_data, String.toUTF8_eq_toByteArray,
    String.toByteArray_ofList, List.utf8Encode, List.toList_data_toByteArray]

end Bytes

namespace Text

def IsAscii (text : List Char) : Prop :=
  ∀ c ∈ text, c.toNat < 128

-- Decided along the text, since there are finitely many characters to go through too.
instance (text : List Char) : Decidable (IsAscii text) :=
  decidable_of_iff (text.all (fun c => c.toNat < 128) = true) (by simp [IsAscii])

theorem isAscii_append {front back : List Char} :
    IsAscii (front ++ back) ↔ IsAscii front ∧ IsAscii back :=
  List.forall_mem_append

theorem utf8EncodeChar_of_lt {c : Char} (h : c.toNat < 128) :
    String.utf8EncodeChar c = [UInt8.ofNat c.toNat] :=
  if_pos (show c.val.toNat ≤ 127 from Nat.le_of_lt_succ h)

/-- The bytes of a character that is not one of the first 128 start with a byte
beyond them. -/
theorem exists_utf8EncodeChar_eq_cons {c : Char} (h : 128 ≤ c.toNat) :
    ∃ b rest, String.utf8EncodeChar c = b :: rest ∧ 128 ≤ b.toNat := by
  have hlarge : ¬c.val.toNat ≤ 127 := Nat.not_le.mpr h
  rw [String.utf8EncodeChar]
  simp only [hlarge, if_false]
  split
  · exact ⟨_, _, rfl, by rw [UInt8.toNat_ofNat']; omega⟩
  · split
    · exact ⟨_, _, rfl, by rw [UInt8.toNat_ofNat']; omega⟩
    · exact ⟨_, _, rfl, by rw [UInt8.toNat_ofNat']; omega⟩

/-- Only the character zero has a byte that is zero. -/
theorem zero_notMem_utf8EncodeChar {c : Char} (h : c.toNat ≠ 0) :
    (0 : UInt8) ∉ String.utf8EncodeChar c := by
  have hbyte : ∀ n, 0 < n → n < 256 → ¬(0 : UInt8) = UInt8.ofNat n := by
    intro n hpos hlt hzero
    have hvalue := congrArg UInt8.toNat hzero
    rw [UInt8.toNat_ofNat_of_lt' hlt] at hvalue
    exact Nat.ne_of_lt hpos hvalue
  change c.val.toNat ≠ 0 at h
  rw [String.utf8EncodeChar]
  split
  · rw [List.mem_singleton]
    exact hbyte _ (by omega) (by omega)
  · split
    · simp only [List.mem_cons, List.not_mem_nil, or_false, not_or]
      exact ⟨hbyte _ (by omega) (by omega), hbyte _ (by omega) (by omega)⟩
    · split
      · simp only [List.mem_cons, List.not_mem_nil, or_false, not_or]
        exact ⟨hbyte _ (by omega) (by omega), hbyte _ (by omega) (by omega),
          hbyte _ (by omega) (by omega)⟩
      · simp only [List.mem_cons, List.not_mem_nil, or_false, not_or]
        exact ⟨hbyte _ (by omega) (by omega), hbyte _ (by omega) (by omega),
          hbyte _ (by omega) (by omega), hbyte _ (by omega) (by omega)⟩

theorem zero_notMem_ofString {text : String} (h : ∀ c ∈ text.toList, c.toNat ≠ 0) :
    (0 : UInt8) ∉ Bytes.ofString text := by
  rw [Bytes.ofString_eq_flatMap, List.mem_flatMap]
  rintro ⟨c, hc, hzero⟩
  exact zero_notMem_utf8EncodeChar (h c hc) hzero

theorem toNat_ofNat_toNat {c : Char} (h : c.toNat < 128) :
    (UInt8.ofNat c.toNat).toNat = c.toNat :=
  UInt8.toNat_ofNat_of_lt' (by simp only [UInt8.size]; omega)

/-- A text has only bytes below 128 if it has only characters below 128. -/
theorem forall_byte_lt_iff_isAscii {text : String} :
    (∀ b ∈ Bytes.ofString text, b.toNat < 128) ↔ IsAscii text.toList := by
  rw [Bytes.ofString_eq_flatMap]
  constructor
  · intro h c hc
    refine Nat.lt_of_not_le fun hlarge => ?_
    obtain ⟨b, rest, hbytes, hb⟩ := exists_utf8EncodeChar_eq_cons hlarge
    have hsmall := h b (List.mem_flatMap.mpr ⟨c, hc, hbytes ▸ List.mem_cons_self⟩)
    omega
  · intro h b hb
    obtain ⟨c, hc, hb⟩ := List.mem_flatMap.mp hb
    rw [utf8EncodeChar_of_lt (h c hc), List.mem_singleton] at hb
    rw [hb, toNat_ofNat_toNat (h c hc)]
    exact h c hc

theorem flatMap_utf8EncodeChar {chars : List Char} (h : IsAscii chars) :
    chars.flatMap String.utf8EncodeChar = chars.map fun c => UInt8.ofNat c.toNat := by
  induction chars with
  | nil => rfl
  | cons c rest ih =>
      rw [IsAscii, List.forall_mem_cons] at h
      rw [List.flatMap_cons, utf8EncodeChar_of_lt h.1, ih h.2]
      rfl

theorem ofString_of_isAscii {text : String} (h : IsAscii text.toList) :
    Bytes.ofString text = text.toList.map fun c => UInt8.ofNat c.toNat := by
  rw [Bytes.ofString_eq_flatMap, flatMap_utf8EncodeChar h]

theorem ofNat_toNat_ofNat {c : Char} (h : c.toNat < 128) :
    Char.ofNat (UInt8.ofNat c.toNat).toNat = c := by
  rw [toNat_ofNat_toNat h, Char.ofNat_toNat]

theorem length_ofString_of_isAscii {text : String} (h : IsAscii text.toList) :
    (Bytes.ofString text).length = text.toList.length := by
  rw [ofString_of_isAscii h, List.length_map]

theorem map_ofNat_toNat_ofString {text : String} (h : IsAscii text.toList) :
    (Bytes.ofString text).map (fun b => Char.ofNat b.toNat) = text.toList := by
  rw [ofString_of_isAscii h, List.map_map]
  exact (List.map_congr_left fun c hc => ofNat_toNat_ofNat (h c hc)).trans (List.map_id' _)

/-- What holds only below 128 holds of the bytes of a text if it holds of its characters. -/
theorem forall_byte_iff_forall_char {P : ℕ → Prop} (hP : ∀ n, P n → n < 128) {text : String} :
    (∀ b ∈ Bytes.ofString text, P b.toNat) ↔ ∀ c ∈ text.toList, P c.toNat := by
  by_cases hascii : IsAscii text.toList
  · rw [ofString_of_isAscii hascii, List.forall_mem_map]
    refine forall₂_congr fun c hc => ?_
    rw [toNat_ofNat_toNat (hascii c hc)]
  · constructor
    · intro h
      exact absurd (forall_byte_lt_iff_isAscii.mp fun b hb => hP _ (h b hb)) hascii
    · intro h
      exact absurd (fun c hc => hP _ (h c hc)) hascii

/-! ### Letters -/

theorem isUpper_iff {c : Char} : c.isUpper = true ↔ 65 ≤ c.toNat ∧ c.toNat ≤ 90 := by
  delta Char.isUpper
  rw [decide_eq_true_eq, ge_iff_le, UInt32.le_iff_toNat_le, UInt32.le_iff_toNat_le]
  rfl

theorem isLower_iff {c : Char} : c.isLower = true ↔ 97 ≤ c.toNat ∧ c.toNat ≤ 122 := by
  delta Char.isLower
  rw [Bool.and_eq_true, decide_eq_true_eq, decide_eq_true_eq, ge_iff_le,
    UInt32.le_iff_toNat_le, UInt32.le_iff_toNat_le]
  rfl

theorem toLower_of_not_isUpper {c : Char} (h : ¬c.isUpper = true) : c.toLower = c := by
  delta Char.toLower
  delta Char.isUpper at h
  rw [dif_neg]
  rwa [decide_eq_true_eq] at h

/-- The lower form of a letter stands thirty-two places behind the upper one. -/
theorem toNat_toLower (c : Char) :
    c.toLower.toNat = if c.isUpper = true then c.toNat + 32 else c.toNat := by
  split
  · rename_i h
    obtain ⟨hfirst, hlast⟩ := isUpper_iff.mp h
    delta Char.isUpper at h
    delta Char.toLower
    rw [decide_eq_true_eq] at h
    rw [dif_pos h]
    change (c.val + 32).toNat = c.val.toNat + 32
    rw [UInt32.toNat_add]
    change (c.toNat + 32) % 2 ^ 32 = c.toNat + 32
    omega
  · rename_i h
    rw [toLower_of_not_isUpper h]

theorem not_isUpper_toLower (c : Char) : ¬c.toLower.isUpper = true := by
  rw [isUpper_iff, toNat_toLower]
  split
  · rename_i h
    rw [isUpper_iff] at h
    omega
  · rename_i h
    rwa [isUpper_iff] at h

theorem toList_toLower (text : String) : text.toLower.toList = text.toList.map Char.toLower :=
  String.toList_map

def UpperFree (text : List Char) : Prop :=
  ∀ c ∈ text, ¬c.isUpper = true

def IsMixedCase (text : List Char) : Prop :=
  (∃ c ∈ text, c.isLower = true) ∧ ∃ c ∈ text, c.isUpper = true

instance (text : List Char) : Decidable (UpperFree text) :=
  decidable_of_iff (text.all (fun c => !c.isUpper) = true) (by simp [UpperFree])

instance (text : List Char) : Decidable (IsMixedCase text) :=
  decidable_of_iff (text.any Char.isLower = true ∧ text.any Char.isUpper = true)
    (by simp [IsMixedCase])

theorem UpperFree.not_isMixedCase {text : List Char} (h : UpperFree text) :
    ¬IsMixedCase text :=
  fun ⟨_, c, hc, hupper⟩ => h c hc hupper

theorem UpperFree.map_toLower {text : List Char} (h : UpperFree text) :
    text.map Char.toLower = text := by
  rw [List.map_congr_left fun c hc => toLower_of_not_isUpper (h c hc), List.map_id']

theorem upperFree_toLower (text : String) : UpperFree text.toLower.toList := by
  intro c hc
  rw [toList_toLower, List.mem_map] at hc
  obtain ⟨d, -, rfl⟩ := hc
  exact not_isUpper_toLower d

theorem toLower_eq_self {text : String} (h : UpperFree text.toList) : text.toLower = text := by
  rw [← String.toList_inj, toList_toLower, h.map_toLower]

end Text

end Keyring
