import Keyring.Bech32.Basic
import Keyring.Proofs.Outcome
import Keyring.Proofs.Text.Ascii

/-!
Which texts are accepted as a prefix, and how the case of the letters is kept
while a text is read.
-/

namespace Keyring.Bech32

open Text

/-- Whether a text can stand in front of the separator: one to eighty-three bytes,
all printable, with letters of one case. -/
structure IsPrefix (hrp : String) : Prop where
  one_le_length : 1 ≤ (Bytes.ofString hrp).length
  length_le : (Bytes.ofString hrp).length ≤ 83
  printable : ∀ b ∈ Bytes.ofString hrp, 33 ≤ b.toNat ∧ b.toNat ≤ 126
  not_isMixedCase : ¬IsMixedCase hrp.toList

namespace LetterCase

variable {seen next : LetterCase} {front back : List Char} {c : Char}

/-- Whether a state is that of the letters of a text. -/
def Describes (seen : LetterCase) (text : List Char) : Prop :=
  (seen = .lower ↔ ∃ c ∈ text, c.isLower = true) ∧
    (seen = .upper ↔ ∃ c ∈ text, c.isUpper = true)

theorem describes_nil : LetterCase.none.Describes [] := by
  simp [Describes]

/-- Exactly the texts of one case are described by a state. -/
theorem exists_describes_iff {text : List Char} :
    (∃ seen : LetterCase, seen.Describes text) ↔ ¬IsMixedCase text := by
  constructor
  · rintro ⟨seen, hlower, hupper⟩ ⟨hl, hu⟩
    rw [hlower.mpr hl] at hupper
    cases hupper.mpr hu
  · intro h
    by_cases hlower : ∃ c ∈ text, c.isLower = true
    · exact ⟨.lower, by simpa using hlower,
        by simpa using fun c hc hu => h ⟨hlower, c, hc, hu⟩⟩
    · by_cases hupper : ∃ c ∈ text, c.isUpper = true
      · exact ⟨.upper, by simpa using hlower, by simpa using hupper⟩
      · exact ⟨.none, by simpa using hlower, by simpa using hupper⟩

theorem Describes.unique {text : List Char} (hseen : seen.Describes text)
    (hnext : next.Describes text) : seen = next := by
  have hlower := hseen.1.trans hnext.1.symm
  have hupper := hseen.2.trans hnext.2.symm
  cases seen <;> cases next <;> simp at hlower hupper ⊢

theorem describes_append_singleton (h : seen.Describes front) :
    next.Describes (front ++ [c]) ↔ (next = .lower ↔ seen = .lower ∨ c.isLower = true) ∧
      (next = .upper ↔ seen = .upper ∨ c.isUpper = true) := by
  simp only [Describes, List.mem_append, List.mem_singleton, or_and_right, exists_or, h.1, h.2,
    exists_eq_left]

/-- Taking a character into account succeeds with the state of the longer text. -/
theorem see_eq_ok_iff (h : seen.Describes front) :
    seen.see c = .ok next ↔ next.Describes (front ++ [c]) := by
  rw [describes_append_singleton h, see]
  have hboth : c.isLower = true → ¬c.isUpper = true := by
    rw [isLower_iff, isUpper_iff]
    omega
  by_cases hl : c.isLower = true
  · have hu := hboth hl
    cases seen <;> cases next <;> simp [hl, hu]
  · by_cases hu : c.isUpper = true
    · cases seen <;> cases next <;> simp [hl, hu]
    · cases seen <;> cases next <;> simp [hl, hu]

theorem exists_describes_of_append (h : next.Describes (front ++ back)) :
    ∃ seen : LetterCase, seen.Describes front := by
  rw [exists_describes_iff]
  rintro ⟨⟨l, hl, hlower⟩, u, hu, hupper⟩
  exact exists_describes_iff.mp ⟨next, h⟩
    ⟨⟨l, List.mem_append_left _ hl, hlower⟩, u, List.mem_append_left _ hu, hupper⟩

end LetterCase

open LetterCase

theorem checkPrefixBytes_eq_ok_iff {seen next : LetterCase} {front : List Char} {bytes : Bytes}
    (h : seen.Describes front) :
    checkPrefixBytes seen bytes = .ok next ↔
      (∀ b ∈ bytes, 33 ≤ b.toNat ∧ b.toNat ≤ 126) ∧
        next.Describes (front ++ bytes.map fun b => Char.ofNat b.toNat) := by
  induction bytes generalizing seen front with
  | nil =>
      rw [checkPrefixBytes, Except.ok.injEq, List.map_nil, List.append_nil]
      constructor
      · rintro rfl
        exact ⟨List.forall_mem_nil _, h⟩
      · rintro ⟨-, hnext⟩
        exact h.unique hnext
  | cons b rest ih =>
      have hprintable : ¬(b < 33 ∨ 126 < b) ↔ 33 ≤ b.toNat ∧ b.toNat ≤ 126 := by
        rw [not_or, UInt8.not_lt, UInt8.not_lt, UInt8.le_iff_toNat_le, UInt8.le_iff_toNat_le]
        rfl
      rw [checkPrefixBytes, List.forall_mem_cons, ← hprintable, List.map_cons,
        List.append_cons]
      split
      · rename_i hbad
        simp [hbad]
      · rename_i hgood
        rw [bind_eq_ok_iff]
        constructor
        · rintro ⟨mid, hsee, hrest⟩
          rw [see_eq_ok_iff h] at hsee
          rw [ih hsee] at hrest
          exact ⟨⟨hgood, hrest.1⟩, hrest.2⟩
        · rintro ⟨⟨-, hrest⟩, hnext⟩
          obtain ⟨mid, hmid⟩ := exists_describes_of_append hnext
          exact ⟨mid, (see_eq_ok_iff h).mpr hmid, (ih hmid).mpr ⟨hrest, hnext⟩⟩

/-! ### Printable characters -/

/-- Printable characters are one byte each. -/
theorem printable_iff {hrp : String} :
    (∀ b ∈ Bytes.ofString hrp, 33 ≤ b.toNat ∧ b.toNat ≤ 126) ↔
      ∀ c ∈ hrp.toList, 33 ≤ c.toNat ∧ c.toNat ≤ 126 :=
  forall_byte_iff_forall_char (P := fun n => 33 ≤ n ∧ n ≤ 126) fun n hn => by omega

theorem isAscii_of_printable {chars : List Char}
    (h : ∀ c ∈ chars, 33 ≤ c.toNat ∧ c.toNat ≤ 126) : IsAscii chars :=
  fun c hc => Nat.lt_of_le_of_lt (h c hc).2 (by decide)

/-! ### Prefixes -/

/-- Checking a prefix returns the case of its letters. -/
theorem checkPrefix_eq_ok_iff {hrp : String} {seen : LetterCase} :
    checkPrefix hrp = .ok seen ↔ IsPrefix hrp ∧ seen.Describes hrp.toList := by
  have hlength : ¬((Bytes.ofString hrp).length = 0 ∨
      maxPrefixLength < (Bytes.ofString hrp).length) ↔
        1 ≤ (Bytes.ofString hrp).length ∧ (Bytes.ofString hrp).length ≤ 83 := by
    rw [maxPrefixLength]
    omega
  have hchars (h : ∀ b ∈ Bytes.ofString hrp, 33 ≤ b.toNat ∧ b.toNat ≤ 126) :=
    map_ofNat_toNat_ofString (isAscii_of_printable (printable_iff.mp h))
  simp only [checkPrefix]
  split
  · rename_i hbad
    simp only [reduceCtorEq, false_iff]
    rintro ⟨hvalid, -⟩
    exact hlength.mpr ⟨hvalid.one_le_length, hvalid.length_le⟩ hbad
  · rename_i hgood
    rw [hlength] at hgood
    rw [checkPrefixBytes_eq_ok_iff describes_nil, List.nil_append]
    constructor
    · rintro ⟨hprintable, hseen⟩
      rw [hchars hprintable] at hseen
      exact ⟨⟨hgood.1, hgood.2, hprintable, exists_describes_iff.mp ⟨seen, hseen⟩⟩, hseen⟩
    · rintro ⟨hvalid, hseen⟩
      exact ⟨hvalid.printable, (hchars hvalid.printable).symm ▸ hseen⟩

theorem exists_checkPrefix_eq_ok_iff {hrp : String} :
    (∃ seen, checkPrefix hrp = .ok seen) ↔ IsPrefix hrp := by
  simp only [checkPrefix_eq_ok_iff]
  constructor
  · rintro ⟨-, hvalid, -⟩
    exact hvalid
  · intro hvalid
    obtain ⟨seen, hseen⟩ := exists_describes_iff.mpr hvalid.not_isMixedCase
    exact ⟨seen, hvalid, hseen⟩

/-- A prefix in terms of its characters, each of which is one byte. -/
theorem isPrefix_iff {hrp : String} :
    IsPrefix hrp ↔ 1 ≤ hrp.toList.length ∧ hrp.toList.length ≤ 83 ∧
      (∀ c ∈ hrp.toList, 33 ≤ c.toNat ∧ c.toNat ≤ 126) ∧ ¬IsMixedCase hrp.toList := by
  have hlength (h : ∀ c ∈ hrp.toList, 33 ≤ c.toNat ∧ c.toNat ≤ 126) :=
    length_ofString_of_isAscii (isAscii_of_printable h)
  constructor
  · rintro ⟨hpos, hle, hprintable, hcase⟩
    rw [printable_iff] at hprintable
    rw [hlength hprintable] at hpos hle
    exact ⟨hpos, hle, hprintable, hcase⟩
  · rintro ⟨hpos, hle, hprintable, hcase⟩
    rw [← hlength hprintable] at hpos hle
    exact ⟨hpos, hle, printable_iff.mpr hprintable, hcase⟩

instance (hrp : String) : Decidable (IsPrefix hrp) :=
  decidable_of_iff (1 ≤ hrp.toList.length ∧ hrp.toList.length ≤ 83 ∧
    hrp.toList.all (fun c => 33 ≤ c.toNat && c.toNat ≤ 126) = true ∧ ¬IsMixedCase hrp.toList)
    (by simp [isPrefix_iff])

/-- The case of the letters apart, a text is a prefix if its lower form is. -/
theorem isPrefix_iff_toLower {hrp : String} :
    IsPrefix hrp ↔ IsPrefix hrp.toLower ∧ ¬IsMixedCase hrp.toList := by
  have hprintable : (∀ c ∈ hrp.toLower.toList, 33 ≤ c.toNat ∧ c.toNat ≤ 126) ↔
      ∀ c ∈ hrp.toList, 33 ≤ c.toNat ∧ c.toNat ≤ 126 := by
    rw [toList_toLower, List.forall_mem_map]
    refine forall₂_congr fun c _ => ?_
    rw [toNat_toLower]
    split
    · rename_i hupper
      rw [isUpper_iff] at hupper
      omega
    · rfl
  have hlower : ¬IsMixedCase hrp.toLower.toList :=
    (upperFree_toLower hrp).not_isMixedCase
  rw [isPrefix_iff, isPrefix_iff, hprintable, toList_toLower, List.length_map,
    ← toList_toLower]
  simp only [hlower, not_false_eq_true, and_true, and_assoc]

end Keyring.Bech32
