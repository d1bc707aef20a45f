import Keyring.Proofs.Bech32.Checksum
import Keyring.Proofs.Bech32.Prefix
import Mathlib.Data.List.GetD

/-!
Writing and reading a bech32 text are inverse.

Reading is described from the inside out: which character stands for a value,
which characters are read to which values, where the text is cut, and how the
checksum and the padding come off. Each step accepts exactly what the matching
step of writing makes, up to the case of the letters.
-/

namespace Keyring.Bech32

open Text
open LetterCase hiding none

/-! ### Characters -/

theorem idxOf?_symbol :
    ∀ v : Fin 32, charset.idxOf? (symbol (UInt8.ofNat v)) = some v.val := by
  decide

theorem forall_mem_charset :
    ∀ c ∈ charset, c ≠ separator ∧ ¬c.isUpper = true ∧ c.toNat < 128 := by
  have hall : charset.all (fun c => c ≠ separator ∧ ¬c.isUpper = true ∧ c.toNat < 128) =
      true := by
    decide
  exact fun c hc => of_decide_eq_true (List.all_eq_true.mp hall c hc)

/-- A character is read to the value that it is written for. -/
theorem value?_eq_some_iff {c : Char} {v : UInt8} :
    value? c = some v ↔ v.toNat < 2 ^ GroupWidth.quintet.bits ∧ c = symbol v := by
  have hlength : charset.length = 32 := by decide
  rw [value?, Option.map_eq_some_iff]
  constructor
  · rintro ⟨i, hi, rfl⟩
    obtain ⟨hlt, rfl, -⟩ := List.idxOf?_eq_some_iff.mp hi
    have hv : (UInt8.ofNat i).toNat = i :=
      UInt8.toNat_ofNat_of_lt' (by simp only [UInt8.size]; omega)
    refine ⟨by rw [hv]; exact hlt.trans_eq hlength, ?_⟩
    rw [symbol, hv, List.getD_eq_getElem _ _ hlt]
  · rintro ⟨hv, rfl⟩
    have hindex := idxOf?_symbol ⟨v.toNat, hv⟩
    rw [UInt8.ofNat_toNat] at hindex
    exact ⟨v.toNat, hindex, UInt8.ofNat_toNat⟩

theorem symbol_mem_charset (v : UInt8) : symbol v ∈ charset := by
  by_cases h : v.toNat < charset.length
  · rw [symbol, List.getD_eq_getElem _ _ h]
    exact List.getElem_mem h
  · rw [symbol, List.getD_eq_default _ _ (Nat.not_lt.mp h)]
    decide

/-- The separator is the only character whose lower form is the separator. -/
theorem eq_separator_of_toLower {c : Char} (h : c.toLower = separator) : c = separator := by
  by_cases hc : c.isUpper = true
  · have hnat := congrArg Char.toNat h
    rw [toNat_toLower, if_pos hc] at hnat
    change c.toNat + 32 = 49 at hnat
    rw [isUpper_iff] at hc
    omega
  · rwa [toLower_of_not_isUpper hc] at h

theorem separator_notMem_symbols (values : Bytes) : separator ∉ values.map symbol := by
  intro hmem
  obtain ⟨v, -, hv⟩ := List.mem_map.mp hmem
  exact (forall_mem_charset _ (symbol_mem_charset v)).1 hv

theorem separator_mem_toLower_iff {chars : List Char} :
    separator ∈ chars.map Char.toLower ↔ separator ∈ chars := by
  constructor
  · intro hmem
    obtain ⟨c, hc, hlower⟩ := List.mem_map.mp hmem
    exact eq_separator_of_toLower hlower ▸ hc
  · exact fun hmem => List.mem_map.mpr ⟨separator, hmem, rfl⟩

theorem separator_notMem {chars : List Char} {values : Bytes}
    (h : chars.map Char.toLower = values.map symbol) : separator ∉ chars := by
  rw [← separator_mem_toLower_iff, h]
  exact separator_notMem_symbols values

/-! ### Reading values -/

theorem readValues_cons_eq_ok_iff {seen : LetterCase} {c : Char} {rest : List Char}
    {values : Bytes} :
    readValues seen (c :: rest) = .ok values ↔
      c.toNat < 128 ∧ ∃ next, seen.see c = .ok next ∧ ∃ v, value? c.toLower = some v ∧
        ∃ tail, readValues next rest = .ok tail ∧ values = v :: tail := by
  rw [readValues]
  split
  · rename_i hlarge
    simp [Nat.not_lt.mpr hlarge]
  · rename_i hsmall
    rw [bind_eq_ok_iff, and_iff_right (Nat.lt_of_not_le hsmall)]
    refine exists_congr fun next => and_congr_right fun _ => ?_
    cases value? c.toLower with
    | none => simp
    | some v =>
        simp only [bind_eq_ok_iff, Option.some.injEq, exists_eq_left']
        refine exists_congr fun tail => and_congr_right fun _ => ?_
        exact ⟨fun h => (Except.ok.inj h).symm, fun h => congrArg _ h.symm⟩

/-- The characters of one case are read to exactly the values that are written as
their lower forms. -/
theorem readValues_eq_ok_iff {seen : LetterCase} {front chars : List Char} {values : Bytes}
    (h : seen.Describes front) :
    readValues seen chars = .ok values ↔
      ¬IsMixedCase (front ++ chars) ∧ GroupWidth.quintet.Fits values ∧
        chars.map Char.toLower = values.map symbol := by
  -- Along the characters, with the case that those in front of them have shown.
  induction chars generalizing seen front values with
  | nil =>
      rw [readValues, List.append_nil, List.map_nil, eq_comm, Except.ok.injEq,
        eq_comm (a := []), List.map_eq_nil_iff]
      constructor
      · rintro rfl
        exact ⟨exists_describes_iff.mp ⟨seen, h⟩, List.forall_mem_nil _, rfl⟩
      · rintro ⟨-, -, rfl⟩
        rfl
  | cons c rest ih =>
      rw [readValues_cons_eq_ok_iff, List.append_cons]
      constructor
      · rintro ⟨-, next, hsee, v, hv, tail, htail, rfl⟩
        rw [see_eq_ok_iff h] at hsee
        obtain ⟨hcase, hfits, hmap⟩ := (ih hsee).mp htail
        rw [value?_eq_some_iff] at hv
        exact ⟨hcase, GroupWidth.fits_cons.mpr ⟨hv.1, hfits⟩, congrArg₂ _ hv.2 hmap⟩
      · rintro ⟨hcase, hfits, hmap⟩
        cases values with
        | nil => cases hmap
        | cons v tail =>
            rw [GroupWidth.fits_cons] at hfits
            rw [List.map_cons, List.map_cons, List.cons.injEq] at hmap
            have hsmall : c.toLower.toNat < 128 :=
              hmap.1 ▸ (forall_mem_charset _ (symbol_mem_charset v)).2.2
            obtain ⟨last, hlast⟩ := exists_describes_iff.mpr hcase
            obtain ⟨next, hnext⟩ := exists_describes_of_append hlast
            refine ⟨?_, next, (see_eq_ok_iff h).mpr hnext, v,
              value?_eq_some_iff.mpr ⟨hfits.1, hmap.1⟩, tail,
              (ih hnext).mpr ⟨hcase, hfits.2, hmap.2⟩, rfl⟩
            rw [toNat_toLower] at hsmall
            split at hsmall <;> omega

/-! ### Cutting a text -/

theorem splitLast_eq_none_iff {text : List Char} :
    splitLast text = none ↔ separator ∉ text := by
  induction text with
  | nil => simp [splitLast]
  | cons c rest ih =>
      rw [splitLast, List.mem_cons, not_or, ← ih]
      cases splitLast rest with
      | some parts => simp
      | none => by_cases hc : separator = c <;> simp [hc, eq_comm (a := c)]

theorem splitLast_append (front : List Char) {back : List Char} (h : separator ∉ back) :
    splitLast (front ++ separator :: back) = some (front, back) := by
  induction front with
  | nil => rw [List.nil_append, splitLast, splitLast_eq_none_iff.mpr h, if_pos rfl]
  | cons c front ih => rw [List.cons_append, splitLast, ih]

/-- A text is cut at its last separator. -/
theorem splitLast_eq_some_iff {text front back : List Char} :
    splitLast text = some (front, back) ↔ text = front ++ separator :: back ∧
      separator ∉ back := by
  constructor
  · intro h
    induction text generalizing front with
    | nil => cases h
    | cons c rest ih =>
        rw [splitLast] at h
        split at h
        · rename_i hrest
          cases h
          obtain ⟨rfl, hback⟩ := ih hrest
          exact ⟨rfl, hback⟩
        · rename_i hrest
          split at h
          · rename_i hc
            cases h
            exact ⟨congrArg (List.cons · back) hc, splitLast_eq_none_iff.mp hrest⟩
          · cases h
  · rintro ⟨rfl, hback⟩
    exact splitLast_append front hback

theorem isMixedCase_separator_iff {front back : List Char} :
    IsMixedCase (front ++ separator :: back) ↔ IsMixedCase (front ++ back) := by
  simp [IsMixedCase, separator, or_and_right, exists_or]

def spelling (hrp : String) (values : Bytes) : String :=
  hrp ++ String.ofList (separator :: values.map symbol)

theorem toList_spelling (hrp : String) (values : Bytes) :
    (spelling hrp values).toList = hrp.toList ++ separator :: values.map symbol := by
  rw [spelling, String.toList_append, String.toList_ofList]

/-- A text is cut into a prefix and values exactly if it spells them, in whatever
case. -/
theorem split_eq_ok_iff {text hrp : String} {values : Bytes} :
    split text = .ok (hrp, values) ↔
      ¬IsMixedCase text.toList ∧ IsPrefix hrp ∧ UpperFree hrp.toList ∧
        GroupWidth.quintet.Fits values ∧ checksumLength ≤ values.length ∧
          text.toLower = spelling hrp values := by
  rw [← String.toList_inj, toList_toLower, toList_spelling, split]
  constructor
  · intro h
    split at h
    · cases h
    · rename_i front back hsplit
      obtain ⟨htext, -⟩ := splitLast_eq_some_iff.mp hsplit
      obtain ⟨seen, hcheck, h⟩ := bind_eq_ok_iff.mp h
      obtain ⟨all, hread, h⟩ := bind_eq_ok_iff.mp h
      obtain ⟨hvalid, hseen⟩ := checkPrefix_eq_ok_iff.mp hcheck
      rw [String.toList_ofList] at hseen
      obtain ⟨hcase, hfits, hmap⟩ := (readValues_eq_ok_iff hseen).mp hread
      split at h
      · cases h
      · rename_i hlength
        cases h
        refine ⟨?_, (isPrefix_iff_toLower.mp hvalid).1, upperFree_toLower _, hfits,
          Nat.not_lt.mp hlength, ?_⟩
        · rwa [htext, isMixedCase_separator_iff]
        · rw [htext, List.map_append, List.map_cons, hmap, toList_toLower,
            String.toList_ofList]
          rfl
  · rintro ⟨hcase, hvalid, hlower, hfits, hlength, htext⟩
    -- Lower case keeps all places, so the text is cut where its lower form is.
    obtain ⟨front, rest, hfront, hhrp, hrest⟩ := List.map_eq_append_iff.mp htext
    obtain ⟨c, back, rfl, hc, hback⟩ := List.map_eq_cons_iff.mp hrest
    obtain rfl := eq_separator_of_toLower hc
    rw [hfront, isMixedCase_separator_iff] at hcase
    have hspelled : (String.ofList front).toLower = hrp := by
      rw [← String.toList_inj, toList_toLower, String.toList_ofList, hhrp]
    obtain ⟨last, hlast⟩ := exists_describes_iff.mpr hcase
    obtain ⟨seen, hseen⟩ := exists_describes_of_append hlast
    have hcheck : checkPrefix (String.ofList front) = .ok seen := by
      rw [checkPrefix_eq_ok_iff, isPrefix_iff_toLower, hspelled, String.toList_ofList]
      exact ⟨⟨hvalid, exists_describes_iff.mp ⟨seen, hseen⟩⟩, hseen⟩
    rw [splitLast_eq_some_iff.mpr ⟨hfront, separator_notMem hback⟩]
    have hread : readValues seen back = .ok values :=
      (readValues_eq_ok_iff hseen).mpr ⟨hcase, hfits, hback⟩
    refine bind_eq_ok_iff.mpr ⟨seen, hcheck, bind_eq_ok_iff.mpr ⟨values, hread, ?_⟩⟩
    rw [if_neg (Nat.not_lt.mpr hlength), hspelled]
    rfl

/-! ### Writing and reading -/

def withChecksum (hrp : String) (values : Bytes) : Bytes :=
  values ++ checksum (Bytes.ofString hrp) values

theorem assemble_eq_ok_iff {hrp text : String} {values : Bytes} :
    assemble hrp values = .ok text ↔
      IsPrefix hrp ∧ text = spelling hrp.toLower (withChecksum hrp.toLower values) := by
  rw [← exists_checkPrefix_eq_ok_iff, assemble, bind_eq_ok_iff]
  constructor
  · rintro ⟨seen, hcheck, htext⟩
    exact ⟨⟨seen, hcheck⟩, (Except.ok.inj htext).symm⟩
  · rintro ⟨⟨seen, hcheck⟩, rfl⟩
    exact ⟨seen, hcheck, rfl⟩

theorem encode_eq_ok_iff {hrp text : String} {data : Bytes} :
    encode hrp data = .ok text ↔
      IsPrefix hrp ∧ ∃ values, regroup .byte .quintet .fill data = .ok values ∧
        text = spelling hrp.toLower (withChecksum hrp.toLower values) := by
  simp only [encode, bind_eq_ok_iff, mapError_eq_ok_iff, assemble_eq_ok_iff]
  constructor
  · rintro ⟨values, hvalues, hvalid, htext⟩
    exact ⟨hvalid, values, hvalues, htext⟩
  · rintro ⟨hvalid, values, hvalues, htext⟩
    exact ⟨values, hvalues, hvalid, htext⟩

theorem fits_withChecksum (hrp : String) {values : Bytes}
    (h : GroupWidth.quintet.Fits values) :
    GroupWidth.quintet.Fits (withChecksum hrp values) :=
  GroupWidth.fits_append.mpr ⟨h, fits_checksum _ _⟩

/-- A text is read if its values end in the checksum of the others, which are
regrouped. -/
theorem decode_eq_ok_iff_split {text hrp : String} {data : Bytes} :
    decode text = .ok (hrp, data) ↔
      ∃ values, split text = .ok (hrp, withChecksum hrp values) ∧
        regroup .quintet .byte .drop values = .ok data := by
  have htake : ∀ values six : Bytes, six.length = checksumLength →
      (values ++ six).take ((values ++ six).length - checksumLength) = values :=
    fun values six hsix => List.take_left'
      (by rw [List.length_append, hsix, Nat.add_sub_cancel])
  rw [decode, bind_eq_ok_iff]
  simp only [mapError_eq_ok_iff]
  constructor
  · rintro ⟨⟨hrp, all⟩, hsplit, h⟩
    obtain ⟨-, -, -, hfits, hlength, -⟩ := split_eq_ok_iff.mp hsplit
    obtain ⟨values, six, rfl, hsix⟩ :
        ∃ values six, all = values ++ six ∧ six.length = checksumLength :=
      ⟨all.take (all.length - checksumLength), all.drop (all.length - checksumLength),
        (List.take_append_drop _ _).symm, by rw [List.length_drop]; omega⟩
    rw [GroupWidth.fits_append] at hfits
    simp only [htake values six hsix, verifies_append_iff hfits.2 hsix] at h
    split at h
    · rename_i hchecksum
      obtain ⟨data, hregroup, h⟩ := bind_eq_ok_iff.mp h
      cases h
      exact ⟨values, by rwa [withChecksum, ← hchecksum], hregroup⟩
    · cases h
  · rintro ⟨values, hsplit, hregroup⟩
    have hverifies : verifies (Bytes.ofString hrp) (withChecksum hrp values) = true :=
      (verifies_append_iff (fits_checksum _ _) (length_checksum _ _)).mpr rfl
    refine ⟨_, hsplit, ?_⟩
    simp only [hverifies, if_true]
    rw [withChecksum, htake values _ (length_checksum _ _), hregroup]
    rfl

/-- A text is read to exactly the prefix and the payload that are written as its
lower form. -/
theorem decode_eq_ok_iff {text hrp : String} {data : Bytes} :
    decode text = .ok (hrp, data) ↔
      ¬IsMixedCase text.toList ∧ UpperFree hrp.toList ∧
        encode hrp data = .ok text.toLower := by
  rw [decode_eq_ok_iff_split, encode_eq_ok_iff]
  constructor
  · rintro ⟨values, hsplit, hregroup⟩
    obtain ⟨hcase, hvalid, hlower, -, -, htext⟩ := split_eq_ok_iff.mp hsplit
    rw [regroup_drop_iff_regroup_fill (by decide)] at hregroup
    rw [toLower_eq_self hlower]
    exact ⟨hcase, hlower, hvalid, values, hregroup, htext⟩
  · rintro ⟨hcase, hlower, hvalid, values, hregroup, htext⟩
    rw [toLower_eq_self hlower] at htext
    refine ⟨values, split_eq_ok_iff.mpr ⟨hcase, hvalid, hlower, ?_, ?_, htext⟩, ?_⟩
    · exact fits_withChecksum hrp (regroup_eq_ok_iff.mp hregroup).2.1
    · rw [withChecksum, List.length_append, length_checksum]
      omega
    · rwa [regroup_drop_iff_regroup_fill (by decide)]

theorem upperFree_spelling {hrp : String} (h : UpperFree hrp.toList) (values : Bytes) :
    UpperFree (spelling hrp values).toList := by
  rw [UpperFree, toList_spelling, List.forall_mem_append, List.forall_mem_cons,
    List.forall_mem_map]
  exact ⟨h, by decide, fun v _ => (forall_mem_charset _ (symbol_mem_charset v)).2.1⟩

/-- What is written is in lower case, and is the same for the lower form of the
prefix. -/
theorem encode_toLower {hrp text : String} {data : Bytes} (h : encode hrp data = .ok text) :
    UpperFree text.toList ∧ encode hrp.toLower data = .ok text := by
  obtain ⟨hvalid, values, hvalues, rfl⟩ := encode_eq_ok_iff.mp h
  have hlower : hrp.toLower.toLower = hrp.toLower := toLower_eq_self (upperFree_toLower hrp)
  refine ⟨upperFree_spelling (upperFree_toLower hrp) _, ?_⟩
  rw [encode_eq_ok_iff, hlower]
  exact ⟨(isPrefix_iff_toLower.mp hvalid).1, values, hvalues, rfl⟩

theorem decode_of_encode {hrp text : String} {data : Bytes} (h : encode hrp data = .ok text) :
    decode text = .ok (hrp.toLower, data) := by
  obtain ⟨hlower, hencode⟩ := encode_toLower h
  rw [decode_eq_ok_iff, toLower_eq_self hlower]
  exact ⟨hlower.not_isMixedCase, upperFree_toLower hrp, hencode⟩

theorem exists_encode {hrp : String} (h : IsPrefix hrp) (data : Bytes) :
    ∃ text, encode hrp data = .ok text := by
  have hregroup : ∃ values, regroup .byte .quintet .fill data = .ok values :=
    exists_regroup_fill_eq_ok (GroupWidth.fits_byte data)
  obtain ⟨values, hvalues⟩ := hregroup
  exact ⟨_, encode_eq_ok_iff.mpr ⟨h, values, hvalues, rfl⟩⟩

/-- Exactly the prefixes are written, and what is written is read again. A text is
read to what is written as its lower form, and to nothing else, so that a prefix
and a payload have one text in lower case. -/
theorem writing_and_reading_are_inverse :
    (∀ hrp data, (∃ text, encode hrp data = .ok text) ↔ IsPrefix hrp) ∧
    (∀ hrp data text, encode hrp data = .ok text → decode text = .ok (hrp.toLower, data)) ∧
    (∀ text hrp data, decode text = .ok (hrp, data) ↔
      ¬IsMixedCase text.toList ∧ UpperFree hrp.toList ∧
        encode hrp data = .ok text.toLower) ∧
    ∀ hrp data, IsPrefix hrp → UpperFree hrp.toList →
      ∃ text : String, UpperFree text.toList ∧
        ∀ other : String, decode other = .ok (hrp, data) ↔
          ¬IsMixedCase other.toList ∧ other.toLower = text := by
  refine ⟨fun hrp data => ?_, fun hrp data text => decode_of_encode,
    fun text hrp data => decode_eq_ok_iff, fun hrp data hvalid hlower => ?_⟩
  · refine ⟨?_, fun hvalid => exists_encode hvalid data⟩
    rintro ⟨text, htext⟩
    exact (encode_eq_ok_iff.mp htext).1
  obtain ⟨text, htext⟩ := exists_encode hvalid data
  refine ⟨text, (encode_toLower htext).1, fun other => ?_⟩
  rw [decode_eq_ok_iff, htext, Except.ok.injEq, and_iff_right hlower, eq_comm (a := text)]

/-- The shortest prefix and no payload, read in upper case. -/
theorem writing_and_reading_are_inverse_a :
    encode "a" [] = .ok "a12uel5l" ∧ decode "a12uel5l" = .ok ("a", []) ∧
      decode "A12UEL5L" = .ok ("a", []) ∧
        ∃ text : String, ∀ other : String, decode other = .ok ("a", []) ↔
          ¬IsMixedCase other.toList ∧ other.toLower = text := by
  have hencode : encode "a" [] = .ok "a12uel5l" := by decide +kernel
  have hvalid : IsPrefix "a" := (writing_and_reading_are_inverse.1 "a" []).mp ⟨_, hencode⟩
  have hlower : UpperFree "a".toList := by decide
  have hread := writing_and_reading_are_inverse.2.1 "a" [] _ hencode
  rw [toLower_eq_self hlower] at hread
  obtain ⟨text, -, htext⟩ := writing_and_reading_are_inverse.2.2.2 "a" [] hvalid hlower
  refine ⟨hencode, hread, ?_, text, htext⟩
  exact (writing_and_reading_are_inverse.2.2.1 "A12UEL5L" "a" []).mpr
    ⟨by decide, hlower, by decide +kernel⟩

end Keyring.Bech32
