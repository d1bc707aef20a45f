import Keyring.Identity.Address
import Keyring.Proofs.Bech32.Basic

/-!
Bech32 texts with typing mistakes.

A mistake inside six characters in a row changes the remainder of the text, wherever it
is and however long the text is. The characters themselves can still be read, so the
checksum is the first thing that is found wrong, and nothing that is looked at behind
it, be it the padding, the prefix or the length of the payload, is reported instead.
-/

namespace Keyring

open Text

namespace Bech32

/-- Whether a text is another one in which characters of the data part were replaced,
all of them in a run of six, by characters of either case that stand for values. At
least one stands for another value than before. -/
def IsMistyped (text altered : String) : Prop :=
  ∃ front left old new right : List Char,
    text.toList = front ++ separator :: (left ++ old ++ right) ∧
    altered.toList = front ++ separator :: (left ++ new ++ right) ∧
    separator ∉ left ++ old ++ right ∧ new.length = old.length ∧ old.length ≤ 6 ∧
    (∀ c ∈ new, c.toLower ∈ charset) ∧ ¬IsMixedCase altered.toList ∧
    new.map (fun c => value? c.toLower) ≠ old.map fun c => value? c.toLower

theorem exists_of_mem_charset {c : Char} (h : c ∈ charset) :
    ∃ v : UInt8, v.toNat < 2 ^ GroupWidth.quintet.bits ∧ c = symbol v := by
  cases hc : value? c with
  | none =>
      rw [value?, Option.map_eq_none_iff, List.idxOf?_eq_none_iff] at hc
      exact absurd h hc
  | some v => exact ⟨v, value?_eq_some_iff.mp hc⟩

/-- Characters of the charset, in whatever case, are those of some values. -/
theorem exists_values {chars : List Char} (h : ∀ c ∈ chars, c.toLower ∈ charset) :
    ∃ values, GroupWidth.quintet.Fits values ∧ chars.map Char.toLower = values.map symbol := by
  induction chars with
  | nil => exact ⟨[], List.forall_mem_nil _, rfl⟩
  | cons c rest ih =>
      obtain ⟨hc, hrest⟩ := List.forall_mem_cons.mp h
      obtain ⟨v, hv, hsymbol⟩ := exists_of_mem_charset hc
      obtain ⟨values, hfits, hvalues⟩ := ih hrest
      refine ⟨v :: values, GroupWidth.fits_cons.mpr ⟨hv, hfits⟩, ?_⟩
      rw [List.map_cons, List.map_cons, hsymbol, hvalues]

theorem length_eq_of_map_toLower {chars : List Char} {values : Bytes}
    (h : chars.map Char.toLower = values.map symbol) : values.length = chars.length := by
  have hlength := congrArg List.length h
  rw [List.length_map, List.length_map] at hlength
  exact hlength.symm

/-- Which values characters stand for is decided by their lower forms. -/
theorem map_value?_eq_of_map_toLower {chars others : List Char}
    (h : chars.map Char.toLower = others.map Char.toLower) :
    chars.map (fun c => value? c.toLower) = others.map fun c => value? c.toLower := by
  have hvalues := congrArg (List.map value?) h
  rw [List.map_map, List.map_map] at hvalues
  exact hvalues

/-- Where a text was cut, its data part spells the values that were read. -/
theorem map_toLower_of_split {text hrp : String} {values : Bytes} {front back : List Char}
    (h : split text = .ok (hrp, values)) (htext : text.toList = front ++ separator :: back)
    (hback : separator ∉ back) :
    front.map Char.toLower = hrp.toList ∧ back.map Char.toLower = values.map symbol := by
  obtain ⟨-, -, -, -, -, hspelling⟩ := split_eq_ok_iff.mp h
  rw [← String.toList_inj, toList_toLower, toList_spelling, htext, List.map_append,
    List.map_cons] at hspelling
  have hlower : separator ∉ back.map Char.toLower := by
    rwa [separator_mem_toLower_iff]
  have hcut := splitLast_append (front.map Char.toLower) hlower
  have hsame : (front.map Char.toLower ++ separator.toLower :: back.map Char.toLower) =
      front.map Char.toLower ++ separator :: back.map Char.toLower := rfl
  rw [← hsame, hspelling, splitLast_append _ (separator_notMem_symbols values),
    Option.some.injEq, Prod.mk.injEq] at hcut
  exact ⟨hcut.1.symm, hcut.2.symm⟩

/-- A mistyped text is cut like the text, into the same prefix and other values in a run
of at most six. -/
theorem exists_split_of_isMistyped {text altered hrp : String} {values : Bytes}
    (hsplit : split text = .ok (hrp, values)) (h : IsMistyped text altered) :
    ∃ before run others behind, values = before ++ run ++ behind ∧
      split altered = .ok (hrp, before ++ others ++ behind) ∧
      GroupWidth.quintet.Fits run ∧ GroupWidth.quintet.Fits others ∧
      others.length = run.length ∧ run.length ≤ checksumLength ∧ others ≠ run := by
  obtain ⟨front, left, old, new, right, htext, haltered, hlast, hlength, hrun, hcharset, hcase,
    hchanged⟩ := h
  obtain ⟨hfront, hback⟩ := map_toLower_of_split hsplit htext hlast
  obtain ⟨-, hvalid, hlower, hfits, hlong, -⟩ := split_eq_ok_iff.mp hsplit
  rw [List.map_append, List.map_append] at hback
  obtain ⟨start, behind, rfl, hstart, hbehind⟩ := List.map_eq_append_iff.mp hback.symm
  obtain ⟨before, run, rfl, hbefore, hold⟩ := List.map_eq_append_iff.mp hstart
  obtain ⟨others, hothers, hnew⟩ := exists_values hcharset
  rw [GroupWidth.fits_append, GroupWidth.fits_append] at hfits
  have hrunLength := length_eq_of_map_toLower hold.symm
  have hothersLength : others.length = run.length := by
    rw [length_eq_of_map_toLower hnew, hlength, hrunLength]
  -- Neither the prefix nor the length has changed, so the altered text is split as before.
  have hcut : split altered = .ok (hrp, before ++ others ++ behind) := by
    have hfitsAll : GroupWidth.quintet.Fits (before ++ others ++ behind) :=
      GroupWidth.fits_append.mpr ⟨GroupWidth.fits_append.mpr ⟨hfits.1.1, hothers⟩, hfits.2⟩
    have hlongAll : checksumLength ≤ (before ++ others ++ behind).length := by
      rw [List.length_append, List.length_append] at hlong ⊢
      omega
    refine split_eq_ok_iff.mpr ⟨hcase, hvalid, hlower, hfitsAll, hlongAll, ?_⟩
    rw [← String.toList_inj, toList_toLower, toList_spelling, haltered]
    simp only [List.map_append, List.map_cons, hfront, hbefore, ← hnew, hbehind]
    rfl
  refine ⟨before, run, others, behind, rfl, hcut, hfits.1.2, hothers, hothersLength, ?_, ?_⟩
  · exact hrunLength.le.trans hrun
  · intro hsame
    apply hchanged
    apply map_value?_eq_of_map_toLower
    rw [hnew, hsame, hold]

/-- The checksum is looked at right after a text is cut. -/
theorem decode_of_not_verifies {text hrp : String} {values : Bytes}
    (h : split text = .ok (hrp, values))
    (hchecksum : ¬verifies (Bytes.ofString hrp) values = true) :
    decode text = .error .bech32Checksum := by
  rw [decode, h]
  exact if_neg hchecksum

theorem decode_of_isMistyped {text altered hrp : String} {data : Bytes}
    (hread : decode text = .ok (hrp, data)) (h : IsMistyped text altered) :
    decode altered = .error .bech32Checksum := by
  obtain ⟨payload, hsplit, -⟩ := decode_eq_ok_iff_split.mp hread
  have hverifies : verifies (Bytes.ofString hrp) (withChecksum hrp payload) = true :=
    (verifies_append_iff (fits_checksum _ _) (length_checksum _ _)).mpr rfl
  obtain ⟨before, run, others, behind, hvalues, hcut, hrun, hothers, hlength, hshort, hne⟩ :=
    exists_split_of_isMistyped hsplit h
  apply decode_of_not_verifies hcut
  intro hsame
  rw [hvalues] at hverifies
  rw [verifies, decide_eq_true_eq] at hverifies hsame
  apply hne
  rw [← remainder_burst_iff (expandPrefix (Bytes.ofString hrp) ++ before) behind hothers hrun
    hlength hshort]
  simp only [List.append_assoc] at hsame hverifies ⊢
  rw [hsame, hverifies]

end Bech32

theorem Address.ofBech32_of_decode_error {text : String} {e : KeyError}
    (h : Bech32.decode text = .error e) (base : String) : ofBech32 base text = .error e := by
  rw [ofBech32, h]
  rfl

theorem PublicKey.ofBech32_of_decode_error {text : String} {e : KeyError}
    (h : Bech32.decode text = .error e) (base : String) : ofBech32 base text = .error e := by
  rw [ofBech32, h]
  rfl

/-- A mistyped text is reported as one with a wrong checksum, also where an address or a
public key is expected under whatever base prefix. -/
theorem mistyped_text_is_checksum_error {text altered : String} {content : String × Bytes}
    (hread : Bech32.decode text = .ok content) (h : Bech32.IsMistyped text altered) :
    Bech32.decode altered = .error .bech32Checksum ∧
      (∀ base, Address.ofBech32 base altered = .error .bech32Checksum) ∧
      ∀ base, PublicKey.ofBech32 base altered = .error .bech32Checksum := by
  have hdecode := Bech32.decode_of_isMistyped hread h
  exact ⟨hdecode, Address.ofBech32_of_decode_error hdecode,
    PublicKey.ofBech32_of_decode_error hdecode⟩

/-- The checksum of the shortest text replaced by the one that the same text has in the
later variant of the format, with another constant. -/
theorem mistyped_text_is_checksum_error_variant :
    Bech32.decode "a12uel5l" = .ok ("a", []) ∧ Bech32.IsMistyped "a12uel5l" "a1lqfn3a" ∧
      Bech32.decode "a1lqfn3a" = .error .bech32Checksum ∧
      Address.ofBech32 "link" "a1lqfn3a" = .error .bech32Checksum ∧
      PublicKey.ofBech32 "a" "a1lqfn3a" = .error .bech32Checksum := by
  have hread : Bech32.decode "a12uel5l" = .ok ("a", []) := by decide +kernel
  have hcharset : "lqfn3a".toList.all (fun c => c.toLower ∈ Bech32.charset) = true := by decide
  have hmistyped : Bech32.IsMistyped "a12uel5l" "a1lqfn3a" :=
    ⟨['a'], [], "2uel5l".toList, "lqfn3a".toList, [], by decide, by decide, by decide,
      by decide, by decide, fun c hc => of_decide_eq_true (List.all_eq_true.mp hcharset c hc),
      by decide, by decide⟩
  obtain ⟨hdecode, haddress, hkey⟩ := mistyped_text_is_checksum_error hread hmistyped
  exact ⟨hread, hmistyped, hdecode, haddress "link", hkey "a"⟩

end Keyring
