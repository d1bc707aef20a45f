import Keyring.Proofs.Armor.Checksum
import Keyring.Proofs.Armor.Envelope
import Mathlib.Data.List.Forall2

/-!
The text of an envelope in which some symbols are replaced.

Four symbols in a row are twenty-four bits in a row, wherever the lines and the bytes
end. If such a run in the body is changed and the body can be read at all, it is read
to bytes whose bits differ from the old ones in one burst, which the checksum shows. If
the checksum itself is changed, it is read to other bytes or not at all.
-/

namespace Keyring

namespace Base64

/-- Whether a text is another one in which symbols are replaced by symbols. -/
def Replaces (text altered : List Char) : Prop :=
  List.Forall₂ (fun c d => c = d ∨ c ∈ alphabet ∧ d ∈ alphabet) text altered

variable {text altered : List Char}

theorem replaces_refl (text : List Char) : Replaces text text :=
  List.forall₂_same.mpr fun _ _ => .inl rfl

theorem Replaces.append {front other : List Char} (h : Replaces front other)
    (hback : Replaces text altered) : Replaces (front ++ text) (other ++ altered) :=
  List.rel_append h hback

theorem Replaces.exists_append {front : List Char} (h : Replaces (front ++ text) altered) :
    ∃ first second, altered = first ++ second ∧ Replaces front first ∧
      Replaces text second := by
  have hfirst := List.forall₂_take front.length h
  have hsecond := List.forall₂_drop front.length h
  rw [List.take_left] at hfirst
  rw [List.drop_left] at hsecond
  exact ⟨_, _, (List.take_append_drop front.length altered).symm, hfirst, hsecond⟩

theorem exists_related_of_mem {α β : Type} {R : α → β → Prop} {list : List α} {others : List β}
    (h : List.Forall₂ R list others) {b : β} (hb : b ∈ others) : ∃ a ∈ list, R a b := by
  induction h with
  | nil => cases hb
  | @cons a b' list others hfirst hrest ih =>
      rcases List.mem_cons.mp hb with rfl | hb
      · exact ⟨a, List.mem_cons_self, hfirst⟩
      · obtain ⟨other, hother, h⟩ := ih hb
        exact ⟨other, List.mem_cons_of_mem a hother, h⟩

theorem Replaces.mem (h : Replaces text altered) {c : Char} (hc : c ∈ altered) :
    c ∈ text ∨ c ∈ alphabet := by
  obtain ⟨d, hd, rfl | ⟨-, hsymbol⟩⟩ := exists_related_of_mem h hc
  · exact .inl hd
  · exact .inr hsymbol

/-- A symbol is replaced by a symbol, and another character stays. -/
theorem value?_replaced {c d : Char} (h : c = d ∨ c ∈ alphabet ∧ d ∈ alphabet) :
    (value? c = none ∧ c = d) ∨ ∃ v w, value? c = some v ∧ value? d = some w := by
  rcases h with rfl | ⟨hc, hd⟩
  · cases hc : value? c with
    | none => exact .inl ⟨rfl, rfl⟩
    | some v => exact .inr ⟨v, v, rfl, rfl⟩
  · obtain ⟨v, hv⟩ := exists_value?_of_mem hc
    obtain ⟨w, hw⟩ := exists_value?_of_mem hd
    exact .inr ⟨v, w, hv, hw⟩

theorem Replaces.length_values (h : Replaces text altered) :
    (values altered).length = (values text).length := by
  induction h with
  | nil => rfl
  | cons hfirst hrest ih =>
      rcases value?_replaced hfirst with ⟨hnone, rfl⟩ | ⟨v, w, hv, hw⟩
      · rw [values, values, List.filterMap_cons_none hnone, List.filterMap_cons_none hnone]
        exact ih
      · rw [values, values, List.filterMap_cons_some hv, List.filterMap_cons_some hw,
          List.length_cons, List.length_cons]
        exact congrArg _ ih

/-- Other symbols have other values. -/
theorem Replaces.values_inj (h : Replaces text altered) :
    values text = values altered ↔ text = altered := by
  constructor
  · intro hvalues
    induction h with
    | nil => rfl
    | @cons c d _ _ hfirst hrest ih =>
        rcases value?_replaced hfirst with ⟨hnone, rfl⟩ | ⟨v, w, hv, hw⟩
        · rw [values, values, List.filterMap_cons_none hnone, List.filterMap_cons_none hnone]
            at hvalues
          rw [ih hvalues]
        · rw [values, values, List.filterMap_cons_some hv,
            List.filterMap_cons_some hw] at hvalues
          obtain ⟨hvalue, hrest⟩ := List.cons.inj hvalues
          rw [ih hrest, ← symbol_of_value? hv, ← symbol_of_value? hw, hvalue]
  · rintro rfl
    rfl

/-! ### Lines -/

theorem values_unlines (list : List (List Char)) :
    values (Text.unlines list) = values list.flatten := by
  induction list with
  | nil => rfl
  | cons line rest ih =>
      rw [Text.unlines_cons, List.flatten_cons, values_append, values_append, ← ih]
      rfl

/-- Line feeds stay where they are. -/
theorem Replaces.exists_unlines {list : List (List Char)}
    (h : Replaces (Text.unlines list) altered) :
    ∃ pieces, altered = Text.unlines pieces ∧ List.Forall₂ Replaces list pieces := by
  induction list generalizing altered with
  | nil =>
      cases h
      exact ⟨[], rfl, .nil⟩
  | cons line rest ih =>
      rw [Text.unlines_cons] at h
      obtain ⟨first, second, rfl, hfirst, hsecond⟩ := h.exists_append
      obtain ⟨c, behind, hfeed, hbehind, rfl⟩ := List.forall₂_cons_left_iff.mp hsecond
      obtain rfl : '\n' = c := hfeed.resolve_right fun hmem => absurd hmem.1 (by decide)
      obtain ⟨pieces, rfl, hpieces⟩ := ih hbehind
      exact ⟨first :: pieces, (Text.unlines_cons first pieces).symm, .cons hfirst hpieces⟩

end Base64

namespace Envelope

open Armor Base64

/-! ### The checksum shows a burst -/

/-- Bodies whose forms differ in a run of at most four symbols have different checksums. -/
theorem checksumBlock_ne {body other front old new back : Bytes}
    (hbody : values (encode body) = front ++ old ++ back)
    (hother : values (encode other) = front ++ new ++ back) (hlength : new.length = old.length)
    (hold : old.length ≤ 4) (hne : new ≠ old) : checksumBlock other ≠ checksumBlock body := by
  have hbytes : other.length = body.length := by
    apply length_eq_of_length_values
    simp only [hbody, hother, List.length_append, hlength]
  have hspare : spareBits other = spareBits body := by rw [spareBits, spareBits, hbytes]
  have hbits := spell_values_encode body
  have hbits' := spell_values_encode other
  have hfits := fits_values (encode body)
  have hfits' := fits_values (encode other)
  rw [hbody] at hbits hfits
  rw [hother] at hbits' hfits'
  simp only [GroupWidth.spell_append, GroupWidth.fits_append] at hbits hbits' hfits hfits'
  intro hchecksum
  rw [checksumBlock_inj, crc24_eq, crc24_eq] at hchecksum
  -- Reading the spare bits, too, makes the two sequences those that the symbols spell.
  have hread : (Bits.ofBytes other ++ List.replicate (spareBits other) false).foldl takeBit
        checksumStart =
      (Bits.ofBytes body ++ List.replicate (spareBits body) false).foldl takeBit
        checksumStart := by
    rw [List.foldl_append, List.foldl_append, hchecksum, hspare]
  rw [← hbits, ← hbits', foldl_takeBit_burst isRegister_checksumStart _ _
    (by rw [GroupWidth.length_spell, GroupWidth.length_spell, hlength])
    (by rw [GroupWidth.length_spell, hlength]; exact Nat.mul_le_mul_left 6 hold)] at hread
  exact hne ((GroupWidth.toNat_spell_inj hfits'.1.2 hfits.1.2 hlength).mp
    (congrArg Bits.toNat hread))

/-! ### Altered texts -/

def bodyText (body : Bytes) : List Char :=
  Text.unlines (bodyLines body)

def checksumText (body : Bytes) : List Char :=
  encode (checksumBlock body).bytes

/-- The text of an envelope with other characters in place of its body and its checksum. -/
def renderWith (envelope : Envelope) (body checksum : List Char) : String :=
  String.ofList (Text.unlines (beginLine :: envelope.headers.entries.map headerLine ++ [[]]) ++
    body ++ Text.unlines [checksumMark :: checksum, endLine])

theorem renderWith_unlines (envelope : Envelope) (pieces : List Line) (checksum : Line) :
    envelope.renderWith (Text.unlines pieces) checksum =
      String.ofList (Text.unlines (envelope.linesWith pieces checksum)) := by
  rw [renderWith, linesWith]
  simp [Text.unlines]

theorem render_eq_renderWith (envelope : Envelope) :
    envelope.render =
      envelope.renderWith (bodyText envelope.body) (checksumText envelope.body) := by
  rw [bodyText, renderWith_unlines, checksumText, render, lines_eq_linesWith]

variable {envelope : Envelope}

theorem isBodyLine_of_replaces {line piece : Line} {body : Bytes}
    (hline : line ∈ bodyLines body) (h : Replaces line piece) : IsBodyLine piece := by
  obtain ⟨c, rest, rfl, hc⟩ := exists_cons_of_mem_bodyLines hline
  obtain ⟨d, behind, hfirst, -, rfl⟩ := List.forall₂_cons_left_iff.mp h
  refine isBodyLine_cons ?_ behind
  rcases hfirst with rfl | ⟨-, hd⟩
  · exact hc
  · exact hd

theorem not_isBlank_of_replaces {line piece : Line}
    (hline : ∀ c ∈ line, Text.isBlank c = false) (h : Replaces line piece) :
    ∀ c ∈ piece, Text.isBlank c = false := by
  intro c hc
  rcases h.mem hc with hc | hc
  · exact hline c hc
  · exact isBlank_symbol hc

/-- Lines stay legible when symbols in them are replaced by symbols. -/
theorem isLegible_of_replaces {body : Bytes} {pieces : List Line} {checksum : Line}
    (hpieces : List.Forall₂ Replaces (bodyLines body) pieces)
    (hchecksum : Replaces (checksumText body) checksum) : IsLegible pieces checksum where
  isBodyLine := by
    intro piece hpiece
    obtain ⟨line, hline, h⟩ := exists_related_of_mem hpieces hpiece
    exact isBodyLine_of_replaces hline h
  not_isBlank := by
    intro piece hpiece
    obtain ⟨line, hline, h⟩ := exists_related_of_mem hpieces hpiece
    exact not_isBlank_of_replaces (not_isBlank_of_mem_bodyLines hline) h
  not_isBlank_checksum := not_isBlank_of_replaces (fun _ hc => isBlank_base64 hc) hchecksum

/-- An altered text that is accepted holds the form of a body and its checksum. -/
theorem parse_renderWith (hplain : ∀ entry ∈ envelope.headers.entries, IsPlain entry.1 entry.2)
    {altered checksum : List Char} (hbody : Replaces (bodyText envelope.body) altered)
    (hchecksum : Replaces (checksumText envelope.body) checksum) :
    (∃ defect, parse (envelope.renderWith altered checksum) = .error (.corruptArmor defect)) ∨
      ∃ other, values altered = values (encode other) ∧ checksum = checksumText other := by
  obtain ⟨pieces, rfl, hpieces⟩ := hbody.exists_unlines
  rw [renderWith_unlines, parse_linesWith hplain (isLegible_of_replaces hpieces hchecksum)]
  cases hdecode : decodeBody pieces.flatten checksum with
  | error defect => exact .inl ⟨defect, rfl⟩
  | ok other =>
      obtain ⟨hencode, hblock⟩ := decodeBody_eq_ok_iff.mp hdecode
      exact .inr ⟨other, by rw [values_unlines, hencode], hblock⟩

theorem values_bodyText (body : Bytes) : values (bodyText body) = values (encode body) := by
  rw [bodyText, values_unlines, bodyLines, Bytes.flatten_chunks (by decide)]

/-- A changed run of at most four symbols in the body is noticed. -/
theorem parse_altered_body
    (hplain : ∀ entry ∈ envelope.headers.entries, IsPlain entry.1 entry.2)
    {front old new back : List Char} (hbody : bodyText envelope.body = front ++ old ++ back)
    (hold : (old.countP fun c => c ∈ alphabet) ≤ 4) (h : Replaces old new) (hne : new ≠ old) :
    ∃ defect, parse (envelope.renderWith (front ++ new ++ back) (checksumText envelope.body)) =
      .error (.corruptArmor defect) := by
  have hreplaces : Replaces (bodyText envelope.body) (front ++ new ++ back) := by
    rw [hbody]
    exact ((replaces_refl front).append h).append (replaces_refl back)
  rcases parse_renderWith hplain hreplaces (replaces_refl _) with
    herror | ⟨other, hvalues, hsame⟩
  · exact herror
  · have hvalues' := values_bodyText envelope.body
    rw [hbody, values_append, values_append] at hvalues'
    rw [values_append, values_append] at hvalues
    rw [← length_values] at hold
    have hchanged : values new ≠ values old :=
      fun hsame => hne (h.values_inj.mp hsame.symm).symm
    rw [checksumText, checksumText, encode_inj] at hsame
    -- Four symbols are 24 bits, a burst that the checksum never misses.
    exact absurd (Block.ext hsame.symm)
      (checksumBlock_ne hvalues'.symm hvalues.symm h.length_values hold hchanged)

/-- A changed checksum is noticed. -/
theorem parse_altered_checksum
    (hplain : ∀ entry ∈ envelope.headers.entries, IsPlain entry.1 entry.2)
    {checksum : List Char} (h : Replaces (checksumText envelope.body) checksum)
    (hne : checksum ≠ checksumText envelope.body) :
    ∃ defect, parse (envelope.renderWith (bodyText envelope.body) checksum) =
      .error (.corruptArmor defect) := by
  rcases parse_renderWith hplain (replaces_refl _) h with herror | ⟨other, hvalues, hsame⟩
  · exact herror
  · rw [values_bodyText, values_encode_inj] at hvalues
    exact absurd (hvalues ▸ hsame) hne

end Envelope

end Keyring
