import Keyring.Proofs.Armor.Torn
import Keyring.Proofs.Text.Layout
import Mathlib.Logic.Relation

/-!
The layout of an envelope.

What an envelope holds does not depend on how its text is laid out. A change of the layout
is one of the lines' ends and margins, which leaves the trimmed lines, or one of the sections
into which those fall. Each such change leaves the body and the headers under the keys that
are kept, and so do any number of them.
-/

namespace Keyring.Envelope

open Armor

variable {kept : List String} {envelope other : Envelope} {sections changed : Sections}

/-- Whether two envelopes have the same body, and the same headers under some keys. -/
structure AgreesOn (kept : List String) (envelope other : Envelope) : Prop where
  headers : ∀ key ∈ kept, other.headers.get? key = envelope.headers.get? key
  body : other.body = envelope.body

theorem AgreesOn.refl (kept : List String) (envelope : Envelope) :
    AgreesOn kept envelope envelope :=
  ⟨fun _ _ => rfl, rfl⟩

theorem AgreesOn.trans {last : Envelope} (h : AgreesOn kept envelope other)
    (hlast : AgreesOn kept other last) : AgreesOn kept envelope last where
  headers := fun key hkey => (hlast.headers key hkey).trans (h.headers key hkey)
  body := hlast.body.trans h.body

/-! ### Changes of the sections -/

/-- The changes of sections that leave the body and the headers under some keys. -/
inductive Sections.Change (kept : List String) (sections : Sections) : Sections → Prop
  /-- More lines in front of the begin line. -/
  | preamble {front back : List Line} (more : List Line) :
      sections.preamble = front ++ back → beginLine ∉ more →
      Change kept sections { sections with preamble := front ++ (more ++ back) }
  /-- One more header, under a key that does not matter. -/
  | header {front back : List Line} {line : Line} :
      sections.headers = front ++ back → IsHeaderLine line → (headerSetting line).1 ∉ kept →
      Change kept sections { sections with headers := front ++ line :: back }
  /-- An empty line in front of the checksum. -/
  | blank {front back : List Line} :
      sections.body = front ++ back →
      Change kept sections { sections with body := front ++ [] :: back }
  /-- An empty line behind the checksum. -/
  | blankBehind : Change kept sections { sections with blanks := sections.blanks + 1 }
  /-- The body in other lines, none of which looks like a checksum. -/
  | body {pieces : List Line} :
      pieces.flatten = sections.body.flatten →
      (∀ piece ∈ pieces, piece.head? ≠ some checksumMark) →
      Change kept sections { sections with body := pieces }
  /-- Other lines behind the end line. -/
  | rest (rest : List Line) : Change kept sections { sections with rest := rest }

/-- The pieces of a text in base 64 are lines of a body, unless one looks like a checksum. -/
theorem isBodyLine_of_flatten {pieces : List Line} {bytes : Bytes}
    (h : pieces.flatten = Base64.encode bytes)
    (hmark : ∀ piece ∈ pieces, piece.head? ≠ some checksumMark) :
    ∀ piece ∈ pieces, IsBodyLine piece := by
  intro piece hpiece
  refine ⟨hmark piece hpiece, ?_⟩
  rintro rfl
  have hhyphen : '-' ∈ pieces.flatten :=
    List.mem_flatten.mpr ⟨endLine, hpiece, List.mem_cons_self⟩
  exact hyphen_notMem_base64 bytes (h ▸ hhyphen)

theorem isBodyLine_nil : IsBodyLine [] :=
  ⟨by decide, by decide⟩

theorem forall_mem_insert {P : Line → Prop} {front back : List Line} {line : Line}
    (h : ∀ other ∈ front ++ back, P other) (hline : P line) :
    ∀ other ∈ front ++ line :: back, P other := by
  rw [List.forall_mem_append] at h
  rw [List.forall_mem_append, List.forall_mem_cons]
  exact ⟨h.1, hline, h.2⟩

/-- A change leaves the sections well formed, and they say the same as before. -/
theorem Sections.Change.exists_spells (h : sections.Change kept changed)
    (hwell : sections.IsWellFormed) (hspells : sections.Spells envelope) :
    changed.IsWellFormed ∧ ∃ other, changed.Spells other ∧ AgreesOn kept envelope other := by
  cases h with
  | @preamble front back more hpreamble hmore =>
      have hbefore := hwell.preamble
      rw [hpreamble, List.mem_append, not_or] at hbefore
      have hafter : beginLine ∉ front ++ (more ++ back) := by
        rw [List.mem_append, List.mem_append, not_or, not_or]
        exact ⟨hbefore.1, hmore, hbefore.2⟩
      exact ⟨⟨hafter, hwell.headers, hwell.body⟩, envelope,
        ⟨hspells.headers, hspells.body, hspells.checksum⟩, .refl kept envelope⟩
  | @header front back line hheaders hline hkey =>
      have hafter : ∀ line' ∈ front ++ line :: back, IsHeaderLine line' :=
        forall_mem_insert (hheaders ▸ hwell.headers) hline
      refine ⟨⟨hwell.preamble, hafter, hwell.body⟩,
        ⟨Headers.empty.insertAll ((front ++ line :: back).map headerSetting), envelope.body⟩,
        ⟨Headers.eq_insertAll_empty_iff.mp rfl, hspells.body, hspells.checksum⟩, ?_, rfl⟩
      -- The new header is looked up under no key that is kept.
      intro key hkept
      have hne : key ≠ (headerSetting line).1 := fun heq => hkey (heq ▸ hkept)
      rw [Headers.eq_insertAll_empty_iff.mp rfl key, hspells.headers key, hheaders,
        List.map_append, List.map_append, List.map_cons, Headers.lastValue?_insert hne]
  | @blank front back hbody =>
      have hafter : ∀ line ∈ front ++ [] :: back, IsBodyLine line :=
        forall_mem_insert (hbody ▸ hwell.body) isBodyLine_nil
      have hflatten : (front ++ [] :: back).flatten = Base64.encode envelope.body := by
        rw [← hspells.body, hbody]
        simp
      exact ⟨⟨hwell.preamble, hwell.headers, hafter⟩, envelope,
        ⟨hspells.headers, hflatten, hspells.checksum⟩, .refl kept envelope⟩
  | blankBehind =>
      exact ⟨⟨hwell.preamble, hwell.headers, hwell.body⟩, envelope,
        ⟨hspells.headers, hspells.body, hspells.checksum⟩, .refl kept envelope⟩
  | @body pieces hflatten hmark =>
      rw [hspells.body] at hflatten
      exact ⟨⟨hwell.preamble, hwell.headers, isBodyLine_of_flatten hflatten hmark⟩, envelope,
        ⟨hspells.headers, hflatten, hspells.checksum⟩, .refl kept envelope⟩
  | rest rest =>
      exact ⟨⟨hwell.preamble, hwell.headers, hwell.body⟩, envelope,
        ⟨hspells.headers, hspells.body, hspells.checksum⟩, .refl kept envelope⟩

/-! ### Changes of the text -/

/-- The changes of a text that leave the body of an envelope and its headers under some
keys. -/
inductive LayoutChange (kept : List String) : List Char → List Char → Prop
  /-- One line gets the longer end. -/
  | returnAdded (front back : List Char) :
      LayoutChange kept (front ++ '\n' :: back) (front ++ '\r' :: '\n' :: back)
  /-- One line gets the shorter end. -/
  | returnRemoved (front back : List Char) :
      LayoutChange kept (front ++ '\r' :: '\n' :: back) (front ++ '\n' :: back)
  /-- White space at the start of a line. -/
  | padStart {front blanks : List Char} (back : List Char) :
      Text.IsWhole front → Text.IsPadding blanks →
      LayoutChange kept (front ++ back) (front ++ (blanks ++ back))
  /-- White space at the end of a line. -/
  | padEnd (front : List Char) {blanks back : List Char} :
      Text.IsPadding blanks → Text.StartsWithEnd back →
      LayoutChange kept (front ++ back) (front ++ (blanks ++ back))
  /-- A change of the sections, whatever the ends and margins of the lines are then. -/
  | sections {text changedText : List Char} {sections changed : Sections} :
      Text.trimmedLines text = sections.lines → sections.IsWellFormed →
      sections.Change kept changed → Text.trimmedLines changedText = changed.lines →
      LayoutChange kept text changedText

/-- What stands behind the lines of an envelope is not read. -/
theorem IsWritten.append {lines : List Line} (h : IsWritten lines envelope)
    (more : List Line) :
    IsWritten (lines ++ more) envelope := by
  obtain ⟨sections, rfl, hwell, hspells⟩ := h
  refine ⟨{ sections with rest := sections.rest ++ more }, ?_,
    ⟨hwell.preamble, hwell.headers, hwell.body⟩,
    ⟨hspells.headers, hspells.body, hspells.checksum⟩⟩
  simp [Sections.lines]

theorem LayoutChange.exists_isWritten {text changedText : List Char}
    (h : LayoutChange kept text changedText)
    (hwritten : IsWritten (Text.trimmedLines text) envelope) :
    ∃ other, IsWritten (Text.trimmedLines changedText) other ∧
      AgreesOn kept envelope other := by
  cases h with
  | returnAdded front back =>
      rw [← Text.trimmedLines_return] at hwritten
      exact ⟨envelope, hwritten, .refl kept envelope⟩
  | returnRemoved front back =>
      rw [Text.trimmedLines_return] at hwritten
      exact ⟨envelope, hwritten, .refl kept envelope⟩
  | padStart back hfront hblanks =>
      obtain ⟨more, hmore⟩ := Text.exists_trimmedLines_pad_start hfront hblanks back
      exact ⟨envelope, hmore ▸ hwritten.append more, .refl kept envelope⟩
  | padEnd front hblanks hback =>
      obtain ⟨more, hmore⟩ := Text.exists_trimmedLines_pad_end hblanks hback front
      exact ⟨envelope, hmore ▸ hwritten.append more, .refl kept envelope⟩
  | sections hlines hwell hchange hchanged =>
      rw [hlines, ← ofLines_eq_ok_iff, ofLines_lines_eq_ok_iff hwell] at hwritten
      obtain ⟨hafter, other, hspells, hagrees⟩ := hchange.exists_spells hwell hwritten
      exact ⟨other, ⟨_, hchanged, hafter, hspells⟩, hagrees⟩

theorem exists_isWritten_of_layoutChanges {text changedText : List Char}
    (h : Relation.ReflTransGen (LayoutChange kept) text changedText)
    (hwritten : IsWritten (Text.trimmedLines text) envelope) :
    ∃ other, IsWritten (Text.trimmedLines changedText) other ∧
      AgreesOn kept envelope other := by
  induction h with
  | refl => exact ⟨envelope, hwritten, .refl kept envelope⟩
  | tail _ hstep ih =>
      obtain ⟨middle, hmiddle, hfirst⟩ := ih
      obtain ⟨other, hother, hlast⟩ := hstep.exists_isWritten hmiddle
      exact ⟨other, hother, hfirst.trans hlast⟩

theorem parse_eq_ok_iff {text : String} :
    parse text = .ok envelope ↔ IsWritten (Text.trimmedLines text.toList) envelope := by
  rw [parse, mapError_eq_ok_iff, ofLines_eq_ok_iff]
  rfl

/-- However the layout of a text is changed, it is read as the same body and the same
headers under the keys that are kept. -/
theorem exists_parse_of_layoutChanges {text changedText : String}
    (h : Relation.ReflTransGen (LayoutChange kept) text.toList changedText.toList)
    (hparse : parse text = .ok envelope) :
    ∃ other, parse changedText = .ok other ∧ AgreesOn kept envelope other := by
  rw [parse_eq_ok_iff] at hparse
  obtain ⟨other, hother, hagrees⟩ := exists_isWritten_of_layoutChanges h hparse
  exact ⟨other, parse_eq_ok_iff.mpr hother, hagrees⟩

end Keyring.Envelope
