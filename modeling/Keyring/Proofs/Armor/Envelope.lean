import Keyring.Armor.Envelope
import Keyring.Proofs.Armor.Headers
import Keyring.Proofs.Bytes.Value
import Keyring.Proofs.Outcome
import Keyring.Proofs.Text.Blank
import Keyring.Proofs.Text.Sextets
import Mathlib.Data.List.TakeDrop
import Mathlib.Data.List.TakeWhile

/-!
The text of an envelope is read back.

Each line of an envelope stays a line when the text is cut, and trimming takes
nothing off it but the space behind the colon of an empty header. Reading then
goes through the lines part by part.
-/

namespace Keyring.Envelope

open Armor

/-- The headers that can be written in a line and read back from it. -/
structure IsPlain (key value : String) : Prop where
  trim_key : Text.trim key.toList = key.toList
  trim_value : Text.trim value.toList = value.toList
  newline_key : '\n' ∉ key.toList
  newline_value : '\n' ∉ value.toList
  mark_key : headerMark ∉ key.toList

/-! ### Header lines -/

def IsHeaderLine (line : Line) : Prop :=
  line ≠ [] ∧ headerMark ∈ line

def headerSetting (line : Line) : String × String :=
  (String.ofList (Text.trim (line.takeWhile (· ≠ headerMark))),
    String.ofList (Text.trim (line.dropWhile (· ≠ headerMark)).tail))

theorem ne_headerMark_of_notMem {line : Line} (h : headerMark ∉ line) :
    ∀ c ∈ line, decide (c ≠ headerMark) = true := by
  intro c hc
  rw [decide_eq_true_eq]
  rintro rfl
  exact h hc

/-- A line is a header exactly if there is a colon in it. -/
theorem splitHeader?_eq_some_iff {line : Line} {setting : String × String} :
    splitHeader? line = some setting ↔ headerMark ∈ line ∧ setting = headerSetting line := by
  rw [splitHeader?, List.span_eq_takeWhile_dropWhile, headerSetting]
  cases hbehind : line.dropWhile (· ≠ headerMark) with
  | nil =>
      have hnone : headerMark ∉ line := by
        intro hmem
        have hkept := List.dropWhile_eq_nil_iff.mp hbehind headerMark hmem
        simp at hkept
      simp [hnone]
  | cons c value =>
      have hmem : headerMark ∈ line := by
        by_contra hnone
        rw [List.dropWhile_eq_nil_iff.mpr (ne_headerMark_of_notMem hnone)] at hbehind
        cases hbehind
      simp [hmem, eq_comm]

theorem headerSetting_append {key : Line} (h : headerMark ∉ key) (rest : Line) :
    headerSetting (key ++ headerMark :: rest) =
      (String.ofList (Text.trim key), String.ofList (Text.trim rest)) := by
  have hkey := ne_headerMark_of_notMem h
  rw [headerSetting, List.takeWhile_append_of_pos hkey, List.dropWhile_append_of_pos hkey,
    List.takeWhile_cons, List.dropWhile_cons]
  simp

theorem isLine_headerLine {entry : String × String} (h : IsPlain entry.1 entry.2) :
    Text.IsLine (headerLine entry) := by
  constructor
  · rw [headerLine, List.mem_append, List.mem_cons, List.mem_cons, not_or, not_or, not_or]
    exact ⟨h.newline_key, by decide, by decide, h.newline_value⟩
  · intro hlast
    rw [headerLine, List.getLast?_append, List.getLast?_cons, List.getLast?_cons] at hlast
    cases hvalue : entry.2.toList.getLast? with
    | none =>
        rw [hvalue] at hlast
        simp at hlast
    | some c =>
        rw [hvalue] at hlast
        obtain rfl : c = '\r' := by simpa using hlast
        have hblank := (Text.trim_eq_self_iff.mp h.trim_value).2 _ hvalue
        rw [Text.isBlank_return] at hblank
        cases hblank

def trimmedTail (value : Line) : Line :=
  if value = [] then [] else ' ' :: value

theorem trim_headerLine {entry : String × String} (h : IsPlain entry.1 entry.2) :
    Text.trim (headerLine entry) =
      entry.1.toList ++ headerMark :: trimmedTail entry.2.toList := by
  obtain ⟨hfirst, -⟩ := Text.trim_eq_self_iff.mp h.trim_key
  obtain ⟨-, hlast⟩ := Text.trim_eq_self_iff.mp h.trim_value
  have hmark : Text.isBlank headerMark = false := by decide
  have hhead : ∀ rest c, (entry.1.toList ++ headerMark :: rest).head? = some c →
      Text.isBlank c = false := by
    intro rest c hc
    cases hkey : entry.1.toList with
    | nil =>
        rw [hkey, List.nil_append, List.head?_cons, Option.some.injEq] at hc
        exact hc ▸ hmark
    | cons d key =>
        rw [hkey, List.cons_append, List.head?_cons] at hc
        exact hfirst c (by rw [hkey, List.head?_cons, hc])
  rw [headerLine, trimmedTail]
  split
  · rename_i hvalue
    -- The space behind the colon is the last character, and the colon the one before it.
    have hend : entry.1.toList ++ headerMark :: ' ' :: entry.2.toList =
        entry.1.toList ++ [headerMark] ++ [' '] := by
      rw [hvalue, List.append_assoc]
      rfl
    rw [Text.trim, Text.trimStart_eq_self_iff.mpr (hhead _), hend,
      Text.trimEnd_append_singleton, if_pos (by decide), Text.trimEnd_append_singleton,
      if_neg (by simp [hmark])]
  · rename_i hvalue
    rw [Text.trim_eq_self_iff]
    refine ⟨hhead _, ?_⟩
    intro c hc
    obtain ⟨d, hd⟩ := Option.isSome_iff_exists.mp (List.getLast?_isSome.mpr hvalue)
    rw [List.getLast?_append, List.getLast?_cons, List.getLast?_cons, hd] at hc
    exact hlast c (by simpa [hd] using hc)

theorem trim_trimmedTail {value : Line} (h : Text.trim value = value) :
    Text.trim (trimmedTail value) = value := by
  rw [trimmedTail]
  split
  · rename_i hvalue
    rw [hvalue]
    rfl
  · exact h

theorem headerSetting_headerLine {entry : String × String} (h : IsPlain entry.1 entry.2) :
    headerSetting (Text.trim (headerLine entry)) = entry := by
  rw [trim_headerLine h, headerSetting_append h.mark_key, h.trim_key,
    trim_trimmedTail h.trim_value, String.ofList_toList, String.ofList_toList]

theorem isHeaderLine_headerLine {entry : String × String} (h : IsPlain entry.1 entry.2) :
    IsHeaderLine (Text.trim (headerLine entry)) := by
  rw [trim_headerLine h]
  simp [IsHeaderLine]

theorem readHeaders_cons {headers : Headers} {line : Line} {entry : String × String}
    (h : splitHeader? line = some entry) (rest : List Line) :
    readHeaders headers (line :: rest) =
      readHeaders (headers.insert entry.1 entry.2) rest := by
  rw [readHeaders, h]
  rintro rfl
  cases h

/-- Reading the lines of headers makes their settings. -/
theorem readHeaders_append {front : List Line} (headers : Headers)
    (h : ∀ line ∈ front, IsHeaderLine line) (rest : List Line) :
    readHeaders headers (front ++ [] :: rest) =
      .ok (headers.insertAll (front.map headerSetting), rest) := by
  induction front generalizing headers with
  | nil => rfl
  | cons line front ih =>
      obtain ⟨hline, hfront⟩ := List.forall_mem_cons.mp h
      have hsplit := splitHeader?_eq_some_iff.mpr ⟨hline.2, rfl⟩
      rw [List.cons_append, readHeaders_cons hsplit, ih _ hfront]
      rfl

/-- The headers of an envelope are read back from their lines. -/
theorem readHeaders_headerLines {headers : Headers}
    (h : ∀ entry ∈ headers.entries, IsPlain entry.1 entry.2) (rest : List Line) :
    readHeaders .empty
      (headers.entries.map (fun entry => Text.trim (headerLine entry)) ++ [] :: rest) =
      .ok (headers, rest) := by
  have hlines : ∀ line ∈ headers.entries.map (fun entry => Text.trim (headerLine entry)),
      IsHeaderLine line := by
    intro line hline
    obtain ⟨entry, hentry, rfl⟩ := List.mem_map.mp hline
    exact isHeaderLine_headerLine (h entry hentry)
  have hsettings : (headers.entries.map (fun entry => Text.trim (headerLine entry))).map
      headerSetting = headers.entries := by
    have hentry : ∀ entry ∈ headers.entries,
        headerSetting (Text.trim (headerLine entry)) = id entry :=
      fun entry hentry => headerSetting_headerLine (h entry hentry)
    rw [List.map_map]
    exact (List.map_congr_left hentry).trans (List.map_id _)
  rw [readHeaders_append .empty hlines, hsettings, Headers.insertAll_eq_of_entries rfl]

/-! ### Body lines -/

def IsBodyLine (line : Line) : Prop :=
  line.head? ≠ some checksumMark ∧ line ≠ endLine

theorem readBody_append {body : List Line} (h : ∀ line ∈ body, IsBodyLine line)
    (checksum : Line) (rest : List Line) :
    readBody (body ++ (checksumMark :: checksum) :: rest) =
      .ok (body.flatten, checksum, rest) := by
  induction body with
  | nil => rfl
  | cons line body ih =>
      have hline := h line List.mem_cons_self
      rw [List.cons_append, readBody]
      · rw [if_neg hline.2,
          ih (fun other hother => h other (List.mem_cons_of_mem line hother))]
        rfl
      · rintro checksum' rfl
        exact hline.1 rfl

theorem isBlank_symbol {c : Char} (h : c ∈ Base64.alphabet) : Text.isBlank c = false := by
  have halphabet : Base64.alphabet.all (fun c => !Text.isBlank c) = true := by decide
  simpa using List.all_eq_true.mp halphabet c h

theorem isBlank_base64 {c : Char} {bytes : Bytes} (h : c ∈ Base64.encode bytes) :
    Text.isBlank c = false := by
  rcases Base64.mem_encode h with hc | rfl
  · exact isBlank_symbol hc
  · decide

def bodyLines (body : Bytes) : List Line :=
  Bytes.chunks lineWidth (Base64.encode body)

theorem exists_of_mem_bodyLines {line : Line} {body : Bytes} (h : line ∈ bodyLines body) :
    ∃ piece, piece ≠ [] ∧ line = Base64.encode piece := by
  rw [bodyLines, show lineWidth = 4 * 16 from rfl, Base64.chunks_encode (by decide)] at h
  obtain ⟨piece, hpiece, rfl⟩ := List.mem_map.mp h
  exact ⟨piece, Bytes.ne_nil_of_mem_chunks (by decide) hpiece, rfl⟩

/-- A line that starts with a symbol is a part of the body. -/
theorem isBodyLine_cons {c : Char} (h : c ∈ Base64.alphabet) (rest : Line) :
    IsBodyLine (c :: rest) := by
  rw [IsBodyLine, List.head?_cons, Ne, Option.some.injEq]
  refine ⟨Base64.ne_equals_of_mem h, ?_⟩
  intro hend
  rw [(List.cons.inj hend).1] at h
  exact absurd h (by decide)

theorem exists_cons_of_mem_bodyLines {line : Line} {body : Bytes} (h : line ∈ bodyLines body) :
    ∃ c rest, line = c :: rest ∧ c ∈ Base64.alphabet := by
  obtain ⟨piece, hpiece, rfl⟩ := exists_of_mem_bodyLines h
  obtain ⟨v, rest, hencode⟩ := Base64.exists_encode_eq_cons hpiece
  exact ⟨_, rest, hencode, Base64.symbol_mem v⟩

theorem isBodyLine_of_mem {line : Line} {body : Bytes} (h : line ∈ bodyLines body) :
    IsBodyLine line := by
  obtain ⟨c, rest, rfl, hc⟩ := exists_cons_of_mem_bodyLines h
  exact isBodyLine_cons hc rest

theorem not_isBlank_of_mem_bodyLines {line : Line} {body : Bytes} (h : line ∈ bodyLines body) :
    ∀ c ∈ line, Text.isBlank c = false := by
  obtain ⟨piece, -, rfl⟩ := exists_of_mem_bodyLines h
  intro c hc
  exact isBlank_base64 hc

/-! ### The whole text -/

/-- The lines of an envelope of which the body and the checksum are given as they are
written. -/
def linesWith (envelope : Envelope) (pieces : List Line) (checksum : Line) : List Line :=
  beginLine :: (envelope.headers.entries.map headerLine ++
    [] :: (pieces ++ [checksumMark :: checksum, endLine]))

/-- Whether the lines of a body and a checksum are read as they are written. -/
structure IsLegible (pieces : List Line) (checksum : Line) : Prop where
  isBodyLine : ∀ line ∈ pieces, IsBodyLine line
  not_isBlank : ∀ line ∈ pieces, ∀ c ∈ line, Text.isBlank c = false
  not_isBlank_checksum : ∀ c ∈ checksum, Text.isBlank c = false

section Legible

variable {envelope : Envelope} {pieces : List Line} {checksum : Line}

theorem IsLegible.not_isBlank_mark (h : IsLegible pieces checksum) :
    ∀ c ∈ checksumMark :: checksum, Text.isBlank c = false :=
  List.forall_mem_cons.mpr ⟨by decide, h.not_isBlank_checksum⟩

/-- What holds of every part of the text holds of all its lines. -/
theorem forall_mem_linesWith {P : Line → Prop} (hbegin : P beginLine)
    (hheaders : ∀ entry ∈ envelope.headers.entries, P (headerLine entry)) (hempty : P [])
    (hpieces : ∀ line ∈ pieces, P line) (hchecksum : P (checksumMark :: checksum))
    (hend : P endLine) : ∀ line ∈ envelope.linesWith pieces checksum, P line := by
  intro line hline
  simp only [linesWith, List.mem_cons, List.mem_append, List.mem_map, List.not_mem_nil,
    or_false] at hline
  rcases hline with rfl | ⟨entry, hentry, rfl⟩ | rfl | hpiece | rfl | rfl
  · exact hbegin
  · exact hheaders entry hentry
  · exact hempty
  · exact hpieces line hpiece
  · exact hchecksum
  · exact hend

theorem isLine_of_mem_linesWith
    (hplain : ∀ entry ∈ envelope.headers.entries, IsPlain entry.1 entry.2)
    (h : IsLegible pieces checksum) :
    ∀ line ∈ envelope.linesWith pieces checksum, Text.IsLine line := by
  apply forall_mem_linesWith
  · exact ⟨by decide, by decide⟩
  · exact fun entry hentry => isLine_headerLine (hplain entry hentry)
  · exact ⟨by decide, by decide⟩
  · exact fun line hline => (Text.isLine_of_not_isBlank (h.not_isBlank line hline)).2
  · exact (Text.isLine_of_not_isBlank h.not_isBlank_mark).2
  · exact ⟨by decide, by decide⟩

/-- Trimming the lines changes at most those of the headers. -/
theorem map_trim_linesWith (h : IsLegible pieces checksum) :
    (envelope.linesWith pieces checksum).map Text.trim = beginLine ::
      (envelope.headers.entries.map (fun entry => Text.trim (headerLine entry)) ++
        [] :: (pieces ++ [checksumMark :: checksum, endLine])) := by
  have hbegin : Text.trim beginLine = beginLine := by decide
  have hend : Text.trim endLine = endLine := by decide
  have hchecksum : Text.trim (checksumMark :: checksum) = checksumMark :: checksum :=
    (Text.isLine_of_not_isBlank h.not_isBlank_mark).1
  have hbody : pieces.map Text.trim = pieces := by
    have hline : ∀ line ∈ pieces, Text.trim line = id line := fun line hline =>
      (Text.isLine_of_not_isBlank (h.not_isBlank line hline)).1
    rw [List.map_congr_left hline, List.map_id]
  rw [linesWith, List.map_cons, List.map_append, List.map_map, List.map_cons, List.map_append,
    List.map_cons, List.map_cons, List.map_nil, hbegin, hend, hchecksum, hbody]
  rfl

/-- What is written with plain headers and legible lines is read up to the body and the
checksum, which decide the rest. -/
theorem parse_linesWith (hplain : ∀ entry ∈ envelope.headers.entries, IsPlain entry.1 entry.2)
    (h : IsLegible pieces checksum) :
    parse (String.ofList (Text.unlines (envelope.linesWith pieces checksum))) =
      ((decodeBody pieces.flatten checksum).map fun body =>
        (⟨envelope.headers, body⟩ : Envelope)).mapError .corruptArmor := by
  have hheaders : readHeaders .empty
      (envelope.headers.entries.map (fun entry => Text.trim (headerLine entry)) ++
        [] :: (pieces ++ [checksumMark :: checksum, endLine])) =
      .ok (envelope.headers, pieces ++ [checksumMark :: checksum, endLine]) :=
    readHeaders_headerLines hplain _
  have hbody : readBody (pieces ++ [checksumMark :: checksum, endLine]) =
      .ok (pieces.flatten, checksum, [endLine]) :=
    readBody_append h.isBodyLine checksum [endLine]
  -- The lines are taken apart in the order in which they were put together.
  have hread : ofLines ((envelope.linesWith pieces checksum).map Text.trim) =
      (decodeBody pieces.flatten checksum).map fun body => ⟨envelope.headers, body⟩ := by
    rw [map_trim_linesWith h, ofLines, skipToBegin, if_pos rfl]
    simp only [bind, Except.bind, hheaders, hbody]
    rw [if_pos (by decide)]
    rfl
  rw [parse, String.toList_ofList,
    Text.lines_unlines (isLine_of_mem_linesWith hplain h), hread]

end Legible

def checksumLine (body : Bytes) : Line :=
  checksumMark :: Base64.encode (checksumBlock body).bytes

theorem lines_eq (envelope : Envelope) :
    envelope.lines = beginLine :: (envelope.headers.entries.map headerLine ++
      [] :: (bodyLines envelope.body ++ [checksumLine envelope.body, endLine])) := by
  simp [lines, bodyLines, checksumLine]

theorem lines_eq_linesWith (envelope : Envelope) :
    envelope.lines = envelope.linesWith (bodyLines envelope.body)
      (Base64.encode (checksumBlock envelope.body).bytes) :=
  lines_eq envelope

theorem isLegible_lines (body : Bytes) :
    IsLegible (bodyLines body) (Base64.encode (checksumBlock body).bytes) where
  isBodyLine := fun _ hline => isBodyLine_of_mem hline
  not_isBlank := fun _ hline => not_isBlank_of_mem_bodyLines hline
  not_isBlank_checksum := fun _ hc => isBlank_base64 hc

theorem isLine_of_mem_lines {envelope : Envelope}
    (h : ∀ entry ∈ envelope.headers.entries, IsPlain entry.1 entry.2) :
    ∀ line ∈ envelope.lines, Text.IsLine line := by
  rw [lines_eq_linesWith]
  exact isLine_of_mem_linesWith h (isLegible_lines envelope.body)

theorem decodeBody_encode (body : Bytes) :
    decodeBody (Base64.encode body) (Base64.encode (checksumBlock body).bytes) = .ok body := by
  rw [decodeBody, Base64.decode?_encode, Base64.decode?_encode]
  exact if_pos rfl

/-- A body and a checksum are accepted exactly in the one form that bytes and their
checksum have. -/
theorem decodeBody_eq_ok_iff {encoded checksum : Line} {body : Bytes} :
    decodeBody encoded checksum = .ok body ↔
      encoded = Base64.encode body ∧ checksum = Base64.encode (checksumBlock body).bytes := by
  constructor
  · intro h
    rw [decodeBody] at h
    split at h
    · cases h
    · rename_i read hread
      split at h
      · cases h
      · rename_i given hgiven
        split at h
        · rename_i hsame
          cases h
          rw [Base64.decode?_eq_some_iff] at hread hgiven
          exact ⟨hread, hsame ▸ hgiven⟩
        · cases h
  · rintro ⟨rfl, rfl⟩
    exact decodeBody_encode body

/-- The text of an envelope whose headers are plain is read back. -/
theorem parse_render {envelope : Envelope}
    (h : ∀ entry ∈ envelope.headers.entries, IsPlain entry.1 entry.2) :
    parse envelope.render = .ok envelope := by
  rw [render, lines_eq_linesWith, parse_linesWith h (isLegible_lines envelope.body), bodyLines,
    Bytes.flatten_chunks (by decide), decodeBody_encode]
  rfl

end Keyring.Envelope
