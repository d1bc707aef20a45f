import Keyring.Proofs.Armor.Grammar
import Keyring.Proofs.Text.Line
import Mathlib.Data.List.Infix

/-!
The text of an envelope that is cut off.

A text is read only if there is an end line among its lines. Wherever the text of an
envelope is cut, each line that is left is the front of a whole one. None of these fronts
is an end line until all its characters are there, and then only the line feed behind them
can be missing.
-/

namespace Keyring.Envelope

open Armor

/-- Lines are refused unless there is an end line among them. -/
theorem endLine_mem_of_ofLines {lines : List Line} {envelope : Envelope}
    (h : ofLines lines = .ok envelope) : endLine ∈ lines := by
  obtain ⟨sections, rfl, -, -⟩ := ofLines_eq_ok_iff.mp h
  simp [Sections.lines]

theorem parse_of_endLine_notMem {text : String}
    (h : endLine ∉ (Text.lines text.toList).map Text.trim) :
    ∃ defect, parse text = .error (.corruptArmor defect) := by
  cases hlines : ofLines ((Text.lines text.toList).map Text.trim) with
  | error defect => exact ⟨defect, by rw [parse, hlines, mapError_error]⟩
  | ok envelope => exact absurd (endLine_mem_of_ofLines hlines) h

/-! ### Fronts of lines -/

variable {envelope : Envelope}

def linesBeforeEnd (envelope : Envelope) : List Line :=
  beginLine :: (envelope.headers.entries.map headerLine ++
    [] :: (bodyLines envelope.body ++ [checksumLine envelope.body]))

theorem lines_eq_append (envelope : Envelope) :
    envelope.lines = envelope.linesBeforeEnd ++ [endLine] := by
  simp [lines_eq, linesBeforeEnd]

theorem toList_render (envelope : Envelope) :
    envelope.render.toList = Text.unlines envelope.linesBeforeEnd ++ (endLine ++ ['\n']) := by
  rw [render, String.toList_ofList, lines_eq_append, Text.unlines_concat]

/-- A line without a hyphen has no front that is an end line. -/
theorem trim_ne_endLine_of_notMem {whole line : Line} (h : '-' ∉ whole)
    (hline : line <+: whole) :
    Text.trim line ≠ endLine := by
  intro hend
  have hmem : '-' ∈ Text.trim line := hend ▸ List.mem_cons_self
  exact h (hline.subset (Text.mem_of_mem_trim hmem))

theorem hyphen_notMem_base64 (bytes : Bytes) : '-' ∉ Base64.encode bytes := fun h =>
  absurd (Base64.mem_encode h) (by decide)

theorem hyphen_notMem_bodyLine {line : Line} {body : Bytes} (h : line ∈ bodyLines body) :
    '-' ∉ line := by
  obtain ⟨piece, -, rfl⟩ := exists_of_mem_bodyLines h
  exact hyphen_notMem_base64 piece

theorem hyphen_notMem_checksumLine (body : Bytes) : '-' ∉ checksumLine body := by
  rw [checksumLine, List.mem_cons, not_or]
  exact ⟨by decide, hyphen_notMem_base64 _⟩

/-- No front of a line before the end line is an end line, nor is the front of the end
line that lacks its last character. -/
theorem trim_ne_endLine (hheaders : ∀ entry ∈ envelope.headers.entries, '-' ∉ headerLine entry)
    {whole line : Line} (hwhole : whole ∈ envelope.linesBeforeEnd ++ [endLine.dropLast])
    (hline : line <+: whole) : Text.trim line ≠ endLine := by
  have hbegin : ∀ front ∈ beginLine.inits, Text.trim front ≠ endLine := by decide
  have hend : ∀ front ∈ endLine.dropLast.inits, Text.trim front ≠ endLine := by decide
  simp only [linesBeforeEnd, List.cons_append, List.append_assoc, List.mem_cons,
    List.mem_append, List.mem_map, List.not_mem_nil, List.nil_append, or_false] at hwhole
  rcases hwhole with rfl | ⟨entry, hentry, rfl⟩ | rfl | hbody | rfl | rfl
  · exact hbegin line ((List.mem_inits _ _).mpr hline)
  · exact trim_ne_endLine_of_notMem (hheaders entry hentry) hline
  · exact trim_ne_endLine_of_notMem List.not_mem_nil hline
  · exact trim_ne_endLine_of_notMem (hyphen_notMem_bodyLine hbody) hline
  · exact trim_ne_endLine_of_notMem (hyphen_notMem_checksumLine envelope.body) hline
  · exact hend line ((List.mem_inits _ _).mpr hline)

/-! ### Texts that are cut off -/

/-- If more than the last line feed is cut off, the text is refused. -/
theorem parse_torn (hplain : ∀ entry ∈ envelope.headers.entries, IsPlain entry.1 entry.2)
    (hheaders : ∀ entry ∈ envelope.headers.entries, '-' ∉ headerLine entry) {m : ℕ}
    (hm : m + 1 < envelope.render.toList.length) :
    ∃ defect, parse (String.ofList (envelope.render.toList.take m)) =
      .error (.corruptArmor defect) := by
  have hlines : ∀ line ∈ envelope.linesBeforeEnd ++ [endLine.dropLast], Text.IsLine line := by
    intro line hline
    rcases List.mem_append.mp hline with hline | hline
    · refine isLine_of_mem_lines hplain line ?_
      rw [lines_eq_append]
      exact List.mem_append_left _ hline
    · rw [List.mem_singleton.mp hline]
      exact ⟨by decide, by decide⟩
  -- The last hyphen is gone, so what is left ends no later than in the line without it.
  have hfront : envelope.render.toList.take m <+:
      Text.unlines (envelope.linesBeforeEnd ++ [endLine.dropLast]) := by
    have hwhole : envelope.render.toList =
        (Text.unlines envelope.linesBeforeEnd ++ endLine.dropLast) ++ ['-', '\n'] := by
      rw [toList_render, List.append_assoc]
      rfl
    rw [hwhole, List.length_append] at hm
    have hshort : m ≤ (Text.unlines envelope.linesBeforeEnd ++ endLine.dropLast).length := by
      simp only [List.length_cons, List.length_nil] at hm
      omega
    rw [hwhole, List.take_append_of_le_length hshort, Text.unlines_concat, ← List.append_assoc]
    exact (List.take_prefix _ _).trans (List.prefix_append _ _)
  apply parse_of_endLine_notMem
  rw [String.toList_ofList, List.mem_map]
  rintro ⟨line, hline, hend⟩
  obtain ⟨whole, hwhole, hprefix⟩ := Text.exists_prefix_of_mem_lines hlines hfront hline
  exact trim_ne_endLine hheaders hwhole hprefix hend

theorem take_eq_of_length_le {α : Type} {list : List α} {m : ℕ} (h : list.length ≤ m + 1) :
    list.take m = list.dropLast ∨ list.take m = list := by
  rcases Nat.lt_or_ge m list.length with hm | hm
  · obtain rfl : m = list.length - 1 := by omega
    exact .inl List.dropLast_eq_take.symm
  · exact .inr (List.take_of_length_le hm)

theorem parse_without_newline
    (hplain : ∀ entry ∈ envelope.headers.entries, IsPlain entry.1 entry.2) :
    parse (String.ofList envelope.render.toList.dropLast) = .ok envelope := by
  have hlines := isLine_of_mem_lines hplain
  have hbefore : ∀ line ∈ envelope.linesBeforeEnd, Text.IsLine line := by
    intro line hline
    exact hlines line (lines_eq_append envelope ▸ List.mem_append_left _ hline)
  have hcut : Text.lines envelope.render.toList.dropLast =
      Text.lines envelope.render.toList := by
    rw [toList_render, ← List.append_assoc, List.dropLast_concat,
      Text.lines_unlines_append hbefore (by decide) (by decide), List.append_assoc,
      ← toList_render, render, String.toList_ofList, Text.lines_unlines hlines,
      lines_eq_append]
  rw [← parse_render hplain, parse, parse, String.toList_ofList, hcut]

/-- If no more than the last line feed is cut off, the text is read back. -/
theorem parse_almost_whole
    (hplain : ∀ entry ∈ envelope.headers.entries, IsPlain entry.1 entry.2) {m : ℕ}
    (hm : envelope.render.toList.length ≤ m + 1) :
    parse (String.ofList (envelope.render.toList.take m)) = .ok envelope := by
  rcases take_eq_of_length_le hm with hcut | hcut
  · rw [hcut, parse_without_newline hplain]
  · rw [hcut, String.ofList_toList, parse_render hplain]

end Keyring.Envelope
